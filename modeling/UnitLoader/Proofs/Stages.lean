import UnitLoader.Proofs.TransformOrder

/-! What the stages of a build do to its units. A stage that fails settles every unit
of the batch; transforming concerns the units of its order and each by itself. -/

namespace UnitLoader

namespace SourceUnit

variable {Tree Value Listener : Type} (u : SourceUnit Tree Value Listener)

@[simp] theorem address_fail (e : LoadError) : (u.fail e).address = u.address := by
  unfold fail; split <;> rfl

@[simp] theorem kind_fail (e : LoadError) : (u.fail e).kind = u.kind := by
  unfold fail; split <;> rfl

@[simp] theorem origin_fail (e : LoadError) : (u.fail e).origin = u.origin := by
  unfold fail; split <;> rfl

@[simp] theorem dependencies_fail (e : LoadError) : (u.fail e).dependencies = u.dependencies := by
  unfold fail; split <;> rfl

@[simp] theorem listeners_fail (e : LoadError) : (u.fail e).listeners = u.listeners := by
  unfold fail; split <;> rfl

@[simp] theorem cancellable_fail (e : LoadError) : (u.fail e).cancellable = u.cancellable := by
  unfold fail; split <;> rfl

variable {u}

theorem fail_of_isSettled {e : LoadError} (h : u.state.isSettled = true) : u.fail e = u := by
  simp [fail, h]

theorem state_fail {e : LoadError} (h : u.state.isSettled = false) : (u.fail e).state = .error := by
  simp [fail, h]

theorem error_fail {e : LoadError} (h : u.state.isSettled = false) :
    (u.fail e).error = some (u.error.getD e) := by
  simp [fail, h, recordError]

theorem isSettled_fail (u : SourceUnit Tree Value Listener) (e : LoadError) :
    (u.fail e).state.isSettled = true := by
  cases h : u.state.isSettled with
  | true => rw [fail_of_isSettled h, h]
  | false => rw [state_fail h]; rfl

/-- A unit with what transforming gives for it. -/
def lowered (tools : Toolchain Tree Value) (project : Project)
    (u : SourceUnit Tree Value Listener) : SourceUnit Tree Value Listener :=
  match u.tree with
  | none => u
  | some tree =>
    { u with transformed := some (tools.transform ⟨u.address, u.kind, tree⟩ project).value }.advance
      .transformed

theorem lowered_of_tree {tools : Toolchain Tree Value} {project : Project} {tree : Tree}
    (ht : u.tree = some tree) (hp : u.state = .parsed) :
    u.lowered tools project =
      { u with
        transformed := some (tools.transform ⟨u.address, u.kind, tree⟩ project).value
        state := .transformed } := by
  simp [lowered, ht, advance, hp, State.mayBecome, State.rank]

end SourceUnit

namespace Build

variable {Tree Value Listener : Type}

theorem failUnit_cache (errorFor : String → LoadError)
    (v : List UnitId × Cache Tree Value Listener) (id : UnitId) :
    (failUnit errorFor v id).2 = v.2.modify id fun u => u.fail (errorFor u.address) := by
  simp only [failUnit]
  cases hu : v.2.get? id with
  | none => exact (Cache.modify_eq_self (by simp [hu])).symm
  | some u =>
    have hsame (hs : u.state.isSettled = true) :
        v.2.modify id (fun u => u.fail (errorFor u.address)) = v.2 :=
      Cache.modify_eq_self fun w hw => by
        obtain rfl := Option.some.inj (hu.symm.trans hw)
        exact SourceUnit.fail_of_isSettled hs
    cases hs : u.state.isSettled with
    | true => simp [hs, hsame hs]
    | false =>
      simp only [hs, Bool.false_eq_true, if_false]
      refine Cache.modify_congr fun w hw => ?_
      obtain rfl := Option.some.inj (hu.symm.trans hw)
      rfl

theorem failUnits_cache (errorFor : String → LoadError) (ids : List UnitId)
    (v : List UnitId × Cache Tree Value Listener) :
    (ids.foldl (failUnit errorFor) v).2 =
      ids.foldl (fun c id => c.modify id fun u => u.fail (errorFor u.address)) v.2 := by
  induction ids generalizing v with
  | nil => rfl
  | cons id ids ih => rw [List.foldl_cons, List.foldl_cons, ih, failUnit_cache]

theorem reporter_check (b : Build Tree Value Listener) (ids : List UnitId) (phase : Phase)
    (mark : Mark) : (b.check ids phase mark).build.reporter = b.reporter := by
  unfold check
  split <;> rfl

theorem history_check (b : Build Tree Value Listener) (ids : List UnitId) (phase : Phase)
    (mark : Mark) : (b.check ids phase mark).build.history = b.history := by
  unfold check
  split <;> rfl

theorem check_of_no_errors {b : Build Tree Value Listener} {ids : List UnitId} {phase : Phase}
    {mark : Mark} (h : b.reporter.errorsSince mark = []) : b.check ids phase mark = ⟨none, b⟩ := by
  simp [check, h]

theorem check_of_errors {b : Build Tree Value Listener} (phase : Phase) {mark : Mark}
    (h : b.reporter.errorsSince mark ≠ []) :
    ∃ failed cache, b.check b.cache.ids phase mark = ⟨some failed, { b with cache := cache }⟩ ∧
      cache.size = b.cache.size ∧
      ∀ id u, b.cache.get? id = some u → ∃ e, cache.get? id = some (u.fail e) := by
  cases he : b.reporter.errorsSince mark with
  | nil => exact absurd he h
  | cons first others =>
    refine ⟨_, _, by simp only [check, he]; rfl, by rw [failUnits_cache, Cache.size_foldl_modify],
      fun id u hu => ⟨phaseError phase first (first :: others) u.address, ?_⟩⟩
    rw [failUnits_cache, Cache.get?_foldl_modify b.cache.nodup_ids,
      if_pos (Cache.mem_ids_of_get? hu), hu, Option.map_some]

/-- The units that analysis is given, with their numbers. -/
def targets (c : Cache Tree Value Listener) : List (UnitId × Target Tree) :=
  c.ids.filterMap (target? c)

theorem mem_targets {c : Cache Tree Value Listener} {id : UnitId} {target : Target Tree} :
    (id, target) ∈ targets c ↔
      ∃ u tree, c.get? id = some u ∧ u.state = .parsed ∧ u.tree = some tree ∧
        target = ⟨u.address, u.kind, tree⟩ := by
  simp only [targets, List.mem_filterMap, target?]
  constructor
  · rintro ⟨j, -, hj⟩
    cases hu : c.get? j with
    | none => simp [hu] at hj
    | some u =>
      by_cases hp : u.state = .parsed
      · simp only [hu, hp, if_true, Option.map_eq_some_iff, Prod.mk.injEq] at hj
        obtain ⟨tree, ht, rfl, rfl⟩ := hj
        exact ⟨u, tree, hu, hp, ht, rfl⟩
      · simp [hu, hp] at hj
  · rintro ⟨u, tree, hu, hp, ht, rfl⟩
    exact ⟨id, Cache.mem_ids_of_get? hu, by simp [hu, hp, ht]⟩

theorem analyze_of_targets {tools : Toolchain Tree Value} {b : Build Tree Value Listener}
    (h : targets b.cache ≠ []) :
    b.analyze tools b.cache.ids =
      let done := tools.analyze ((targets b.cache).map (·.2)) b.project
      let told : Build Tree Value Listener :=
        { b with
          project := done.value
          reporter := b.reporter.reportAll done.diagnostics
          history := b.history ++
            [.analyzed ((targets b.cache).map (·.1)) ((targets b.cache).map (·.2.address))] }
      told.check told.cache.ids .analyze b.reporter.mark := by
  simp only [analyze]
  cases ht : targets b.cache with
  | nil => exact absurd ht h
  | cons t ts =>
    have he : b.cache.ids.filterMap (target? b.cache) = t :: ts := ht
    simp only [he]

/-! ### Transforming -/

/-- The tree of a unit as transforming sees it, whatever the state of the unit. -/
def source? (c : Cache Tree Value Listener) (id : UnitId) : Option (Target Tree) :=
  (c.get? id).bind fun u => u.tree.map fun tree => ⟨u.address, u.kind, tree⟩

theorem source?_eq_some {c : Cache Tree Value Listener} {id : UnitId} {target : Target Tree} :
    source? c id = some target ↔
      ∃ u tree, c.get? id = some u ∧ u.tree = some tree ∧ target = ⟨u.address, u.kind, tree⟩ := by
  simp only [source?, Option.bind_eq_some_iff, Option.map_eq_some_iff]
  constructor
  · rintro ⟨u, hu, tree, ht, rfl⟩
    exact ⟨u, tree, hu, ht, rfl⟩
  · rintro ⟨u, tree, hu, ht, rfl⟩
    exact ⟨u, hu, tree, ht, rfl⟩

theorem map_fst_sources {α : Type} {c : Cache Tree Value Listener} (f : Target Tree → α)
    {ids : List UnitId} (h : ∀ id ∈ ids, (source? c id).isSome) :
    (ids.filterMap fun id => (source? c id).map fun target => (id, f target)).map (·.1) = ids := by
  induction ids with
  | nil => rfl
  | cons id ids ih =>
    obtain ⟨target, ht⟩ := Option.isSome_iff_exists.mp (h id List.mem_cons_self)
    simp only [List.filterMap_cons, ht, Option.map_some, List.map_cons,
      ih fun j hj => h j (List.mem_cons_of_mem _ hj)]

theorem transformUnit_cache (tools : Toolchain Tree Value) (b : Build Tree Value Listener)
    (id : UnitId) :
    (transformUnit tools b id).cache = b.cache.modify id (·.lowered tools b.project) := by
  cases hu : b.cache.get? id with
  | none =>
    simp only [transformUnit, hu]
    exact (Cache.modify_eq_self (by simp [hu])).symm
  | some u =>
    cases ht : u.tree with
    | none =>
      simp only [transformUnit, hu]
      simp only [ht]
      refine (Cache.modify_eq_self fun w hw => ?_).symm
      obtain rfl := Option.some.inj (hu.symm.trans hw)
      simp [SourceUnit.lowered, ht]
    | some tree =>
      simp only [transformUnit, hu]
      simp only [ht]
      refine Cache.modify_congr fun w hw => ?_
      obtain rfl := Option.some.inj (hu.symm.trans hw)
      simp [SourceUnit.lowered, ht]

theorem transformUnit_of_source {tools : Toolchain Tree Value} {b : Build Tree Value Listener}
    {id : UnitId} {target : Target Tree} (h : source? b.cache id = some target) :
    transformUnit tools b id =
      { b with
        reporter := b.reporter.reportAll (tools.transform target b.project).diagnostics
        history := b.history ++ [.transformed id target.address target.kind]
        cache := b.cache.modify id (·.lowered tools b.project) } := by
  obtain ⟨u, tree, hu, ht, rfl⟩ := source?_eq_some.mp h
  rw [← transformUnit_cache]
  simp only [transformUnit, hu]
  simp only [ht]

theorem source?_modify_lowered (tools : Toolchain Tree Value) (project : Project)
    (c : Cache Tree Value Listener) (id j : UnitId) :
    source? (c.modify id (·.lowered tools project)) j = source? c j := by
  simp only [source?]
  rw [Cache.get?_modify]
  split
  · cases c.get? j with
    | none => rfl
    | some u =>
      cases ht : u.tree with
      | none => simp [SourceUnit.lowered, ht]
      | some tree =>
        simp only [SourceUnit.lowered, ht, SourceUnit.advance, Option.map_some, Option.bind_some]
        split <;> rfl
  · rfl

theorem transformUnits_of_sources {tools : Toolchain Tree Value} {ids : List UnitId}
    {b : Build Tree Value Listener} (h : ∀ id ∈ ids, (source? b.cache id).isSome) :
    ids.foldl (transformUnit tools) b =
      let targets := ids.filterMap fun id => (source? b.cache id).map fun target => (id, target)
      { b with
        reporter := b.reporter.reportAll
          (targets.flatMap fun t => (tools.transform t.2 b.project).diagnostics)
        history := b.history ++ targets.map fun t => .transformed t.1 t.2.address t.2.kind
        cache := ids.foldl (fun c id => c.modify id (·.lowered tools b.project)) b.cache } := by
  induction ids generalizing b with
  | nil => simp [Reporter.reportAll]
  | cons id ids ih =>
    obtain ⟨target, ht⟩ := Option.isSome_iff_exists.mp (h id List.mem_cons_self)
    rw [List.foldl_cons, transformUnit_of_source ht, ih]
    · simp [ht, source?_modify_lowered, Reporter.reportAll]
    · intro j hj
      rw [source?_modify_lowered]
      exact h j (List.mem_cons_of_mem _ hj)

end Build

end UnitLoader
