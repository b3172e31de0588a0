import UnitLoader.Proofs.ExecutionOrder
import UnitLoader.Proofs.Notices

/-! Executing a batch. The codes of its units run one after another in one namespace
until one of them fails; the units are complete and their listeners told only when
none did. -/

namespace UnitLoader

/-- What running codes comes to: the values of those that gave one, and the one that
gave none. -/
structure Ran (Value : Type) where
  results : List (UnitId × Value)
  events : List (Event Value)
  ns : Namespace Value
  failed : Option (UnitId × String)

variable {Tree Value Listener : Type}

def Toolchain.runAll (tools : Toolchain Tree Value) (ns : Namespace Value) :
    List (UnitId × String) → Ran Value
  | [] => ⟨[], [], ns, none⟩
  | (id, code) :: rest =>
    let done := tools.execute code ns
    match done.result with
    | .ok value =>
      let ran := tools.runAll done.ns rest
      ⟨(id, value) :: ran.results, .executed id code done.result :: ran.events, ran.ns, ran.failed⟩
    | .error message => ⟨[], [.executed id code done.result], done.ns, some (id, message)⟩

theorem Toolchain.map_fst_results {tools : Toolchain Tree Value} {ns : Namespace Value}
    {codes : List (UnitId × String)} (h : (tools.runAll ns codes).failed = none) :
    (tools.runAll ns codes).results.map (·.1) = codes.map (·.1) := by
  induction codes generalizing ns with
  | nil => rfl
  | cons c rest ih =>
    obtain ⟨id, code⟩ := c
    simp only [runAll] at h ⊢
    cases hd : (tools.execute code ns).result with
    | ok value =>
      simp only [hd] at h ⊢
      simp [ih h]
    | error message => simp [hd] at h

theorem Toolchain.executed_of_mem_events {tools : Toolchain Tree Value} {ns : Namespace Value}
    {codes : List (UnitId × String)} {e : Event Value} (he : e ∈ (tools.runAll ns codes).events) :
    ∃ id code result, e = .executed id code result := by
  induction codes generalizing ns with
  | nil => simp [runAll] at he
  | cons c rest ih =>
    obtain ⟨id, code⟩ := c
    simp only [runAll] at he
    cases hd : (tools.execute code ns).result with
    | ok value =>
      simp only [hd, List.mem_cons] at he
      rcases he with rfl | he
      · exact ⟨id, code, _, rfl⟩
      · exact ih he
    | error message =>
      simp only [hd, List.mem_singleton] at he
      exact ⟨id, code, _, he⟩

theorem Toolchain.results_sublist (tools : Toolchain Tree Value) (ns : Namespace Value)
    (codes : List (UnitId × String)) :
    ((tools.runAll ns codes).results.map (·.1)).Sublist (codes.map (·.1)) := by
  induction codes generalizing ns with
  | nil => exact .slnil
  | cons c rest ih =>
    obtain ⟨id, code⟩ := c
    simp only [runAll]
    cases (tools.execute code ns).result with
    | ok value => exact (ih _).cons_cons id
    | error message => exact List.nil_sublist _

/-- The executable text of a transformed unit. -/
def code? (tools : Toolchain Tree Value) (c : Cache Tree Value Listener) (id : UnitId) :
    Option (UnitId × String) :=
  (c.get? id).bind fun u =>
    if u.state = .transformed then u.transformed.map fun tree => (id, tools.write tree) else none

theorem code?_modify_of_ne {tools : Toolchain Tree Value} {c : Cache Tree Value Listener}
    {id j : UnitId} {f : SourceUnit Tree Value Listener → SourceUnit Tree Value Listener}
    (h : id ≠ j) : code? tools (c.modify id f) j = code? tools c j := by
  simp [code?, Cache.get?_modify_of_ne h]

namespace Session

def finishAll (c : Cache Tree Value Listener) (results : List (UnitId × Value)) :
    Cache Tree Value Listener :=
  results.foldl (fun c r => c.modify r.1 (·.finish r.2)) c

/-- A session after a run, with no unit complete. -/
def afterRun (s : Session Tree Value Listener) (ran : Ran Value) : Session Tree Value Listener :=
  { s with
    cache := finishAll s.cache ran.results
    history := s.history ++ ran.events
    ns := ran.ns }

theorem runUnits_eq {rest : List UnitId} {s : Session Tree Value Listener} {done : List UnitId}
    (hn : rest.Nodup)
    (ht : ∀ id ∈ rest, ∀ u, s.cache.get? id = some u → u.state = .transformed →
      u.transformed.isSome) :
    s.runUnits done rest =
      let ran := s.tools.runAll s.ns (rest.filterMap (code? s.tools s.cache))
      let m := s.afterRun ran
      match ran.failed with
      | none =>
        let all := done ++ ran.results.map (·.1)
        all.foldl notifySuccess (all.foldl completeUnit m)
      | some (id, message) =>
        (m.onBuild (·.report (.ofUnit .evaluate (m.cache.addressOf id) message))).failBatch id
          (.execution (m.cache.addressOf id) message) := by
  induction rest generalizing s done with
  | nil => simp [runUnits, Toolchain.runAll, afterRun, finishAll]
  | cons id rest ih =>
    have hid := (List.nodup_cons.mp hn).1
    have hrest := (List.nodup_cons.mp hn).2
    rw [runUnits]
    split
    · next hi =>
      obtain ⟨u, hu, hstate⟩ := Cache.isIn_iff.mp hi
      obtain ⟨tree, htree⟩ := Option.isSome_iff_exists.mp (ht id List.mem_cons_self u hu hstate)
      have hcode : code? s.tools s.cache id = some (id, s.tools.write tree) := by
        simp [code?, hu, hstate, htree]
      have hwrite : s.toBuild.write s.tools id = some (s.tools.write tree) := by
        simp [Build.write, hu, htree]
      simp only [List.filterMap_cons, hcode, Toolchain.runAll, Build.execute, hwrite]
      cases hr : (s.tools.execute (s.tools.write tree) s.ns).result with
      | error message =>
        simp only [afterRun, finishAll, List.foldl_nil]
        rfl
      | ok value =>
        simp only
        have hsame : rest.filterMap (code? s.tools (s.cache.modify id (·.finish value))) =
            rest.filterMap (code? s.tools s.cache) :=
          List.filterMap_congr fun j hj => code?_modify_of_ne fun he => hid (by rwa [he])
        rw [ih hrest]
        · simp only [modifyUnit, onBuild, Build.modify, Build.record, hsame, afterRun, finishAll,
            List.foldl_cons, List.append_assoc, List.singleton_append, List.map_cons]
        · intro j hj v hv
          simp only [modifyUnit, onBuild, Build.modify, Build.record] at hv
          rw [Cache.get?_modify_of_ne fun he : id = j => hid (by rwa [he])] at hv
          exact ht j (List.mem_cons_of_mem _ hj) v hv
    · next hi =>
      have hcode : code? s.tools s.cache id = none := by
        cases hu : s.cache.get? id with
        | none => simp [code?, hu]
        | some u =>
          have hstate : u.state ≠ .transformed := fun hs => hi (Cache.isIn_iff.mpr ⟨u, hu, hs⟩)
          simp [code?, hu, hstate]
      rw [ih hrest fun j hj => ht j (List.mem_cons_of_mem _ hj)]
      simp only [List.filterMap_cons, hcode]

/-! ### A run that went through -/

theorem get?_finishAll {c : Cache Tree Value Listener} {results : List (UnitId × Value)}
    (hn : (results.map (·.1)).Nodup) (id : UnitId) :
    (finishAll c results).get? id =
      match results.lookup id with
      | some value => (c.get? id).map (·.finish value)
      | none => c.get? id := by
  induction results generalizing c with
  | nil => rfl
  | cons r rest ih =>
    obtain ⟨j, value⟩ := r
    simp only [List.map_cons, List.nodup_cons] at hn
    have hstep : finishAll c ((j, value) :: rest) = finishAll (c.modify j (·.finish value)) rest :=
      rfl
    rw [hstep, ih hn.2, List.lookup_cons, Cache.get?_modify]
    by_cases hj : j = id
    · subst hj
      have hnone : rest.lookup j = none := by
        rw [List.lookup_eq_none_iff]
        intro r hr
        simpa using fun he : j = r.1 => hn.1 (List.mem_map.mpr ⟨r, hr, he.symm⟩)
      simp [hnone]
    · have hne : (id == j) = false := by simpa using fun he : id = j => hj he.symm
      simp [hne, hj]

theorem completeUnit_foldl (ids : List UnitId) (s : Session Tree Value Listener) :
    ids.foldl completeUnit s =
      { s with cache := ids.foldl (fun c id => c.modify id (·.advance .complete)) s.cache } := by
  induction ids generalizing s with
  | nil => rfl
  | cons id ids ih => rw [List.foldl_cons, ih]; rfl

end Session

end UnitLoader
