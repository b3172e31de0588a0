import UnitLoader.Proofs.Likeness

/-! The stages behind parsing, gone through with two builds that are alike. As long as none of
them reports an error the builds stay alike, whatever else the stages give for their units. -/

namespace UnitLoader

variable {Tree Value Listener : Type}

/-! ### Records -/

/-- No stage behind parsing has reported an error. -/
def Reporter.Untroubled (r : Reporter) : Prop :=
  ∀ d ∈ r.diagnostics, d.isError = true → d.phase = .fetch ∨ d.phase = .parse

/-- A reporter with what was reported since. -/
def Reporter.Grows (r q : Reporter) : Prop :=
  ∃ ds, q = r.reportAll ds

/-- A reporter with what one phase has reported since. -/
def Reporter.GrowsIn (phase : Phase) (r q : Reporter) : Prop :=
  ∃ ds, q = r.reportAll ds ∧ ∀ d ∈ ds, d.phase = phase

namespace Reporter

variable {r q p : Reporter} {phase : Phase}

theorem Grows.refl (r : Reporter) : r.Grows r :=
  ⟨[], by simp [reportAll]⟩

theorem Grows.trans (h : r.Grows q) (h' : q.Grows p) : r.Grows p := by
  obtain ⟨ds, rfl⟩ := h
  obtain ⟨ds', rfl⟩ := h'
  exact ⟨ds ++ ds', by simp [reportAll]⟩

theorem Grows.untroubled (h : r.Grows q) (untroubled : q.Untroubled) : r.Untroubled := by
  obtain ⟨ds, rfl⟩ := h
  exact fun d hd => untroubled d (List.mem_append_left _ hd)

theorem GrowsIn.refl (phase : Phase) (r : Reporter) : r.GrowsIn phase r :=
  ⟨[], by simp [reportAll], fun d hd => absurd hd List.not_mem_nil⟩

theorem GrowsIn.trans (h : r.GrowsIn phase q) (h' : q.GrowsIn phase p) : r.GrowsIn phase p := by
  obtain ⟨ds, rfl, hds⟩ := h
  obtain ⟨ds', rfl, hds'⟩ := h'
  refine ⟨ds ++ ds', by simp [reportAll], fun d hd => ?_⟩
  exact (List.mem_append.mp hd).elim (hds d) (hds' d)

theorem grows_report (r : Reporter) (d : Diagnostic) : r.Grows (r.report d) :=
  ⟨[d], rfl⟩

end Reporter

/-! ### Stages -/

namespace Build

variable {tools : Toolchain Tree Value} {L : Listener → Listener → Prop}
  {b b' : Build Tree Value Listener}

/-- A check that fails leaves an error of its phase on record. -/
theorem check_of_untroubled {phase : Phase} {r : Reporter} (ids : List UnitId)
    (grows : r.GrowsIn phase b.reporter) (late : phase ≠ .fetch ∧ phase ≠ .parse)
    (untroubled : b.reporter.Untroubled) : b.check ids phase r.mark = ⟨none, b⟩ := by
  obtain ⟨ds, reporter, phases⟩ := grows
  refine check_of_no_errors ?_
  rw [reporter, Reporter.errorsSince_reportAll, List.filter_eq_nil_iff]
  intro d hd error
  have hphase := phases d hd
  rw [reporter] at untroubled
  rcases untroubled d (List.mem_append_right _ hd) error with h | h
  · exact late.1 (hphase.symm.trans h)
  · exact late.2 (hphase.symm.trans h)

theorem grows_parse (tools : Toolchain Tree Value) (b : Build Tree Value Listener) (id : UnitId) :
    b.reporter.Grows (b.parse tools id).build.reporter := by
  simp only [Build.parse]
  split
  · exact .refl _
  · split <;> exact ⟨_, rfl⟩

/-- A build once a batch was analysed, before this is checked. -/
def analysing (tools : Toolchain Tree Value) (batch : List (UnitId × Target Tree))
    (b : Build Tree Value Listener) : Build Tree Value Listener :=
  { b with
    project := (tools.analyze (batch.map (·.2)) b.project).value
    reporter := b.reporter.reportAll (tools.analyze (batch.map (·.2)) b.project).diagnostics
    history := b.history ++ [.analyzed (batch.map (·.1)) (batch.map (·.2.address))] }

/-- The build that the check of an analysis sees. A batch of no units is not analysed. -/
def analysed (tools : Toolchain Tree Value) (b : Build Tree Value Listener) (ids : List UnitId) :
    Build Tree Value Listener :=
  match ids.filterMap (target? b.cache) with
  | [] => b
  | target :: rest => b.analysing tools (target :: rest)

theorem analyze_eq (tools : Toolchain Tree Value) (b : Build Tree Value Listener)
    (ids : List UnitId) :
    b.analyze tools ids = (b.analysed tools ids).check ids .analyze b.reporter.mark := by
  simp only [analyze, analysed]
  cases ids.filterMap (target? b.cache) <;> rfl

theorem growsIn_analysed (staged : tools.Staged) (b : Build Tree Value Listener)
    (ids : List UnitId) : b.reporter.GrowsIn .analyze (b.analysed tools ids).reporter := by
  simp only [analysed]
  cases ids.filterMap (target? b.cache) with
  | nil => exact .refl _ _
  | cons target rest => exact ⟨_, rfl, staged.ofAnalysis _ _⟩

theorem grows_analyze (tools : Toolchain Tree Value) (b : Build Tree Value Listener)
    (ids : List UnitId) : b.reporter.Grows (b.analyze tools ids).build.reporter := by
  rw [analyze_eq, reporter_check, analysed]
  split
  · exact .refl _
  · exact ⟨_, rfl⟩

/-- The targets of analysis, as far as the history shows them. -/
theorem Alike.targets (h : Alike tools L b b') (ids : List UnitId) :
    List.Forall₂ (fun t t' : UnitId × Target Tree => t.1 = t'.1 ∧ t.2.address = t'.2.address)
      (ids.filterMap (target? b.cache)) (ids.filterMap (target? b'.cache)) := by
  have hids : List.Forall₂ (· = ·) ids ids := List.forall₂_refl ids
  refine List.rel_filterMap ?_ hids
  rintro id _ rfl
  simp only [target?]
  rcases h.cache.cases id with ⟨hc, hd⟩ | ⟨u, v, hc, hd, hu⟩
  · simp only [hc, hd]
    exact .none
  · simp only [hc, hd, hu.state]
    split
    · have htree := hu.tree
      generalize u.tree = x, v.tree = y at htree
      cases htree with
      | none => exact .none
      | some => exact .some ⟨rfl, hu.address⟩
    · exact .none

theorem Alike.analysing (staged : tools.Staged) (h : Alike tools L b b')
    {batch batch' : List (UnitId × Target Tree)} (ids : batch.map (·.1) = batch'.map (·.1))
    (addresses : batch.map (·.2.address) = batch'.map (·.2.address)) :
    Alike tools L (b.analysing tools batch) (b'.analysing tools batch') where
  cache := h.cache
  resolver := (staged.resolver _ _).trans (h.resolver.trans (staged.resolver _ _).symm)
  history := by
    simp only [Build.analysing]
    rw [ids, addresses, List.map_append, List.map_append, h.history]

theorem Alike.analysed (staged : tools.Staged) (h : Alike tools L b b') (ids : List UnitId) :
    Alike tools L (b.analysed tools ids) (b'.analysed tools ids) := by
  have htargets := h.targets ids
  have hids := map_eq_of_forall₂ htargets fun _ _ ht => ht.1
  have haddresses := map_eq_of_forall₂ htargets fun _ _ ht => ht.2
  simp only [Build.analysed]
  generalize ids.filterMap (target? b.cache) = x, ids.filterMap (target? b'.cache) = y
    at htargets hids haddresses
  cases htargets with
  | nil => exact h
  | cons => exact h.analysing staged hids haddresses

theorem Alike.analyze (staged : tools.Staged) (h : Alike tools L b b') (ids : List UnitId)
    (ht : (b.analyze tools ids).build.reporter.Untroubled)
    (ht' : (b'.analyze tools ids).build.reporter.Untroubled) :
    (b.analyze tools ids).failed = none ∧ (b'.analyze tools ids).failed = none ∧
      Alike tools L (b.analyze tools ids).build (b'.analyze tools ids).build := by
  have hpasses (b : Build Tree Value Listener)
      (ht : (b.analyze tools ids).build.reporter.Untroubled) :
      b.analyze tools ids = ⟨none, b.analysed tools ids⟩ := by
    rw [analyze_eq, reporter_check] at ht
    rw [analyze_eq]
    exact check_of_untroubled ids (growsIn_analysed staged b ids) (by simp) ht
  rw [hpasses b ht, hpasses b' ht']
  exact ⟨rfl, rfl, h.analysed staged ids⟩

/-! Transforming -/

theorem growsIn_transformUnit (staged : tools.Staged) (b : Build Tree Value Listener)
    (id : UnitId) : b.reporter.GrowsIn .transform (b.transformUnit tools id).reporter := by
  simp only [transformUnit]
  split
  · exact .refl _ _
  · split
    · exact .refl _ _
    · exact ⟨_, rfl, staged.ofTransform _ _⟩

theorem growsIn_transformUnits (staged : tools.Staged) (order : List UnitId)
    (b : Build Tree Value Listener) :
    b.reporter.GrowsIn .transform (order.foldl (transformUnit tools) b).reporter := by
  induction order generalizing b with
  | nil => exact .refl _ _
  | cons id order ih => exact (growsIn_transformUnit staged b id).trans (ih _)

theorem Alike.transformUnit (h : Alike tools L b b') (id : UnitId) :
    Alike tools L (b.transformUnit tools id) (b'.transformUnit tools id) := by
  simp only [Build.transformUnit]
  rcases h.cache.cases id with ⟨hc, hd⟩ | ⟨u, v, hc, hd, hu⟩
  · simpa only [hc, hd] using h
  · simp only [hc, hd]
    have htree := hu.tree
    generalize u.tree = x, v.tree = y at htree
    cases htree with
    | none => exact h
    | some =>
      rw [hu.address, hu.kind]
      refine { h with cache := h.cache.modify id fun _ _ hw => ?_, history := ?_ }
      · exact (hw.withTransformed _ _).advance .transformed
      · rw [List.map_append, List.map_append, h.history]

theorem Alike.transformUnits (h : Alike tools L b b') (order : List UnitId) :
    Alike tools L (order.foldl (Build.transformUnit tools) b)
      (order.foldl (Build.transformUnit tools) b') := by
  induction order generalizing b b' with
  | nil => exact h
  | cons id order ih => exact ih (h.transformUnit id)

theorem grows_transform (tools : Toolchain Tree Value) (b : Build Tree Value Listener)
    (ids : List UnitId) : b.reporter.Grows (b.transform tools ids).build.reporter := by
  have hunit (b : Build Tree Value Listener) (id : UnitId) :
      b.reporter.Grows (b.transformUnit tools id).reporter := by
    simp only [transformUnit]
    split
    · exact .refl _
    · split
      · exact .refl _
      · exact ⟨_, rfl⟩
  rw [transform, reporter_check]
  generalize transformOrder b.cache ids = order
  induction order generalizing b with
  | nil => exact .refl _
  | cons id order ih => exact (hunit b id).trans (ih _)

theorem Alike.transform (staged : tools.Staged) (h : Alike tools L b b') (ids : List UnitId)
    (ht : (b.transform tools ids).build.reporter.Untroubled)
    (ht' : (b'.transform tools ids).build.reporter.Untroubled) :
    (b.transform tools ids).failed = none ∧ (b'.transform tools ids).failed = none ∧
      Alike tools L (b.transform tools ids).build (b'.transform tools ids).build := by
  have hpasses (b : Build Tree Value Listener)
      (ht : (b.transform tools ids).build.reporter.Untroubled) : b.transform tools ids =
        ⟨none, (transformOrder b.cache ids).foldl (Build.transformUnit tools) b⟩ := by
    rw [Build.transform, reporter_check] at ht
    exact check_of_untroubled ids (growsIn_transformUnits staged _ b) (by simp) ht
  rw [hpasses b ht, hpasses b' ht', h.cache.transformOrder ids]
  exact ⟨rfl, rfl, h.transformUnits _⟩

/-! Executing -/

theorem reporter_execute (tools : Toolchain Tree Value) (b : Build Tree Value Listener)
    (id : UnitId) (ns : Namespace Value) : (b.execute tools id ns).build.reporter = b.reporter := by
  rw [execute]
  split <;> rfl

theorem Alike.execute (h : Alike tools L b b') {id : UnitId} {ns ns' : Namespace Value}
    {value value' : Value} (ok : (b.execute tools id ns).result = .ok value)
    (ok' : (b'.execute tools id ns').result = .ok value') :
    Alike tools L (b.execute tools id ns).build (b'.execute tools id ns').build := by
  have hruns {b : Build Tree Value Listener} {ns : Namespace Value} {value : Value}
      (ok : (b.execute tools id ns).result = .ok value) :
      ∃ code result, (b.execute tools id ns).build = b.record (.executed id code result) := by
    rw [Build.execute] at ok ⊢
    cases hw : b.write tools id with
    | none => simp [hw] at ok
    | some code => exact ⟨_, _, rfl⟩
  obtain ⟨code, result, hb⟩ := hruns ok
  obtain ⟨code', result', hb'⟩ := hruns ok'
  rw [hb, hb']
  exact h.record rfl

end Build

end UnitLoader
