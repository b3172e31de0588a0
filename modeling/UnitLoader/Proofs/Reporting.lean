import UnitLoader.Proofs.Tracing
import UnitLoader.Proofs.Verdict

/-! What is reported when units fail. Every error that a phase gives a unit is the first that
the phase reported of it, and so is the error that the rest of the batch is aborted for. -/

namespace UnitLoader

variable {Tree Value Listener : Type}

/-- Whether this is an error of a phase in the unit at an address. -/
def Diagnostic.isOf (phase : Phase) (address : String) (d : Diagnostic) : Bool :=
  d.isError && d.phase = phase && d.address = some address

namespace LoadError

/-- The phase that failed a unit, and what it said. Neither an import that had failed before
nor an abort is the error of a phase. -/
def told? : LoadError → Option (Phase × String)
  | fetch _ reason => some (.fetch, reason)
  | parse _ message => some (.parse, message)
  | analysis _ message => some (.analyze, message)
  | transform _ message => some (.transform, message)
  | execution _ message => some (.evaluate, message)
  | dependency _ _ => none
  | aborted _ _ => none

/-- An error of a phase is the first of that phase and address in a list. -/
def FirstIn (ds : List Diagnostic) (e : LoadError) : Prop :=
  ∀ phase message, e.told? = some (phase, message) →
    ∃ d, ds.find? (·.isOf phase e.address) = some d ∧ d.message = message

variable {ds : List Diagnostic} {e : LoadError} {phase : Phase} {address message : String}

@[simp] theorem told?_ofPhase (phase : Phase) (address message : String) :
    (ofPhase phase address message).told? = some (phase, message) := by
  cases phase <;> rfl

theorem firstIn_of_told?_eq_none (h : e.told? = none) : e.FirstIn ds := by
  intro phase message he
  cases h.symm.trans he

theorem firstIn_ofPhase {d : Diagnostic} (h : ds.find? (·.isOf phase address) = some d) :
    (ofPhase phase address d.message).FirstIn ds := by
  intro phase' message' he
  obtain ⟨rfl, rfl⟩ := Prod.mk.inj (Option.some.inj ((told?_ofPhase ..).symm.trans he))
  exact ⟨d, by rwa [address_ofPhase], rfl⟩

/-- What is reported of one unit alone comes first if nothing of its phase was reported yet. -/
theorem firstIn_ofUnit (none : ∀ d ∈ ds, d.phase ≠ phase) :
    (ofPhase phase address message).FirstIn (ds ++ [.ofUnit phase address message]) := by
  have hbefore : ds.find? (·.isOf phase address) = Option.none :=
    List.find?_eq_none.mpr fun d hd => by simp [Diagnostic.isOf, none d hd]
  refine firstIn_ofPhase (d := .ofUnit phase address message) ?_
  rw [List.find?_append, hbefore]
  simp [Diagnostic.isOf, Diagnostic.ofUnit, Diagnostic.isError]

end LoadError

/-- Everything that is reported names its phase and its unit, and once the analysis of a batch
has found no error, transforming reports nothing. -/
structure Toolchain.Labels (tools : Toolchain Tree Value) : Prop extends tools.Locates where
  ofParse : ∀ file kind, ∀ d ∈ (tools.parse file kind).diagnostics,
    d.phase = .parse ∧ d.address = some file.name
  ofAnalysis : ∀ targets p, ∀ d ∈ (tools.analyze targets p).diagnostics, d.phase = .analyze
  lowers : ∀ targets p, (∀ d ∈ (tools.analyze targets p).diagnostics, d.isError = false) →
    ∀ target ∈ targets, (tools.transform target (tools.analyze targets p).value).diagnostics = []

/-! ### The plain language -/

namespace Linking

variable {targets : List (Target Program)} {p : Project} {d : Diagnostic}

theorem phase_of_mem_declared {r : Reported Project} (h : ∀ d ∈ r.diagnostics, d.phase = .analyze)
    (hd : d ∈ (targets.foldl declare r).diagnostics) : d.phase = .analyze := by
  have hentries (address : String) (entries : List (Nat × String)) {r : Reported Project}
      (h : ∀ d ∈ r.diagnostics, d.phase = .analyze) :
      ∀ d ∈ (entries.foldl (declareExport address) r).diagnostics, d.phase = .analyze := by
    induction entries generalizing r with
    | nil => exact h
    | cons entry rest ih =>
      refine ih fun d hd => ?_
      simp only [declareExport] at hd
      split at hd
      · rcases List.mem_append.mp hd with hd | hd
        · exact h d hd
        · rw [List.mem_singleton.mp hd]
          rfl
      · exact h d hd
  induction targets generalizing r with
  | nil => exact h d hd
  | cons target rest ih =>
    refine ih (fun d hd => ?_) hd
    simp only [declare] at hd
    split at hd
    · exact h d hd
    · exact hentries target.address _ (r := { r with value := r.value.addModule target.address })
        h d hd

theorem phase_of_mem_unboundIn {address : String} {line : Line}
    (hd : d ∈ unboundIn p address line) : d.phase = .analyze := by
  simp only [unboundIn] at hd
  split at hd
  · obtain ⟨name, -, hname⟩ := List.mem_filterMap.mp hd
    split at hname
    · cases hname
    · rw [← Option.some.inj hname]
      rfl
  · cases hd

theorem phase_of_mem_analyze (hd : d ∈ (analyze targets p).diagnostics) : d.phase = .analyze := by
  rcases List.mem_append.mp hd with hd | hd
  · exact phase_of_mem_declared (fun _ h => absurd h List.not_mem_nil) hd
  · obtain ⟨target, -, hd⟩ := List.mem_flatMap.mp hd
    obtain ⟨line, -, hd⟩ := List.mem_flatMap.mp hd
    exact phase_of_mem_unboundIn hd

/-- A batch without errors imports no name from an address that is not known. -/
theorem hasModule_of_clean (clean : ∀ d ∈ (analyze targets p).diagnostics, d.isError = false)
    {target : Target Program} (ht : target ∈ targets) {line : Line} (hl : line ∈ target.tree.lines)
    {names : List String} {specifier : String} (imports : line.stmt = .imports names specifier)
    (named : names ≠ []) :
    (analyze targets p).value.hasModule
      ((analyze targets p).value.resolve specifier target.address) = true := by
  have hnil : unboundIn (analyze targets p).value target.address line = [] := by
    refine List.eq_nil_iff_forall_not_mem.mpr fun d hd => ?_
    have hmem : d ∈ (analyze targets p).diagnostics := List.mem_append_right _
      (List.mem_flatMap.mpr ⟨target, ht, List.mem_flatMap.mpr ⟨line, hl, hd⟩⟩)
    have herror := isError_of_mem_analyze hmem
    rw [clean d hmem] at herror
    cases herror
  obtain ⟨name, hname⟩ := List.exists_mem_of_ne_nil _ named
  have hexported := unboundIn_eq_nil_iff.mp hnil names specifier imports name hname
  rw [Project.exportsOf] at hexported
  rw [Project.hasModule]
  split at hexported
  · next symbol hsymbol => rw [hsymbol, Option.isSome_some]
  · cases hexported

end Linking

theorem Lowering.diagnostics_transform {target : Target Program} {p : Project}
    (known : ∀ line ∈ target.tree.lines, ∀ names specifier,
      line.stmt = .imports names specifier → names ≠ [] →
        p.hasModule (p.resolve specifier target.address) = true) :
    (Lowering.transform target p).diagnostics = [] := by
  simp only [transform, List.flatMap_map, List.flatMap_eq_nil_iff]
  intro line hl
  simp only [lowerLine]
  split
  · rfl
  · next names specifier named imports =>
    rw [if_pos (known line hl names specifier imports named)]
  · rfl
  · rfl

theorem Lang.labels_toolchain [Text.Xid] : Lang.toolchain.Labels where
  toLocates := locates_toolchain
  ofParse := by
    intro file kind d hd
    obtain ⟨e, -, rfl⟩ := List.mem_map.mp hd
    exact ⟨rfl, rfl⟩
  ofAnalysis := fun _ _ _ hd => Linking.phase_of_mem_analyze hd
  lowers := fun _ _ clean _ ht => Lowering.diagnostics_transform fun _ hl _ _ imports named =>
    Linking.hasModule_of_clean clean ht hl imports named

/-! ### Units that fail -/

/-- A unit has an error when it failed, and only then. -/
def Cache.Marked (c : Cache Tree Value Listener) : Prop :=
  ∀ id x, c.standing? id = some x → x.error.isSome = x.failed

/-- Whatever fails between two caches fails with an error of a kind, under its own address. -/
def Cache.FailsWith (P : UnitId → LoadError → Prop) (c d : Cache Tree Value Listener) : Prop :=
  ∀ id y, d.standing? id = some y →
    c.standing? id = some y ∨ y.failed = false ∧ y.error = none ∨
      y.failed = true ∧ ∃ e, y.error = some e ∧ e.address = y.address ∧ P id e

namespace Cache

variable {P Q : UnitId → LoadError → Prop} {c d e : Cache Tree Value Listener}

theorem Marked.error_eq_none (h : c.Marked) {id : UnitId} {u : SourceUnit Tree Value Listener}
    (hu : c.get? id = some u) (unsettled : u.state.isSettled = false) : u.error = none := by
  have hfailed : u.error.isSome = decide (u.state = .error) := h id _ (standing?_eq hu)
  have hne : u.state ≠ .error := by
    intro he
    simp [he, State.isSettled] at unsettled
  simpa [hne] using hfailed

theorem failsWith_of_same (same : ∀ id, d.standing? id = c.standing? id) : c.FailsWith P d :=
  fun id _ hy => .inl ((same id).symm.trans hy)

theorem FailsWith.mono (h : c.FailsWith P d) (imp : ∀ id e, P id e → Q id e) : c.FailsWith Q d := by
  intro id y hy
  rcases h id y hy with hold | hnew | ⟨hfailed, e, he, haddress, hp⟩
  · exact .inl hold
  · exact .inr (.inl hnew)
  · exact .inr (.inr ⟨hfailed, e, he, haddress, imp id e hp⟩)

theorem FailsWith.trans (h : c.FailsWith P d) (h' : d.FailsWith P e) : c.FailsWith P e :=
  fun id _ hy => (h' id _ hy).elim (h id _) .inr

theorem FailsWith.marked (h : c.FailsWith P d) (marked : c.Marked) : d.Marked := by
  intro id y hy
  rcases h id y hy with hold | ⟨hfailed, herror⟩ | ⟨hfailed, e, he, -⟩
  · exact marked id y hold
  · rw [hfailed, herror]
    rfl
  · rw [hfailed, he]
    rfl

end Cache

namespace Session

variable {s : Session Tree Value Listener} {id : UnitId} {phase : Phase} {ds : List Diagnostic}

theorem failsWith_abortAll (marked : s.cache.Marked) (hn : s.pending.Nodup) (cause : LoadError) :
    s.cache.FailsWith (fun _ e => ∃ address, e = .aborted address cause.rootCause)
      (s.abortAll cause).cache := by
  intro j y hy
  rw [standing?_abortAll hn] at hy
  obtain ⟨u, hu, rfl⟩ := Option.map_eq_some_iff.mp hy
  cases hs : u.state.isSettled with
  | true => exact .inl (by rw [SourceUnit.fail_of_isSettled hs, Cache.standing?_eq hu])
  | false =>
    rw [SourceUnit.standing_fail hs (marked.error_eq_none hu hs)]
    exact .inr (.inr ⟨rfl, _, rfl, rfl, u.address, rfl⟩)

/-- One unit fails with an error, and the others are aborted for it. -/
theorem failsWith_culprit {f : SourceUnit Tree Value Listener → SourceUnit Tree Value Listener}
    {u : SourceUnit Tree Value Listener} {e : LoadError} (marked : s.cache.Marked)
    (hn : s.pending.Nodup) (hu : s.cache.get? id = some u) (unsettled : u.state.isSettled = false)
    (fails : ∀ cause, (f u).fail cause = u.fail e) (own : e.address = u.address) :
    s.cache.FailsWith (fun j e' => j = id ∧ e' = e ∨ ∃ address, e' = .aborted address e.rootCause)
      ((s.modifyUnit id f).abortAll e).cache := by
  intro j y hy
  have hn' : (s.modifyUnit id f).pending.Nodup := hn
  rw [standing?_abortAll hn'] at hy
  simp only [modifyUnit, onBuild, Build.modify, Cache.get?_modify] at hy
  by_cases hj : id = j
  · subst hj
    rw [if_pos rfl, hu, Option.map_some, Option.map_some, fails,
      SourceUnit.standing_fail unsettled (marked.error_eq_none hu unsettled)] at hy
    obtain rfl := Option.some.inj hy
    exact .inr (.inr ⟨rfl, e, rfl, own, .inl ⟨rfl, rfl⟩⟩)
  · rw [if_neg hj] at hy
    obtain ⟨v, hv, rfl⟩ := Option.map_eq_some_iff.mp hy
    cases hs : v.state.isSettled with
    | true => exact .inl (by rw [SourceUnit.fail_of_isSettled hs, Cache.standing?_eq hv])
    | false =>
      rw [SourceUnit.standing_fail hs (marked.error_eq_none hv hs)]
      exact .inr (.inr ⟨rfl, _, rfl, rfl, .inr ⟨v.address, rfl⟩⟩)

end Session

/-! ### Checks -/

/-- Every unit that is open fails with an error that goes by its address. -/
theorem Cache.failsWith_failing {c : Cache Tree Value Listener} (marked : c.Marked)
    {errorFor : String → LoadError} (own : ∀ address, (errorFor address).address = address) :
    c.FailsWith (fun _ e => ∃ address, e = errorFor address)
      (c.ids.foldl (fun c id => c.modify id fun u => u.fail (errorFor u.address)) c) := by
  intro j y hy
  obtain ⟨v, hv, rfl⟩ := Option.map_eq_some_iff.mp hy
  rw [get?_foldl_modify c.nodup_ids] at hv
  split at hv
  · obtain ⟨u, hu, rfl⟩ := Option.map_eq_some_iff.mp hv
    cases hs : u.state.isSettled with
    | true => exact .inl (by rw [SourceUnit.fail_of_isSettled hs, standing?_eq hu])
    | false =>
      rw [SourceUnit.standing_fail hs (marked.error_eq_none hu hs)]
      exact .inr (.inr ⟨rfl, _, rfl, own _, u.address, rfl⟩)
  · exact .inl (standing?_eq hv)

/-- A check gives each unit the first error of its own, or aborts it for the first of all. -/
theorem Build.firstIn_phaseError {phase : Phase} {ds others : List Diagnostic} {first : Diagnostic}
    (errors : ds.filter Diagnostic.isError = first :: others)
    (phases : ∀ d ∈ ds, d.phase = phase) (located : ∃ address, first.address = some address)
    (other : String) :
    (phaseError phase first (first :: others) other).address = other ∧
      (phaseError phase first (first :: others) other).FirstIn ds ∧
      (phaseError phase first (first :: others) other).rootCause.FirstIn ds := by
  have hfind (address : String) :
      ds.find? (·.isOf phase address) = (first :: others).find? (·.address = some address) := by
    rw [← errors, ← List.head?_filter, ← List.head?_filter, List.filter_filter]
    congr 1
    refine List.filter_congr fun d hd => ?_
    simp [Diagnostic.isOf, phases d hd, Bool.and_comm]
  obtain ⟨address, haddress⟩ := located
  simp only [phaseError]
  split
  · next own hown =>
    have hfirst : (LoadError.ofPhase phase other own.message).FirstIn ds :=
      LoadError.firstIn_ofPhase ((hfind other).trans hown)
    exact ⟨by simp, hfirst, by rwa [LoadError.rootCause_eq_self (by simp)]⟩
  · have hroot : (LoadError.ofPhase phase address first.message).FirstIn ds :=
      LoadError.firstIn_ofPhase (by rw [hfind]; simp [haddress])
    refine ⟨rfl, LoadError.firstIn_of_told?_eq_none rfl, ?_⟩
    rwa [LoadError.rootCause, haddress, Option.getD_some, LoadError.rootCause_eq_self (by simp)]

namespace Session

variable {s : Session Tree Value Listener} {id : UnitId} {phase : Phase} {ds : List Diagnostic}

theorem failsWith_check {mark : Mark} (marked : s.cache.Marked) (hn : s.pending.Nodup)
    (since : s.reporter.errorsSince mark = ds.filter Diagnostic.isError)
    (errors : ds.filter Diagnostic.isError ≠ []) (phases : ∀ d ∈ ds, d.phase = phase)
    (located : ∀ d ∈ ds, ∃ address, d.address = some address) :
    ∃ failed build, s.toBuild.check s.cache.ids phase mark = ⟨some failed, build⟩ ∧
      build.reporter = s.reporter ∧
      s.cache.FailsWith (fun _ e => e.FirstIn ds ∧ e.rootCause.FirstIn ds)
        ({ s with toBuild := build }.abortFailed failed).cache := by
  obtain ⟨first, others, he⟩ := List.exists_cons_of_ne_nil errors
  have hfirst : first ∈ ds := (List.mem_filter.mp (he ▸ List.mem_cons_self)).1
  have herror := Build.firstIn_phaseError he phases (located first hfirst)
  have hsome : s.toBuild.reporter.errorsSince mark ≠ [] := by
    rw [since, he]
    simp
  obtain ⟨failed, cache, hcheck, -, hunit⟩ := s.toBuild.check_of_errors phase hsome
  have hcache : cache = s.cache.ids.foldl (fun c id => c.modify id fun u =>
      u.fail (Build.phaseError phase first (first :: others) u.address)) s.cache := by
    rw [← Build.failUnits_cache _ _ ([], s.cache)]
    simp only [Build.check, since, he] at hcheck
    exact (congrArg (·.build.cache) hcheck).symm
  refine ⟨failed, _, hcheck, rfl, ?_⟩
  have hfails : s.cache.FailsWith (fun _ e => e.FirstIn ds ∧ e.rootCause.FirstIn ds) cache := by
    rw [hcache]
    refine (Cache.failsWith_failing marked fun address => (herror address).1).mono ?_
    rintro _ e ⟨address, rfl⟩
    exact (herror address).2
  refine hfails.trans (Cache.failsWith_of_same fun j => ?_)
  refine standing?_of_settled (s := { s with cache := cache }) (fun k v hv => ?_) hn failed j
  obtain ⟨u, hu⟩ : ∃ u, s.cache.get? k = some u := by
    refine Cache.get?_of_index_lt ?_
    have := Cache.index_lt_of_get? hv
    rwa [hcache, Cache.size_foldl_modify] at this
  obtain ⟨e, he⟩ := hunit k u hu
  rw [Option.some.inj (hv.symm.trans he)]
  exact SourceUnit.isSettled_fail u e

/-! ### What a move reports -/

/-- What a batch is aborted for when its namespace cannot be had. -/
def borrowed (s : Session Tree Value Listener) : LoadError :=
  .execution s.baseAddress "execution namespace is already borrowed"

/-- An error that a unit fails with is in a report, and so is what it goes back to, unless the
namespace could not be had. Units of some kind only fail by themselves. -/
structure Accounts (s : Session Tree Value Listener) (own : UnitId → Prop) (ds : List Diagnostic)
    (id : UnitId) (e : LoadError) : Prop where
  first : e.FirstIn ds
  own : e.isAborted = false → own id
  root : e.rootCause.FirstIn ds ∨ s.held = true ∧ e.rootCause = s.borrowed

/-- What is reported between two sessions accounts for all units that fail. -/
structure Reports (s t : Session Tree Value Listener) (own : UnitId → Prop)
    (ds : List Diagnostic) : Prop where
  reporter : t.reporter = s.reporter.reportAll ds
  fails : s.cache.FailsWith (s.Accounts own ds) t.cache

variable {t : Session Tree Value Listener} {own : UnitId → Prop}

@[simp] theorem reporter_abortAll (s : Session Tree Value Listener) (cause : LoadError) :
    (s.abortAll cause).reporter = s.reporter := by
  obtain ⟨fetcher, events, he, -⟩ := abortAll_eq s cause
  rw [he, notifyFailures_eq]

theorem reporter_abortFailed (s : Session Tree Value Listener) (failed : List UnitId) :
    (s.abortFailed failed).reporter = s.reporter := by
  simp only [abortFailed]
  split
  · exact reporter_abortAll s _
  · rw [notifyFailures_eq]

theorem reports_still (reporter : t.reporter = s.reporter)
    (same : ∀ id, t.cache.standing? id = s.cache.standing? id) :
    Reports s t (fun _ => False) [] where
  reporter := by simp [reporter, Reporter.reportAll]
  fails := Cache.failsWith_of_same same

theorem accounts_culprit {e e' : LoadError} {j : UnitId} (root : e.isAborted = false)
    (first : e.FirstIn ds) (h : j = id ∧ e' = e ∨ ∃ address, e' = .aborted address e.rootCause) :
    s.Accounts (· = id) ds j e' := by
  have hroot := LoadError.rootCause_eq_self root
  rcases h with ⟨rfl, rfl⟩ | ⟨address, rfl⟩
  · exact ⟨first, fun _ => rfl, .inl (by rwa [hroot])⟩
  · refine ⟨LoadError.firstIn_of_told?_eq_none rfl, fun h => ?_, .inl ?_⟩
    · cases h
    · rwa [hroot, LoadError.rootCause, hroot]

/-- One unit fails, and this is reported of it. -/
theorem reports_culprit {f : SourceUnit Tree Value Listener → SourceUnit Tree Value Listener}
    {u : SourceUnit Tree Value Listener} {e : LoadError} (marked : s.cache.Marked)
    (hn : t.pending.Nodup) (cache : t.cache = s.cache)
    (reporter : t.reporter = s.reporter.reportAll ds)
    (hu : s.cache.get? id = some u) (unsettled : u.state.isSettled = false)
    (fails : ∀ cause, (f u).fail cause = u.fail e) (own : e.address = u.address)
    (root : e.isAborted = false) (first : e.FirstIn ds) :
    Reports s ((t.modifyUnit id f).abortAll e) (· = id) ds where
  reporter := (reporter_abortAll _ _).trans reporter
  fails := by
    have hfails := failsWith_culprit (s := t) (cache ▸ marked) hn (cache ▸ hu) unsettled fails own
    rw [cache] at hfails
    exact hfails.mono fun _ _ he' => accounts_culprit root first he'

/-! ### The batch at the barrier -/

theorem standing?_lowered (s : Session Tree Value Listener) (id : UnitId) :
    s.loweredSession.cache.standing? id = s.cache.standing? id :=
  Cache.standing?_foldl_modify (fun u => u.standing_lowered _ _) _ _ id

theorem lowering_diagnostics (labels : s.tools.Labels)
    (clean : ∀ d ∈ s.analysis.diagnostics, d.isError = false) :
    (s.lowerings.flatMap fun t => (s.tools.transform t.2 s.analysis.value).diagnostics) = [] := by
  refine List.flatMap_eq_nil_iff.mpr fun t ht => ?_
  obtain ⟨id, hid, ht⟩ := List.mem_filterMap.mp ht
  obtain ⟨target, hsource, rfl⟩ := Option.map_eq_some_iff.mp ht
  obtain ⟨u, hu, hp⟩ := Cache.isIn_iff.mp (Build.isIn_parsed_of_mem_transformOrder hid)
  obtain ⟨v, tree, hv, htree, rfl⟩ := Build.source?_eq_some.mp hsource
  obtain rfl := Option.some.inj (hu.symm.trans hv)
  refine labels.lowers _ _ clean _ (List.mem_map.mpr ⟨(id, _), ?_, rfl⟩)
  exact Build.mem_targets.mpr ⟨u, tree, hu, hp, htree, rfl⟩

theorem Ready.reports_of_analysis_errors (ready : s.Ready) (reached : s.barrierReached = true)
    (marked : s.cache.Marked) (labels : s.tools.Labels)
    (errors : s.analysis.diagnostics.filter Diagnostic.isError ≠ []) :
    Reports s s.checkBarrier (fun _ => True) s.analysis.diagnostics := by
  have hphases (d : Diagnostic) (hd : d ∈ s.analysis.diagnostics) : d.phase = .analyze :=
    labels.ofAnalysis _ _ d hd
  obtain ⟨failed, build, hcheck, hreporter, hfails⟩ := failsWith_check (s := s.analysedSession)
    marked (by simp [analysedSession, ready.pending]) analysis_errors errors hphases
    fun d hd => by
      obtain ⟨target, -, ha⟩ := labels.analyze _ _ d hd
      exact ⟨_, ha⟩
  have hbarrier : s.checkBarrier =
      ({ s.analysedSession with toBuild := build } : Session _ _ _).abortFailed failed := by
    simp only [checkBarrier]
    rw [if_pos reached]
    simp only [ready.analyze_eq]
    rw [show s.cache.ids = s.analysedSession.cache.ids from rfl, hcheck]
    rfl
  rw [hbarrier]
  exact
    { reporter := (reporter_abortFailed _ _).trans hreporter
      fails := hfails.mono fun _ _ he => ⟨he.1, fun _ => trivial, .inl he.2⟩ }

theorem reporter_lowered (labels : s.tools.Labels)
    (clean : ∀ d ∈ s.analysis.diagnostics, d.isError = false) :
    s.loweredSession.reporter = s.reporter.reportAll s.analysis.diagnostics := by
  simp [loweredSession, analysedSession, lowering_diagnostics labels clean, Reporter.reportAll]

theorem Ready.reports_of_held (ready : s.Ready) (marked : s.cache.Marked)
    (labels : s.tools.Labels) (clean : ∀ d ∈ s.analysis.diagnostics, d.isError = false)
    (held : s.held = true) :
    Reports s s.loweredSession.evaluate (fun _ => True) s.analysis.diagnostics := by
  have hn : s.loweredSession.pending.Nodup := by
    rw [show s.loweredSession.pending = s.pending from rfl, ready.pending]
    exact List.nodup_nil
  have hlowered (P : UnitId → LoadError → Prop) : s.cache.FailsWith P s.loweredSession.cache :=
    Cache.failsWith_of_same s.standing?_lowered
  simp only [evaluate]
  rw [if_pos (show s.loweredSession.held = true from held)]
  refine
    { reporter := (reporter_abortAll _ _).trans (reporter_lowered labels clean)
      fails := (hlowered _).trans ?_ }
  refine (failsWith_abortAll ((hlowered fun _ _ => True).marked marked) hn _).mono ?_
  rintro j e ⟨address, rfl⟩
  exact ⟨LoadError.firstIn_of_told?_eq_none rfl, fun _ => trivial, .inr ⟨held, rfl⟩⟩

theorem Ready.reports_of_passes (ready : s.Ready) (reached : s.barrierReached = true)
    (labels : s.tools.Labels) (passes : s.Passes) :
    Reports s s.checkBarrier (fun _ => True) s.analysis.diagnostics where
  reporter := by
    rw [ready.checkBarrier_of_passes reached passes]
    simp only
    rw [notifySuccess_foldl ready.nodup_results, completeUnit_foldl]
    exact reporter_lowered labels passes.analysis
  fails := Cache.failsWith_of_same
    (ready.standing?_completes (ready.completes reached passes) passes)

theorem Ready.reports_of_failed (ready : s.Ready) (marked : s.cache.Marked)
    (labels : s.tools.Labels) (clean : ∀ d ∈ s.analysis.diagnostics, d.isError = false)
    (free : s.held = false) {message : String} (failed : s.batchRun.failed = some (id, message)) :
    Reports s s.loweredSession.evaluate (fun _ => True)
      (s.analysis.diagnostics ++ [.ofUnit .evaluate (s.cache.addressOf id) message]) := by
  obtain ⟨u, hu, hp⟩ := Cache.isIn_iff.mp (ready.mem_codes.mp (Toolchain.mem_of_failed failed))
  obtain ⟨m, hm⟩ : ∃ m, m = s.loweredSession.afterRun s.batchRun := ⟨_, rfl⟩
  obtain ⟨w, hw, hs, ha⟩ : ∃ w, m.cache.get? id = some w ∧ w.state.isSettled = false ∧
      w.address = u.address := by
    rcases ready.get?_afterRun hu with ⟨hs, -, -⟩ | ⟨v, tree, -, rfl, -, hw⟩
    · simp [isSettled_of_parsed hp] at hs
    · refine ⟨_, hm ▸ hw, ?_⟩
      cases s.batchRun.results.lookup id <;> exact ⟨rfl, rfl⟩
  have hsame (j : UnitId) : m.cache.standing? j = s.cache.standing? j := by
    rw [hm, standing?_afterRun, standing?_lowered]
  have haddress : m.cache.addressOf id = s.cache.addressOf id := by
    rw [Cache.addressOf_eq hw, Cache.addressOf_eq hu, ha]
  have hmarked : m.cache.Marked :=
    (Cache.failsWith_of_same (P := fun _ _ => True) hsame).marked marked
  have hn : m.pending.Nodup := by
    rw [hm, show (s.loweredSession.afterRun s.batchRun).pending = s.pending from rfl, ready.pending]
    exact List.nodup_nil
  have hreporter : m.reporter = s.reporter.reportAll s.analysis.diagnostics :=
    hm ▸ reporter_lowered labels clean
  have hphases (d : Diagnostic) (hd : d ∈ s.analysis.diagnostics) : d.phase = .analyze :=
    labels.ofAnalysis _ _ d hd
  have hfirst : (LoadError.execution (s.cache.addressOf id) message).FirstIn
      (s.analysis.diagnostics ++ [.ofUnit .evaluate (s.cache.addressOf id) message]) :=
    LoadError.firstIn_ofUnit fun d hd => by simp [hphases d hd]
  rw [ready.evaluate_eq free, failed]
  simp only [← hm, haddress]
  refine
    { reporter := (reporter_abortAll _ _).trans ?_
      fails := (Cache.failsWith_of_same hsame).trans ?_ }
  · show m.reporter.report _ = _
    simp [hreporter, Reporter.report, Reporter.reportAll]
  · refine (failsWith_culprit
      (s := m.onBuild (·.report (.ofUnit .evaluate (s.cache.addressOf id) message)))
      hmarked hn hw hs (fun cause => SourceUnit.fail_fail _ cause) ?_).mono fun _ e he =>
        { accounts_culprit rfl hfirst he with own := fun _ => trivial }
    exact haddress ▸ Cache.addressOf_eq hw

/-- The batch at the barrier, whichever stage it ends in: what its analysis reported comes
first, and there may be an error of execution after that. -/
theorem Ready.reports (ready : s.Ready) (reached : s.barrierReached = true)
    (marked : s.cache.Marked) (labels : s.tools.Labels) :
    ∃ more, (∀ d ∈ more, d.phase = .evaluate) ∧
      Reports s s.checkBarrier (fun _ => True) (s.analysis.diagnostics ++ more) := by
  by_cases ha : s.analysis.diagnostics.filter Diagnostic.isError = []
  swap
  · refine ⟨[], fun _ hd => absurd hd List.not_mem_nil, ?_⟩
    rw [List.append_nil]
    exact ready.reports_of_analysis_errors reached marked labels ha
  have hclean (d : Diagnostic) (hd : d ∈ s.analysis.diagnostics) : d.isError = false := by
    simpa using List.filter_eq_nil_iff.mp ha d hd
  have hnone := lowering_diagnostics labels hclean
  have hbarrier : s.checkBarrier = s.loweredSession.evaluate :=
    checkBarrier_of_lowered ready reached ha (by rw [hnone, List.filter_nil])
  cases hh : s.held with
  | true =>
    refine ⟨[], fun _ hd => absurd hd List.not_mem_nil, ?_⟩
    rw [List.append_nil, hbarrier]
    exact ready.reports_of_held marked labels hclean hh
  | false =>
    cases hf : s.batchRun.failed with
    | none =>
      refine ⟨[], fun _ hd => absurd hd List.not_mem_nil, ?_⟩
      rw [List.append_nil]
      refine ready.reports_of_passes reached labels ⟨hclean, fun t ht d hd => ?_, hh, hf⟩
      rw [List.flatMap_eq_nil_iff.mp hnone t ht] at hd
      cases hd
    | some failure =>
      obtain ⟨id, message⟩ := failure
      refine ⟨[.ofUnit .evaluate (s.cache.addressOf id) message], fun d hd => ?_, ?_⟩
      · rw [List.mem_singleton.mp hd]
        rfl
      · rw [hbarrier]
        exact ready.reports_of_failed marked labels hclean hh hf

/-! ### Reading -/

def parseReport (s : Session Tree Value Listener) (u : SourceUnit Tree Value Listener) :
    List Diagnostic :=
  (s.tools.parse ⟨u.address, u.text.getD ""⟩ u.kind).diagnostics

theorem reporter_parse {u : SourceUnit Tree Value Listener} (hu : s.cache.get? id = some u) :
    (s.toBuild.parse s.tools id).build.reporter = s.reporter.reportAll (s.parseReport u) := by
  simp only [Build.parse, hu]
  split <;> rfl

theorem reporter_understood {u : SourceUnit Tree Value Listener} (hu : s.cache.get? id = some u) :
    (s.understood id).reporter = s.reporter.reportAll (s.parseReport u) := by
  have hdiscover (b : Build Tree Value Listener) :
      (({ s with toBuild := b } : Session Tree Value Listener).discover id).reporter =
        b.reporter := by
    simp only [discover]
    have hspec := importUnits_spec (({ s with toBuild := b } : Session _ _ _).referrer id)
      ((b.specifiers s.tools id).mergeSort (· ≤ ·)) [] b .nil
    have hreporter := congrArg Build.reporter hspec.1
    exact hreporter
  have hregister (b : Build Tree Value Listener) : (b.register id).reporter = b.reporter := by
    simp only [Build.register]
    split <;> rfl
  rw [understood]
  exact ((hdiscover _).trans (hregister _)).trans (reporter_parse hu)

theorem reports_misread {u : SourceUnit Tree Value Listener} (marked : s.cache.Marked)
    (hn : s.pending.Nodup) (labels : s.tools.Labels) (hu : s.cache.get? id = some u)
    (unsettled : u.state.isSettled = false) (bad : s.isSound u = false) :
    Reports s (s.misread id) (· = id) (s.parseReport u) := by
  obtain ⟨reporter, project, hb⟩ := parse_of_not_sound hu bad
  have hcache : (s.toBuild.parse s.tools id).build.cache = s.cache := by rw [hb]
  have hreporter := reporter_parse hu
  have hof (d : Diagnostic) (hd : d ∈ s.parseReport u) :
      d.phase = .parse ∧ d.address = some u.address := labels.ofParse _ _ d hd
  have haddress : s.cache.addressOf id = u.address := Cache.addressOf_eq hu
  have hfind : (s.parseReport u).find? (·.isOf .parse u.address) =
      ((s.parseReport u).filter Diagnostic.isError).head? := by
    rw [← List.head?_filter]
    congr 1
    refine List.filter_congr fun d hd => ?_
    simp [Diagnostic.isOf, hof d hd]
  obtain ⟨d, others, hd⟩ : ∃ d others, (s.parseReport u).filter Diagnostic.isError = d :: others := by
    refine List.exists_cons_of_ne_nil fun hnil => ?_
    have hany : (s.parseReport u).any Diagnostic.isError = true := by
      simpa [isSound, parseReport] using bad
    obtain ⟨d, hd, he⟩ := List.any_eq_true.mp hany
    exact absurd (List.mem_filter.mpr ⟨hd, he⟩) (by simp [hnil])
  have hmessage : ((s.toBuild.parse s.tools id).build.reporter.messageSince s.reporter.mark) =
      d.message := by
    rw [Reporter.messageSince, hreporter, Reporter.errorsSince_reportAll, hd]
  refine reports_culprit (t := { s with toBuild := (s.toBuild.parse s.tools id).build }) marked hn
    hcache hreporter hu unsettled
    (fun _ => SourceUnit.fail_recordError unsettled) haddress rfl ?_
  simp only [hmessage, haddress]
  exact LoadError.firstIn_ofPhase (by rw [hfind, hd, List.head?_cons])

end Session

open Session

/-- What moves report, and the units that they may fail but for aborting them. -/
inductive Report : Moment Tree Value Listener → Moment Tree Value Listener →
    (UnitId → Prop) → List Diagnostic → Prop
  | nothing {m n : Moment Tree Value Listener} : Report m n (fun _ => False) []
  | refused {s t : Session Tree Value Listener} {id : UnitId} {ahead : List UnitId}
      {e : FetchError} : Report ⟨s, ahead, .answer id (.error e)⟩ ⟨t, ahead, .nothing⟩ (· = id)
        [.ofUnit .fetch (s.cache.addressOf id) e.text]
  | read {s : Session Tree Value Listener} {id : UnitId} {ahead : List UnitId}
      {u : SourceUnit Tree Value Listener} {n : Moment Tree Value Listener}
      (unit : s.cache.get? id = some u) :
      Report ⟨s, ahead, .text id⟩ n (· = id) (s.parseReport u)
  | passed {s : Session Tree Value Listener} {ahead : List UnitId} {more : List Diagnostic}
      (reached : s.barrierReached = true) (later : ∀ d ∈ more, d.phase = .evaluate) :
      Report ⟨s, ahead, .nothing⟩ ⟨s.checkBarrier, ahead, .nothing⟩ (fun _ => True)
        (s.analysis.diagnostics ++ more)

variable {m n : Moment Tree Value Listener}

theorem Report.phases {own : UnitId → Prop} {ds : List Diagnostic} (h : Report m n own ds)
    (labels : m.session.tools.Labels) {d : Diagnostic} (hd : d ∈ ds) : d.phase ≠ .transform := by
  cases h with
  | nothing => cases hd
  | refused => simp [List.mem_singleton.mp hd, Diagnostic.ofUnit]
  | read => simp [(labels.ofParse _ _ d hd).1]
  | passed reached later =>
    rcases List.mem_append.mp hd with hd | hd
    · simp [labels.ofAnalysis _ _ d hd]
    · simp [later d hd]

/-- What a move reports accounts for all units which the move fails. -/
theorem Move.reports (hmove : Move m n) (sound : m.Sound) (labels : m.session.tools.Labels)
    (marked : m.session.cache.Marked) :
    ∃ own ds, Report m n own ds ∧ Reports m.session n.session own ds := by
  cases hmove with
  | skip => exact ⟨_, [], .nothing, reports_still rfl fun _ => rfl⟩
  | @ask s id ahead =>
    have hreporter : ((s.started id).request id).reporter = s.reporter := by
      simp only [request]
      split <;> rfl
    refine ⟨_, [], .nothing, reports_still hreporter fun j => ?_⟩
    dsimp only
    rw [cache_request_started]
    exact Cache.standing?_modify (f := fun u => { u.advance .loading with cancellable := true })
      (fun u _ => u.standing_advance (by simp : State.loading ≠ .error)) j
  | fetch | giveUp =>
    exact ⟨_, [], .nothing, reports_still rfl <|
      Cache.standing?_modify fun u _ => u.standing_advance (by simp)⟩
  | receive =>
    exact ⟨_, [], .nothing, reports_still rfl <|
      Cache.standing?_modify (f := SourceUnit.uncancelled) fun u _ => rfl⟩
  | @take s id ahead text =>
    exact ⟨_, [], .nothing, reports_still rfl <| Cache.standing?_modify fun u _ =>
      SourceUnit.standing_advance { u with text := some (s.translate text) } (by simp)⟩
  | @refuse s id ahead e =>
    obtain ⟨u, hu⟩ := Cache.get?_of_index_lt (sound.hand id rfl)
    have hfirst : (LoadError.fetch (s.cache.addressOf id) e.text).FirstIn
        ([] ++ [.ofUnit .fetch (s.cache.addressOf id) e.text]) :=
      LoadError.firstIn_ofUnit fun _ h => absurd h List.not_mem_nil
    refine ⟨_, _, .refused, ?_⟩
    exact reports_culprit (t := s.onBuild (·.report (.ofUnit .fetch (s.cache.addressOf id) e.text)))
      marked sound.nodup rfl rfl hu (sound.isSettled_hand hu rfl)
      (fun cause => SourceUnit.fail_fail _ cause) (Cache.addressOf_eq hu) rfl
      hfirst
  | @misread s id ahead u unit bad =>
    exact ⟨_, _, .read unit,
      reports_misread marked sound.nodup labels unit (sound.isSettled_hand unit rfl) bad⟩
  | @read s id ahead u unit good =>
    obtain ⟨imports, hreads⟩ := sound.reads unit good
    refine ⟨_, _, .read unit, reporter_understood unit, fun j y hy => ?_⟩
    exact (hreads.standing?_back unit (sound.isSettled_hand unit rfl) hy).imp_right .inl
  | @reject s id failed ahead u unit good =>
    obtain ⟨imports, hreads⟩ := sound.reads unit good
    have hsound := sound.read unit hreads
    have haddress : s.cache.addressOf id = u.address := Cache.addressOf_eq unit
    have hread : s.cache.FailsWith (s.Accounts (· = id) (s.parseReport u))
        (s.understood id).cache :=
      fun j y hy => (hreads.standing?_back unit (sound.isSettled_hand unit rfl) hy).imp_right .inl
    refine ⟨_, _, .read unit, (reporter_abortAll _ _).trans (reporter_understood unit),
      hread.trans ?_⟩
    exact (failsWith_culprit
      (e := .dependency (s.cache.addressOf id) ((s.understood id).cache.addressOf failed))
      (hread.marked marked) hsound.nodup hreads.unit rfl
      (fun cause => SourceUnit.fail_fail _ cause) haddress).mono fun _ e he =>
        accounts_culprit rfl (LoadError.firstIn_of_told?_eq_none rfl) he
  | pass reached =>
    obtain ⟨more, hmore, hreports⟩ := (sound.ready reached).reports reached marked labels
    exact ⟨_, _, .passed reached hmore, hreports⟩

end UnitLoader
