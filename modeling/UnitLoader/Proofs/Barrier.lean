import UnitLoader.Proofs.Abort
import UnitLoader.Proofs.Running

/-! What happens when the barrier is reached. Either every stage goes through, and each
parsed unit is complete with its value, or one does not, and the whole batch falls. -/

namespace UnitLoader

variable {Tree Value Listener : Type}

namespace Cache

theorem walk_congr {c d : Cache Tree Value Listener} (size : d.size = c.size)
    (dependencies : ∀ id, d.dependencyIds id = c.dependencyIds id) (seen : List UnitId)
    (stack : List Frame) (order : List UnitId) :
    d.walk seen stack order = c.walk seen stack order := by
  fun_induction walk c seen stack order with
  | case1 seen order => simp [walk]
  | case2 seen order id below ih => rw [walk, ih]
  | case3 seen order id next rest below hn ih =>
    rw [walk, dif_pos (by rwa [size]), dependencies]
    exact ih
  | case4 seen order id next rest below hn ih =>
    rw [walk, dif_neg (by rwa [size])]
    exact ih

theorem evaluationOrder_congr {c d : Cache Tree Value Listener} (size : d.size = c.size)
    (dependencies : ∀ id, d.dependencyIds id = c.dependencyIds id) :
    d.evaluationOrder = c.evaluationOrder := by
  have hfrom : d.walkFrom = c.walkFrom := by
    funext w root
    simp only [walkFrom, walk_congr size dependencies, dependencies]
  rw [evaluationOrder, evaluationOrder, hfrom, ids_eq_of_size_eq size]

end Cache

def SourceUnit.completed (value : Value) (u : SourceUnit Tree Value Listener) :
    SourceUnit Tree Value Listener :=
  { u with
    state := .complete
    text := none
    transformed := none
    result := some value
    listeners := [] }

namespace Event

def isAnalysis : Event Value → Bool
  | analyzed _ _ => true
  | _ => false

theorem isAnalysis_of_isFetching {e : Event Value} (h : e.isFetching = true) :
    e.isAnalysis = false := by
  cases e <;> first | rfl | cases h

end Event

namespace Session

/-- A session at the barrier. -/
structure Ready (s : Session Tree Value Listener) : Prop where
  state : ∀ id u, s.cache.get? id = some u → u.state = .parsed ∨ u.state.isSettled = true
  tree : ∀ id u, s.cache.get? id = some u → u.state = .parsed → u.tree.isSome
  waits : ∃ id u, s.cache.get? id = some u ∧ u.state = .parsed
  quiet : s.Quiet
  fetched : ∀ id u, s.cache.get? id = some u → u.cancellable = false
  pending : s.pending = []

variable (s : Session Tree Value Listener)

def analysis : Reported Project :=
  s.tools.analyze ((Build.targets s.cache).map (·.2)) s.project

def lowerings : List (UnitId × Target Tree) :=
  (Build.transformOrder s.cache s.cache.ids).filterMap fun id =>
    (Build.source? s.cache id).map fun target => (id, target)

def codes : List (UnitId × String) :=
  (s.cache.evaluationOrder.filter (s.cache.isIn .parsed)).filterMap fun id =>
    (Build.source? s.cache id).map fun target =>
      (id, s.tools.write (s.tools.transform target s.analysis.value).value)

def batchRun : Ran Value :=
  s.tools.runAll s.ns s.codes

/-- Nothing stops the batch. -/
structure Passes : Prop where
  analysis : ∀ d ∈ s.analysis.diagnostics, d.isError = false
  transform : ∀ t ∈ s.lowerings, ∀ d ∈ (s.tools.transform t.2 s.analysis.value).diagnostics,
    d.isError = false
  free : s.held = false
  run : s.batchRun.failed = none

def valueNote? (r : UnitId × Value) : Option (Notification Value Listener) :=
  (s.cache.get? r.1).bind fun u =>
    if u.listeners = [] then none else some ⟨r.1, u.listeners, .complete r.2⟩

def analyzedEvent : Event Value :=
  .analyzed ((Build.targets s.cache).map (·.1)) ((Build.targets s.cache).map (·.2.address))

variable {s}

/-- A session before and after a batch that went through. -/
structure Completes (s t : Session Tree Value Listener) : Prop where
  size : t.cache.size = s.cache.size
  unit : ∀ id u, s.cache.get? id = some u → t.cache.get? id =
    some (match s.batchRun.results.lookup id with | some value => u.completed value | none => u)
  ns : t.ns = s.batchRun.ns
  project : t.project = s.analysis.value
  history : t.history = s.history ++ s.analyzedEvent ::
    (s.lowerings.map (fun t => .transformed t.1 t.2.address t.2.kind) ++ s.batchRun.events)
  outbox : t.outbox = s.outbox ++ s.batchRun.results.filterMap s.valueNote?
  same : t = { s with toBuild := t.toBuild, ns := t.ns, outbox := t.outbox }
  waiting : ∀ id, (t.waitingFor id).Perm (s.waitingFor id)

theorem Ready.targets_ne_nil (h : s.Ready) : Build.targets s.cache ≠ [] := by
  obtain ⟨id, u, hu, hp⟩ := h.waits
  obtain ⟨tree, ht⟩ := Option.isSome_iff_exists.mp (h.tree id u hu hp)
  have hmem := Build.mem_targets.mpr ⟨u, tree, hu, hp, ht, rfl⟩
  intro he
  simp [he] at hmem

theorem Ready.source (h : s.Ready) {id : UnitId} (hp : s.cache.isIn .parsed id = true) :
    (Build.source? s.cache id).isSome := by
  obtain ⟨u, hu, hstate⟩ := Cache.isIn_iff.mp hp
  simpa [Build.source?, hu] using h.tree id u hu hstate

/-- A parsed unit has its source, so none is lost where the sources are looked up. -/
theorem Ready.map_fst_sources {α : Type} (h : s.Ready) (f : Target Tree → α) {ids : List UnitId}
    (hp : ∀ id ∈ ids, s.cache.isIn .parsed id = true) :
    (ids.filterMap fun id =>
      (Build.source? s.cache id).map fun target => (id, f target)).map (·.1) = ids :=
  Build.map_fst_sources f fun id hid => h.source (hp id hid)

/-! ### Analysis and transforming -/

def analysedSession (s : Session Tree Value Listener) : Session Tree Value Listener :=
  { s with
    project := s.analysis.value
    reporter := s.reporter.reportAll s.analysis.diagnostics
    history := s.history ++ [s.analyzedEvent] }

/-- A session whose batch was transformed as well. -/
def loweredSession (s : Session Tree Value Listener) : Session Tree Value Listener :=
  { s.analysedSession with
    reporter := s.analysedSession.reporter.reportAll
      (s.lowerings.flatMap fun t => (s.tools.transform t.2 s.analysis.value).diagnostics)
    history := s.analysedSession.history ++
      s.lowerings.map fun t => .transformed t.1 t.2.address t.2.kind
    cache := (Build.transformOrder s.cache s.cache.ids).foldl
      (fun c id => c.modify id (·.lowered s.tools s.analysis.value)) s.cache }

theorem Ready.analyze_eq (h : s.Ready) : s.toBuild.analyze s.tools s.cache.ids =
    s.analysedSession.toBuild.check s.cache.ids .analyze s.reporter.mark :=
  Build.analyze_of_targets h.targets_ne_nil

theorem Ready.transform_eq (h : s.Ready) :
    s.analysedSession.toBuild.transform s.tools s.cache.ids =
      s.loweredSession.toBuild.check s.cache.ids .transform s.analysedSession.reporter.mark := by
  have hsource : ∀ id ∈ Build.transformOrder s.cache s.cache.ids,
      (Build.source? s.analysedSession.cache id).isSome :=
    fun id hid => h.source (Build.isIn_parsed_of_mem_transformOrder hid)
  have hfold : (Build.transformOrder s.cache s.cache.ids).foldl (Build.transformUnit s.tools)
      s.analysedSession.toBuild = _ := Build.transformUnits_of_sources hsource
  simp only [Build.transform]
  rw [show s.analysedSession.cache = s.cache from rfl, hfold]
  rfl

theorem analysis_errors : s.analysedSession.reporter.errorsSince s.reporter.mark =
    s.analysis.diagnostics.filter Diagnostic.isError :=
  Reporter.errorsSince_reportAll _ _

theorem lowering_errors :
    s.loweredSession.reporter.errorsSince s.analysedSession.reporter.mark =
      (s.lowerings.flatMap fun t =>
        (s.tools.transform t.2 s.analysis.value).diagnostics).filter Diagnostic.isError :=
  Reporter.errorsSince_reportAll _ _

theorem checkBarrier_of_analysis_errors (h : s.Ready) (hb : s.barrierReached = true)
    (he : s.analysis.diagnostics.filter Diagnostic.isError ≠ []) :
    ∃ failed cache, s.checkBarrier = { s.analysedSession with cache := cache }.abortFailed failed ∧
      cache.size = s.cache.size ∧
      ∀ id u, s.cache.get? id = some u → ∃ e, cache.get? id = some (u.fail e) := by
  rw [← analysis_errors] at he
  obtain ⟨failed, cache, hc, hsize, hunit⟩ :=
    Build.check_of_errors (b := s.analysedSession.toBuild) .analyze he
  refine ⟨failed, cache, ?_, hsize, hunit⟩
  simp only [checkBarrier]
  rw [if_pos hb]
  simp only [h.analyze_eq]
  rw [show s.cache.ids = s.analysedSession.cache.ids from rfl, hc]
  rfl

theorem checkBarrier_of_analysed (h : s.Ready) (hb : s.barrierReached = true)
    (he : s.analysis.diagnostics.filter Diagnostic.isError = []) :
    s.checkBarrier =
      match (s.loweredSession.toBuild.check s.cache.ids .transform
        s.analysedSession.reporter.mark).failed with
      | some failed =>
        { s.loweredSession with
          toBuild := (s.loweredSession.toBuild.check s.cache.ids .transform
            s.analysedSession.reporter.mark).build }.abortFailed failed
      | none =>
        { s.loweredSession with
          toBuild := (s.loweredSession.toBuild.check s.cache.ids .transform
            s.analysedSession.reporter.mark).build }.evaluate := by
  rw [← analysis_errors] at he
  simp only [checkBarrier]
  rw [if_pos hb]
  simp only [h.analyze_eq, Build.check_of_no_errors he]
  rw [← h.transform_eq]
  rfl

theorem checkBarrier_of_lowering_errors (h : s.Ready) (hb : s.barrierReached = true)
    (ha : s.analysis.diagnostics.filter Diagnostic.isError = [])
    (he : (s.lowerings.flatMap fun t =>
      (s.tools.transform t.2 s.analysis.value).diagnostics).filter Diagnostic.isError ≠ []) :
    ∃ failed cache, s.checkBarrier = { s.loweredSession with cache := cache }.abortFailed failed ∧
      cache.size = s.loweredSession.cache.size ∧
      ∀ id u, s.loweredSession.cache.get? id = some u → ∃ e, cache.get? id = some (u.fail e) := by
  rw [← lowering_errors] at he
  have hids : s.cache.ids = s.loweredSession.cache.ids :=
    (Cache.ids_eq_of_size_eq (Cache.size_foldl_modify _ _ _)).symm
  obtain ⟨failed, cache, hc, hsize, hunit⟩ :=
    Build.check_of_errors (b := s.loweredSession.toBuild) .transform he
  refine ⟨failed, cache, ?_, hsize, hunit⟩
  rw [checkBarrier_of_analysed h hb ha, hids, hc]

theorem checkBarrier_of_lowered (h : s.Ready) (hb : s.barrierReached = true)
    (ha : s.analysis.diagnostics.filter Diagnostic.isError = [])
    (he : (s.lowerings.flatMap fun t =>
      (s.tools.transform t.2 s.analysis.value).diagnostics).filter Diagnostic.isError = []) :
    s.checkBarrier = s.loweredSession.evaluate := by
  rw [← lowering_errors] at he
  rw [checkBarrier_of_analysed h hb ha, Build.check_of_no_errors he]

/-! ### Batches that fall -/

theorem falls_abortFailed {m : Session Tree Value Listener} (hs : s.Quiet) (h : Stumbles s m)
    (hm : ∀ id u, m.cache.get? id = some u → u.state.isSettled = true ∧ u.cancellable = false)
    (hp : m.pending = []) (failed : List UnitId) : Falls s (m.abortFailed failed) := by
  simp only [abortFailed]
  split
  · refine falls_abortAll hs h (by simp [hp]) (fun id u hu hc => ?_) _
    exact absurd hc (by simp [(hm id u hu).2])
  · exact falls_notifyFailures h hs hm hp

theorem history_abortFailed (s : Session Tree Value Listener) (failed : List UnitId) :
    ∃ events, (s.abortFailed failed).history = s.history ++ events ∧
      ∀ e ∈ events, e.isFetching = true := by
  simp only [abortFailed]
  split
  · exact history_abortAll s _
  · exact ⟨[], by simp [notifyFailures_eq], by simp⟩

theorem falls_of_check (h : s.Ready) {m : Session Tree Value Listener} (hm : Stumbles s m)
    (hp : m.pending = []) (hc : ∀ id u, m.cache.get? id = some u → u.cancellable = false)
    {cache : Cache Tree Value Listener} (size : cache.size = m.cache.size)
    (unit : ∀ id u, m.cache.get? id = some u → ∃ e, cache.get? id = some (u.fail e))
    (failed : List UnitId) : Falls s ({ m with cache := cache }.abortFailed failed) := by
  have hback (id : UnitId) (v : SourceUnit Tree Value Listener) (hv : cache.get? id = some v) :
      ∃ u e, m.cache.get? id = some u ∧ v = u.fail e := by
    obtain ⟨u, hu⟩ := Cache.get?_of_index_lt (size ▸ Cache.index_lt_of_get? hv)
    obtain ⟨e, he⟩ := unit id u hu
    exact ⟨u, e, hu, Option.some.inj (hv.symm.trans he)⟩
  have hfail : Stumbles m { m with cache := cache } :=
    { size := size
      unit := fun id u hu => by
        obtain ⟨e, he⟩ := unit id u hu
        exact ⟨u.fail e, he, SourceUnit.stumbles_fail u e⟩
      outbox := rfl
      setting := ⟨rfl, rfl, rfl, rfl, rfl⟩ }
  refine falls_abortFailed h.quiet (hm.trans hfail) (fun id v hv => ?_) hp failed
  obtain ⟨u, e, hu, rfl⟩ := hback id v hv
  exact ⟨SourceUnit.isSettled_fail u e, by rw [SourceUnit.cancellable_fail, hc id u hu]⟩

theorem Ready.get?_lowered (h : s.Ready) {id : UnitId} {u : SourceUnit Tree Value Listener}
    (hu : s.cache.get? id = some u) :
    (u.state.isSettled = true ∧ s.loweredSession.cache.get? id = some u) ∨
      ∃ tree, u.state = .parsed ∧ u.tree = some tree ∧
        s.loweredSession.cache.get? id = some { u with
          transformed := some (s.tools.transform ⟨u.address, u.kind, tree⟩ s.analysis.value).value
          state := .transformed } := by
  have hget : s.loweredSession.cache.get? id =
      if s.cache.isIn .parsed id = true then
        some (u.lowered s.tools s.analysis.value) else some u := by
    have := Cache.get?_foldl_modify (f := (·.lowered s.tools s.analysis.value))
      (Build.nodup_transformOrder s.cache s.cache.ids) s.cache id
    rw [hu, Option.map_some] at this
    simp only [Build.mem_transformOrder_ids] at this
    exact this
  simp only [Cache.isIn_eq hu, decide_eq_true_eq] at hget
  rcases h.state id u hu with hp | hset
  · obtain ⟨tree, ht⟩ := Option.isSome_iff_exists.mp (h.tree id u hu hp)
    rw [if_pos hp, SourceUnit.lowered_of_tree ht hp] at hget
    exact .inr ⟨tree, hp, ht, hget⟩
  · have hp : u.state ≠ .parsed := fun hp => by simp [hp, State.isSettled] at hset
    rw [if_neg hp] at hget
    exact .inl ⟨hset, hget⟩

theorem Ready.stumbles_lowered (h : s.Ready) : Stumbles s s.loweredSession where
  size := Cache.size_foldl_modify _ _ _
  unit := by
    intro id u hu
    rcases h.get?_lowered hu with ⟨-, hv⟩ | ⟨tree, hp, ht, hv⟩
    · exact ⟨u, hv, .refl u⟩
    · refine ⟨_, hv, ?_⟩
      exact
        { settled := fun hs => by simp [hp, State.isSettled] at hs
          failed := fun he => by cases he
          unsettled := fun _ => by simp
          address := rfl
          kind := rfl
          origin := rfl
          dependencies := rfl
          listeners := rfl }
  outbox := rfl
  setting := ⟨rfl, rfl, rfl, rfl, rfl⟩

theorem Ready.cancellable_lowered (h : s.Ready) {id : UnitId}
    {v : SourceUnit Tree Value Listener} (hv : s.loweredSession.cache.get? id = some v) :
    v.cancellable = false := by
  obtain ⟨u, hu⟩ := Cache.get?_of_index_lt
    (h.stumbles_lowered.size ▸ Cache.index_lt_of_get? hv)
  rcases h.get?_lowered hu with ⟨-, hv'⟩ | ⟨tree, -, -, hv'⟩
  · obtain rfl := Option.some.inj (hv.symm.trans hv')
    exact h.fetched id v hu
  · obtain rfl := Option.some.inj (hv.symm.trans hv')
    exact h.fetched id u hu

/-! ### Execution -/

theorem Ready.dependencyIds_lowered (h : s.Ready) (id : UnitId) :
    s.loweredSession.cache.dependencyIds id = s.cache.dependencyIds id := by
  cases hu : s.cache.get? id with
  | none =>
    have hn : s.loweredSession.cache.get? id = none := by
      rw [Cache.get?_eq_none_iff, h.stumbles_lowered.size]
      exact Cache.get?_eq_none_iff.mp hu
    simp [Cache.dependencyIds, hu, hn]
  | some u =>
    rcases h.get?_lowered hu with ⟨-, hv⟩ | ⟨tree, -, -, hv⟩
    · rw [Cache.dependencyIds_eq hu, Cache.dependencyIds_eq hv]
    · rw [Cache.dependencyIds_eq hu, Cache.dependencyIds_eq hv]
      rfl

theorem Ready.codes_lowered (h : s.Ready) :
    s.loweredSession.cache.evaluationOrder.filterMap (code? s.tools s.loweredSession.cache) =
      s.codes := by
  rw [Cache.evaluationOrder_congr h.stumbles_lowered.size h.dependencyIds_lowered, codes,
    List.filterMap_filter]
  refine List.filterMap_congr fun id hid => ?_
  obtain ⟨u, hu⟩ := Cache.get?_of_index_lt ((s.cache.mem_evaluationOrder id).mp hid)
  simp only [Cache.isIn_eq hu, decide_eq_true_eq]
  rcases h.get?_lowered hu with ⟨hs, hv⟩ | ⟨tree, hp, ht, hv⟩
  · have hp : u.state ≠ .parsed := fun hp => by simp [hp, State.isSettled] at hs
    have hn : u.state ≠ .transformed := fun hn => by simp [hn, State.isSettled] at hs
    simp [code?, hv, hp, hn]
  · simp [code?, Build.source?, hu, hv, hp, ht]

theorem Ready.map_fst_codes (h : s.Ready) :
    s.codes.map (·.1) = s.cache.evaluationOrder.filter (s.cache.isIn .parsed) :=
  h.map_fst_sources _ fun _ hid => (List.mem_filter.mp hid).2

theorem Ready.nodup_codes (h : s.Ready) : (s.codes.map (·.1)).Nodup := by
  rw [h.map_fst_codes]
  exact s.cache.nodup_evaluationOrder.filter _

theorem Ready.mem_codes (h : s.Ready) {id : UnitId} :
    id ∈ s.codes.map (·.1) ↔ s.cache.isIn .parsed id = true := by
  rw [h.map_fst_codes, List.mem_filter, s.cache.mem_evaluationOrder]
  refine ⟨fun hid => hid.2, fun hp => ⟨?_, hp⟩⟩
  obtain ⟨u, hu, -⟩ := Cache.isIn_iff.mp hp
  exact Cache.index_lt_of_get? hu

theorem Ready.nodup_results (h : s.Ready) : (s.batchRun.results.map (·.1)).Nodup :=
  h.nodup_codes.sublist (s.tools.results_sublist s.ns s.codes)

theorem Ready.evaluate_eq (h : s.Ready) (hh : s.held = false) :
    s.loweredSession.evaluate =
      let m := s.loweredSession.afterRun s.batchRun
      match s.batchRun.failed with
      | none =>
        let all := s.batchRun.results.map (·.1)
        all.foldl notifySuccess (all.foldl completeUnit m)
      | some (id, message) =>
        (m.onBuild (·.report (.ofUnit .evaluate (m.cache.addressOf id) message))).failBatch id
          (.execution (m.cache.addressOf id) message) := by
  simp only [evaluate]
  rw [show s.loweredSession.held = s.held from rfl, hh]
  simp only [Bool.false_eq_true, if_false]
  rw [runUnits_eq s.loweredSession.cache.nodup_evaluationOrder]
  · rw [show s.loweredSession.tools = s.tools from rfl, show s.loweredSession.ns = s.ns from rfl,
      h.codes_lowered]
    rfl
  · intro id _ v hv hstate
    obtain ⟨u, hu⟩ := Cache.get?_of_index_lt
      (h.stumbles_lowered.size ▸ Cache.index_lt_of_get? hv)
    rcases h.get?_lowered hu with ⟨hs, hv'⟩ | ⟨tree, -, -, hv'⟩
    · obtain rfl := Option.some.inj (hv.symm.trans hv')
      simp [hstate, State.isSettled] at hs
    · obtain rfl := Option.some.inj (hv.symm.trans hv')
      rfl

theorem Ready.lookup_of_isSettled (h : s.Ready) {id : UnitId}
    {u : SourceUnit Tree Value Listener} (hu : s.cache.get? id = some u)
    (hs : u.state.isSettled = true) : s.batchRun.results.lookup id = none := by
  rw [List.lookup_eq_none_iff]
  intro r hr
  have hmem : r.1 ∈ s.codes.map (·.1) :=
    (s.tools.results_sublist s.ns s.codes).subset (List.mem_map_of_mem hr)
  obtain ⟨v, hv, hp⟩ := Cache.isIn_iff.mp (h.mem_codes.mp hmem)
  have hne : id ≠ r.1 := by
    rintro rfl
    obtain rfl := Option.some.inj (hu.symm.trans hv)
    simp [hp, State.isSettled] at hs
  simpa using hne

/-- A run leaves the settled units alone and no unit complete. -/
theorem Ready.get?_afterRun (h : s.Ready) {id : UnitId} {u : SourceUnit Tree Value Listener}
    (hu : s.cache.get? id = some u) :
    (u.state.isSettled = true ∧ s.batchRun.results.lookup id = none ∧
        (s.loweredSession.afterRun s.batchRun).cache.get? id = some u) ∨
      ∃ v tree, u.state = .parsed ∧ v = { u with transformed := some tree, state := .transformed } ∧
        s.loweredSession.cache.get? id = some v ∧
        (s.loweredSession.afterRun s.batchRun).cache.get? id =
          some (match s.batchRun.results.lookup id with
            | some value => v.finish value
            | none => v) := by
  have hget := get?_finishAll (c := s.loweredSession.cache) h.nodup_results id
  rcases h.get?_lowered hu with ⟨hs, hv⟩ | ⟨tree, hp, ht, hv⟩
  · have hnone := h.lookup_of_isSettled hu hs
    rw [hnone, hv] at hget
    exact .inl ⟨hs, hnone, hget⟩
  · refine .inr ⟨_, _, hp, rfl, hv, ?_⟩
    rw [hv] at hget
    refine hget.trans ?_
    cases s.batchRun.results.lookup id <;> rfl

theorem Ready.stumbles_afterRun (h : s.Ready) :
    Stumbles s (s.loweredSession.afterRun s.batchRun) where
  size := by
    have hsize (results : List (UnitId × Value)) (c : Cache Tree Value Listener) :
        (finishAll c results).size = c.size := by
      induction results generalizing c with
      | nil => rfl
      | cons r rest ih => exact (ih _).trans (Cache.size_modify _ _ _)
    exact (hsize _ _).trans h.stumbles_lowered.size
  unit := by
    intro id u hu
    rcases h.get?_afterRun hu with ⟨-, -, hv⟩ | ⟨v, tree, hp, rfl, -, hget⟩
    · exact ⟨u, hv, .refl u⟩
    · refine ⟨_, hget, ?_⟩
      cases s.batchRun.results.lookup id <;> exact
        { settled := fun hs => by simp [hp, State.isSettled] at hs
          failed := fun he => by cases he
          unsettled := fun _ => by simp [SourceUnit.finish]
          address := rfl
          kind := rfl
          origin := rfl
          dependencies := rfl
          listeners := rfl }
  outbox := rfl
  setting := ⟨rfl, rfl, rfl, rfl, rfl⟩

theorem Ready.cancellable_afterRun (h : s.Ready) {id : UnitId}
    {w : SourceUnit Tree Value Listener}
    (hw : (s.loweredSession.afterRun s.batchRun).cache.get? id = some w) :
    w.cancellable = false := by
  obtain ⟨u, hu⟩ := Cache.get?_of_index_lt
    (h.stumbles_afterRun.size ▸ Cache.index_lt_of_get? hw)
  rcases h.get?_afterRun hu with ⟨-, -, hv⟩ | ⟨v, tree, -, rfl, -, hget⟩
  · obtain rfl := Option.some.inj (hw.symm.trans hv)
    exact h.fetched id w hu
  · obtain rfl := Option.some.inj (hw.symm.trans hget)
    have hc := h.fetched id u hu
    split
    · exact hc
    · exact hc

/-- A batch that fell after its analysis, of which there was one. -/
structure FallsAnalysed (s t : Session Tree Value Listener) : Prop where
  falls : Falls s t
  history : ∃ rest, t.history = s.history ++ s.analyzedEvent :: rest ∧
    ∀ e ∈ rest, e.isAnalysis = false

theorem FallsAnalysed.of_fetching {t : Session Tree Value Listener} (h : Falls s t)
    (before : List (Event Value)) (hbefore : ∀ e ∈ before, e.isAnalysis = false)
    (history : ∃ events, t.history = s.history ++ s.analyzedEvent :: before ++ events ∧
      ∀ e ∈ events, e.isFetching = true) : FallsAnalysed s t where
  falls := h
  history := by
    obtain ⟨events, he, hf⟩ := history
    refine ⟨before ++ events, by simpa using he, fun e hm => ?_⟩
    rcases List.mem_append.mp hm with hm | hm
    · exact hbefore e hm
    · exact Event.isAnalysis_of_isFetching (hf e hm)

theorem Ready.falls_of_analysis_errors (h : s.Ready) (hb : s.barrierReached = true)
    (he : s.analysis.diagnostics.filter Diagnostic.isError ≠ []) :
    FallsAnalysed s s.checkBarrier := by
  obtain ⟨failed, cache, hc, hsize, hunit⟩ := checkBarrier_of_analysis_errors h hb he
  have hst : Stumbles s s.analysedSession :=
    stumbles_of_cache rfl rfl ⟨rfl, rfl, rfl, rfl, rfl⟩
  rw [hc]
  refine .of_fetching (falls_of_check h hst h.pending h.fetched hsize hunit failed) [] (by simp) ?_
  obtain ⟨events, hh, hf⟩ := history_abortFailed { s.analysedSession with cache := cache } failed
  exact ⟨events, hh, hf⟩

theorem isAnalysis_transformed (s : Session Tree Value Listener) :
    ∀ e ∈ s.lowerings.map fun t => (Event.transformed t.1 t.2.address t.2.kind : Event Value),
      e.isAnalysis = false := by
  intro e he
  obtain ⟨t, -, rfl⟩ := List.mem_map.mp he
  rfl

theorem history_loweredSession (s : Session Tree Value Listener) :
    s.loweredSession.history = s.history ++ s.analyzedEvent ::
    s.lowerings.map fun t => .transformed t.1 t.2.address t.2.kind := by
  simp [loweredSession, analysedSession]

theorem Ready.falls_of_lowering_errors (h : s.Ready) (hb : s.barrierReached = true)
    (ha : s.analysis.diagnostics.filter Diagnostic.isError = [])
    (he : (s.lowerings.flatMap fun t =>
      (s.tools.transform t.2 s.analysis.value).diagnostics).filter Diagnostic.isError ≠ []) :
    FallsAnalysed s s.checkBarrier := by
  obtain ⟨failed, cache, hc, hsize, hunit⟩ := checkBarrier_of_lowering_errors h hb ha he
  rw [hc]
  refine .of_fetching (falls_of_check h h.stumbles_lowered h.pending
    (fun id u hu => h.cancellable_lowered hu) hsize hunit failed) _ s.isAnalysis_transformed ?_
  obtain ⟨events, hh, hf⟩ := history_abortFailed { s.loweredSession with cache := cache } failed
  refine ⟨events, hh.trans ?_, hf⟩
  rw [← history_loweredSession]

theorem Ready.falls_of_abort (h : s.Ready) {m : Session Tree Value Listener}
    (hm : Stumbles s m) (hp : m.pending = [])
    (hc : ∀ id u, m.cache.get? id = some u → u.cancellable = false) (events : List (Event Value))
    (hh : m.history = s.loweredSession.history ++ events)
    (he : ∀ e ∈ events, e.isAnalysis = false) (cause : LoadError) :
    FallsAnalysed s (m.abortAll cause) := by
  refine .of_fetching (falls_abortAll h.quiet hm (by simp [hp]) (fun id u hu hc' => ?_) cause)
    (s.lowerings.map (fun t => .transformed t.1 t.2.address t.2.kind) ++ events)
    (fun e hm => ?_) ?_
  · exact absurd hc' (by simp [hc id u hu])
  · rcases List.mem_append.mp hm with hm | hm
    · exact s.isAnalysis_transformed e hm
    · exact he e hm
  · obtain ⟨further, hf, hfetching⟩ := history_abortAll m cause
    refine ⟨further, ?_, hfetching⟩
    rw [hf, hh, history_loweredSession]
    simp

theorem Ready.falls_of_held (h : s.Ready) (hh : s.held = true) :
    FallsAnalysed s s.loweredSession.evaluate := by
  simp only [evaluate]
  rw [show s.loweredSession.held = s.held from rfl, if_pos hh]
  exact h.falls_of_abort h.stumbles_lowered h.pending (fun id u hu => h.cancellable_lowered hu)
    [] (List.append_nil _).symm (by simp) _

theorem isAnalysis_executed {e : Event Value} (he : e ∈ s.batchRun.events) :
    e.isAnalysis = false := by
  obtain ⟨id, code, result, rfl⟩ := Toolchain.executed_of_mem_events he
  rfl

theorem Ready.falls_of_run (h : s.Ready) (hh : s.held = false) {id : UnitId} {message : String}
    (hf : s.batchRun.failed = some (id, message)) :
    FallsAnalysed s s.loweredSession.evaluate := by
  rw [h.evaluate_eq hh, hf]
  simp only [failBatch]
  generalize (s.loweredSession.afterRun s.batchRun).cache.addressOf id = address
  refine h.falls_of_abort ((h.stumbles_afterRun.trans (stumbles_report _ _)).trans
    (stumbles_failUnit _ id _)) h.pending (fun j v hv => ?_) s.batchRun.events rfl
    (fun _ he => isAnalysis_executed he) _
  obtain ⟨u, hu, he⟩ := cancellable_failUnit hv
  rw [he]
  exact h.cancellable_afterRun hu

/-- A batch that something stops falls. -/
theorem Ready.falls (h : s.Ready) (hb : s.barrierReached = true) (hp : ¬ s.Passes) :
    FallsAnalysed s s.checkBarrier := by
  -- The stages one after another: the first that does not go through makes the batch fall.
  by_cases ha : s.analysis.diagnostics.filter Diagnostic.isError = []
  swap
  · exact h.falls_of_analysis_errors hb ha
  by_cases ht : (s.lowerings.flatMap fun t =>
      (s.tools.transform t.2 s.analysis.value).diagnostics).filter Diagnostic.isError = []
  swap
  · exact h.falls_of_lowering_errors hb ha ht
  rw [checkBarrier_of_lowered h hb ha ht]
  cases hh : s.held with
  | true => exact h.falls_of_held hh
  | false =>
    cases hf : s.batchRun.failed with
    | some failure => exact h.falls_of_run hh hf
    | none =>
      refine absurd ⟨fun d hd => ?_, fun t htm d hd => ?_, hh, hf⟩ hp
      · simpa using List.filter_eq_nil_iff.mp ha d hd
      · simpa using List.filter_eq_nil_iff.mp ht d (List.mem_flatMap.mpr ⟨t, htm, hd⟩)

/-! ### Batches that go through -/

theorem Passes.map_fst_results (hp : s.Passes) : s.batchRun.results.map (·.1) = s.codes.map (·.1) :=
  Toolchain.map_fst_results hp.run

theorem Ready.mem_results (h : s.Ready) (hp : s.Passes) {id : UnitId} :
    id ∈ s.batchRun.results.map (·.1) ↔ s.cache.isIn .parsed id = true := by
  rw [hp.map_fst_results, h.mem_codes]

theorem lookup_of_mem {results : List (UnitId × Value)} (hn : (results.map (·.1)).Nodup)
    {r : UnitId × Value} (hr : r ∈ results) : results.lookup r.1 = some r.2 := by
  obtain ⟨id, value⟩ := r
  induction results with
  | nil => simp at hr
  | cons first rest ih =>
    obtain ⟨j, other⟩ := first
    simp only [List.map_cons, List.nodup_cons] at hn
    rcases List.mem_cons.mp hr with he | hr
    · obtain ⟨rfl, rfl⟩ := Prod.mk.inj he
      simp
    · have hne : (id == j) = false := by
        simpa using fun he : id = j => hn.1 (he ▸ List.mem_map_of_mem hr)
      simpa [List.lookup_cons, hne] using ih hn.2 hr

theorem Ready.lookup_of_parsed (h : s.Ready) (hp : s.Passes) {id : UnitId}
    {u : SourceUnit Tree Value Listener} (hu : s.cache.get? id = some u) (hs : u.state = .parsed) :
    ∃ value, s.batchRun.results.lookup id = some value := by
  obtain ⟨r, hr, rfl⟩ := List.mem_map.mp ((h.mem_results hp).mpr (Cache.isIn_iff.mpr ⟨u, hu, hs⟩))
  exact ⟨r.2, lookup_of_mem h.nodup_results hr⟩

theorem Ready.checkBarrier_of_passes (h : s.Ready) (hb : s.barrierReached = true)
    (hp : s.Passes) :
    s.checkBarrier =
      let m := s.loweredSession.afterRun s.batchRun
      let all := s.batchRun.results.map (·.1)
      all.foldl notifySuccess (all.foldl completeUnit m) := by
  have ha : s.analysis.diagnostics.filter Diagnostic.isError = [] :=
    List.filter_eq_nil_iff.mpr fun d hd => by simp [hp.analysis d hd]
  have ht : (s.lowerings.flatMap fun t =>
      (s.tools.transform t.2 s.analysis.value).diagnostics).filter Diagnostic.isError = [] := by
    refine List.filter_eq_nil_iff.mpr fun d hd => ?_
    obtain ⟨t, htm, hd⟩ := List.mem_flatMap.mp hd
    simp [hp.transform t htm d hd]
  rw [checkBarrier_of_lowered h hb ha ht, h.evaluate_eq hp.free, hp.run]

theorem Ready.completes (h : s.Ready) (hb : s.barrierReached = true) (hp : s.Passes) :
    Completes s s.checkBarrier := by
  have hall : (s.batchRun.results.map (·.1)).Nodup := h.nodup_results
  have hmem {id : UnitId} :
      id ∈ s.batchRun.results.map (·.1) ↔ s.cache.isIn .parsed id = true := h.mem_results hp
  -- the units once they count as complete, with their listeners still there
  obtain ⟨c, hc⟩ : ∃ c, c = (s.batchRun.results.map (·.1)).foldl
      (fun c id => c.modify id (·.advance .complete))
      (s.loweredSession.afterRun s.batchRun).cache := ⟨_, rfl⟩
  have hunit (id : UnitId) (u : SourceUnit Tree Value Listener) (hu : s.cache.get? id = some u) :
      c.get? id = some (match s.batchRun.results.lookup id with
        | some value => { u.completed value with listeners := u.listeners }
        | none => u) := by
    rw [hc, Cache.get?_foldl_modify hall]
    simp only [hmem, Cache.isIn_eq hu, decide_eq_true_eq]
    rcases h.get?_afterRun hu with ⟨hs, hnone, hv⟩ | ⟨v, tree, hstate, rfl, -, hget⟩
    · have hne : u.state ≠ .parsed := fun hs' => by simp [hs', State.isSettled] at hs
      simp [hne, hnone, hv]
    · obtain ⟨value, hvalue⟩ := h.lookup_of_parsed hp hu hstate
      simp [hstate, hget, hvalue, SourceUnit.finish, SourceUnit.advance, State.mayBecome,
        State.rank, SourceUnit.completed]
  have hsize : c.size = s.cache.size := by
    rw [hc, Cache.size_foldl_modify, h.stumbles_afterRun.size]
  have hwaiting (id : UnitId) := waitingFor_notifySuccess_foldl (s.batchRun.results.map (·.1))
    ((s.batchRun.results.map (·.1)).foldl completeUnit (s.loweredSession.afterRun s.batchRun)) id
  rw [h.checkBarrier_of_passes hb hp]
  simp only
  rw [completeUnit_foldl, notifySuccess_foldl hall, ← hc] at hwaiting ⊢
  refine ⟨?_, fun id u hu => ?_, rfl, rfl, ?_, ?_, rfl, fun id => (hwaiting id).trans ?_⟩
  · simp [hsize]
  · simp only [Cache.get?_foldl_modify hall, hmem, Cache.isIn_eq hu, decide_eq_true_eq,
      hunit id u hu]
    rcases h.state id u hu with hstate | hs
    · obtain ⟨value, hvalue⟩ := h.lookup_of_parsed hp hu hstate
      simp [hstate, hvalue, SourceUnit.completed, SourceUnit.answered]
    · have hne : u.state ≠ .parsed := fun hs' => by simp [hs', State.isSettled] at hs
      simp [hne, h.lookup_of_isSettled hu hs]
  · simp [afterRun, history_loweredSession]
  · have hnotes : (s.batchRun.results.map (·.1)).filterMap (successNote? c) =
        s.batchRun.results.filterMap s.valueNote? := by
      rw [List.filterMap_map]
      refine List.filterMap_congr fun r hr => ?_
      obtain ⟨u, hu, -⟩ := Cache.isIn_iff.mp (hmem.mp (List.mem_map_of_mem hr))
      simp [successNote?, valueNote?, hunit _ u hu, hu, lookup_of_mem h.nodup_results hr,
        SourceUnit.completed]
    simp only [hnotes]
    rfl
  · refine .of_eq (waitingFor_eq ?_ rfl)
    cases hu : s.cache.get? id with
    | none =>
      have hn : c.get? id = none := by
        rw [Cache.get?_eq_none_iff, hsize]
        exact Cache.get?_eq_none_iff.mp hu
      simp [listenersOf, hu, hn]
    | some u =>
      have hv := hunit id u hu
      simp only [listenersOf, hu, hv, Option.map_some, Option.getD_some]
      split <;> rfl

end Session

end UnitLoader
