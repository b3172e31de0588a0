import UnitLoader.Proofs.Substance

/-! The few moves that change the substance of a session. A text is read and its imports
are found; a batch is analysed; a batch is executed. All other moves leave it as it was. -/

namespace UnitLoader

variable {Tree Value Listener : Type}

namespace Session

variable {s t : Session Tree Value Listener}

def readTree (s : Session Tree Value Listener) (u : SourceUnit Tree Value Listener) : Tree :=
  (s.tools.parse ⟨u.address, u.text.getD ""⟩ u.kind).value

/-- A batch that got through its analysis and its lowering and was executed. -/
structure Executes (s : Session Tree Value Listener) : Prop where
  ready : s.Ready
  analysed : s.analysis.diagnostics.filter Diagnostic.isError = []
  lowered : (s.lowerings.flatMap fun t =>
    (s.tools.transform t.2 s.analysis.value).diagnostics).filter Diagnostic.isError = []
  free : s.held = false

def executedSession (s : Session Tree Value Listener) : Session Tree Value Listener :=
  s.loweredSession.afterRun s.batchRun

/-- What a move comes to. -/
inductive Turns (s t : Session Tree Value Listener) : Prop
  | still (still : Still s t)
  | reads {id : UnitId} {u : SourceUnit Tree Value Listener} {imports : List UnitId}
      {m : Session Tree Value Listener} (unit : s.cache.get? id = some u)
      (loaded : u.state = .loaded) (sound : s.isSound u = true)
      (reads : Reads s m id u (s.readTree u) imports) (still : Still m t)
      (fine : (∀ d ∈ imports, t.cache.isIn .error d = false) ∨ t.Calm)
  | stops (ready : s.Ready) (falls : Falls s t) (still : Still s.analysedSession t)
  | executes (executes : s.Executes) (still : Still s.executedSession t)
      (ends : s.batchRun.failed = none ∧ Completes s t ∨
        s.batchRun.failed ≠ none ∧ Falls s t)

theorem cores_eq_of_fail {c d : Cache Tree Value Listener} (size : d.size = c.size)
    (unit : ∀ id u, c.get? id = some u → ∃ e, d.get? id = some (u.fail e)) :
    d.cores = c.cores := by
  refine List.ext_getElem? fun i => ?_
  rw [Cache.cores_getElem? d ⟨i⟩, Cache.cores_getElem? c ⟨i⟩]
  cases hu : c.get? ⟨i⟩ with
  | none =>
    have hd : d.get? ⟨i⟩ = none := by
      rw [Cache.get?_eq_none_iff, size]
      exact Cache.get?_eq_none_iff.mp hu
    rw [hd]
  | some u =>
    obtain ⟨e, he⟩ := unit ⟨i⟩ u hu
    rw [he, Option.map_some, Option.map_some, SourceUnit.core_fail]

theorem still_failed (s : Session Tree Value Listener) {cache : Cache Tree Value Listener}
    (size : cache.size = s.cache.size)
    (unit : ∀ id u, s.cache.get? id = some u → ∃ e, cache.get? id = some (u.fail e)) :
    Still s { s with cache := cache } :=
  ⟨cores_eq_of_fail size unit, rfl, rfl, rfl, rfl, rfl, rfl⟩

theorem still_loweredSession (s : Session Tree Value Listener) :
    Still s.analysedSession s.loweredSession where
  cores := Cache.cores_foldl (fun c id => Cache.cores_modify
    (fun u => u.core_lowered s.tools s.analysis.value) c id) _ s.cache
  deeds := by
    refine deeds_append (s := s.analysedSession) rfl fun e he => ?_
    obtain ⟨target, -, rfl⟩ := List.mem_map.mp he
    rfl
  modules := rfl
  resolver := rfl
  ns := rfl
  tools := rfl
  baseAddress := rfl

theorem still_foldl {α : Type} {step : Session Tree Value Listener → α → Session Tree Value Listener}
    (hstep : ∀ s a, Still s (step s a)) (l : List α) (s : Session Tree Value Listener) :
    Still s (l.foldl step s) := by
  induction l generalizing s with
  | nil => exact .refl s
  | cons a l ih => exact (hstep s a).trans (ih (step s a))

theorem still_notifySuccess (s : Session Tree Value Listener) (id : UnitId) :
    Still s (s.notifySuccess id) := by
  rw [notifySuccess_eq]
  exact ⟨Cache.cores_modify SourceUnit.core_answered s.cache id, rfl, rfl, rfl, rfl, rfl, rfl⟩

theorem still_completeUnit (s : Session Tree Value Listener) (id : UnitId) :
    Still s (s.completeUnit id) :=
  still_modifyUnit (fun u => u.core_advance .complete) s id

theorem Executes.still (h : s.Executes) (hb : s.barrierReached = true) :
    Still s.executedSession s.checkBarrier := by
  rw [checkBarrier_of_lowered h.ready hb h.analysed h.lowered, h.ready.evaluate_eq h.free]
  simp only
  split
  · exact (still_foldl still_completeUnit _ _).trans (still_foldl still_notifySuccess _ _)
  · exact (still_report _ _).trans (still_failBatch _ _ _)

theorem Executes.passes (h : s.Executes) (hf : s.batchRun.failed = none) : s.Passes := by
  refine ⟨fun d hd => ?_, fun t ht d hd => ?_, h.free, hf⟩
  · simpa using List.filter_eq_nil_iff.mp h.analysed d hd
  · simpa using List.filter_eq_nil_iff.mp h.lowered d (List.mem_flatMap.mpr ⟨t, ht, hd⟩)

theorem turns_checkBarrier (h : s.Ready) (hb : s.barrierReached = true) :
    Turns s s.checkBarrier := by
  by_cases ha : s.analysis.diagnostics.filter Diagnostic.isError = []
  swap
  · obtain ⟨failed, cache, hc, hsize, hunit⟩ := checkBarrier_of_analysis_errors h hb ha
    refine .stops h (h.falls_of_analysis_errors hb ha).falls ?_
    rw [hc]
    exact (still_failed s.analysedSession hsize hunit).trans (still_abortFailed _ failed)
  by_cases ht : (s.lowerings.flatMap fun t =>
      (s.tools.transform t.2 s.analysis.value).diagnostics).filter Diagnostic.isError = []
  swap
  · obtain ⟨failed, cache, hc, hsize, hunit⟩ := checkBarrier_of_lowering_errors h hb ha ht
    refine .stops h (h.falls_of_lowering_errors hb ha ht).falls ?_
    rw [hc]
    exact ((still_loweredSession s).trans (still_failed s.loweredSession hsize hunit)).trans
      (still_abortFailed _ failed)
  cases hh : s.held with
  | true =>
    have heq := checkBarrier_of_lowered h hb ha ht
    refine .stops h (heq ▸ (h.falls_of_held hh).falls) ?_
    rw [heq]
    simp only [evaluate]
    rw [show s.loweredSession.held = s.held from rfl, if_pos hh]
    exact (still_loweredSession s).trans (still_abortAll _ _)
  | false =>
    have he : s.Executes := ⟨h, ha, ht, hh⟩
    refine .executes he (he.still hb) ?_
    cases hf : s.batchRun.failed with
    | none => exact .inl ⟨rfl, h.completes hb (he.passes hf)⟩
    | some failure =>
      refine .inr ⟨by simp, ?_⟩
      rw [checkBarrier_of_lowered h hb ha ht]
      exact (h.falls_of_run hh hf).falls

/-! ### Units after a turn -/

theorem get?_executedSession (h : s.Executes) {id : UnitId} {u : SourceUnit Tree Value Listener}
    (hu : s.cache.get? id = some u) :
    ∃ v, s.executedSession.cache.get? id = some v ∧
      v.core = match s.batchRun.results.lookup id with
        | some value => { u.core with result := some value }
        | none => u.core := by
  rcases h.ready.get?_afterRun hu with ⟨-, hnone, hv⟩ | ⟨v, tree, -, rfl, -, hget⟩
  · exact ⟨u, hv, by rw [hnone]⟩
  · refine ⟨_, hget, ?_⟩
    cases s.batchRun.results.lookup id <;> rfl

theorem Still.get? (h : Still s t) {id : UnitId} {u : SourceUnit Tree Value Listener}
    (hu : s.cache.get? id = some u) : ∃ v, t.cache.get? id = some v ∧ v.core = u.core :=
  Cache.get?_of_cores_eq h.cores hu

theorem Still.get?_back (h : Still s t) {id : UnitId} {v : SourceUnit Tree Value Listener}
    (hv : t.cache.get? id = some v) : ∃ u, s.cache.get? id = some u ∧ v.core = u.core := by
  obtain ⟨u, hu, he⟩ := Cache.get?_of_cores_eq h.cores.symm hv
  exact ⟨u, hu, he.symm⟩

theorem Executes.get?_back (h : s.Executes) (still : Still s.executedSession t) {id : UnitId}
    {v : SourceUnit Tree Value Listener} (hv : t.cache.get? id = some v) :
    ∃ u, s.cache.get? id = some u ∧ v.core = match s.batchRun.results.lookup id with
      | some value => { u.core with result := some value }
      | none => u.core := by
  obtain ⟨w, hw, he⟩ := still.get?_back hv
  have hlt : id.index < s.cache.size :=
    h.ready.stumbles_afterRun.size ▸ Cache.index_lt_of_get? hw
  obtain ⟨u, hu⟩ := Cache.get?_of_index_lt hlt
  obtain ⟨x, hx, hcore⟩ := get?_executedSession h hu
  obtain rfl := Option.some.inj (hw.symm.trans hx)
  exact ⟨u, hu, he.trans hcore⟩

theorem Reads.get?_back {m : Session Tree Value Listener} {id j : UnitId}
    {u v : SourceUnit Tree Value Listener} {tree : Tree} {imports : List UnitId}
    (h : Reads s m id u tree imports) (hv : m.cache.get? j = some v) :
    (j = id ∧ v = { u with tree := some tree, state := .parsed, dependencies := some imports }) ∨
      (j ≠ id ∧ s.cache.get? j = some v) ∨
      (s.cache.get? j = none ∧ j ∈ imports ∧ ∃ address kind, v = .new address kind .load) := by
  by_cases hj : id = j
  · subst hj
    exact .inl ⟨rfl, Option.some.inj (hv.symm.trans h.unit)⟩
  · cases hw : s.cache.get? j with
    | some w =>
      obtain rfl := Option.some.inj (hv.symm.trans (h.other j w hj hw))
      exact .inr (.inl ⟨Ne.symm hj, rfl⟩)
    | none => exact .inr (.inr ⟨rfl, h.fresh j v hv hw⟩)

/-- A unit is always the one that it was, and only fetched ones are new. -/
theorem Turns.unit (h : Turns s t) {id : UnitId} {v : SourceUnit Tree Value Listener}
    (hv : t.cache.get? id = some v) :
    (∃ u, s.cache.get? id = some u ∧ v.address = u.address ∧ v.kind = u.kind ∧
      v.origin = u.origin) ∨ s.cache.get? id = none ∧ v.origin = .load := by
  cases h with
  | still still =>
    obtain ⟨u, hu, he⟩ := still.get?_back hv
    exact .inl ⟨u, hu, SourceUnit.place_of_core he⟩
  | reads unit loaded sound reads still =>
    obtain ⟨w, hw, he⟩ := still.get?_back hv
    rcases reads.get?_back hw with ⟨rfl, rfl⟩ | ⟨-, hw⟩ | ⟨hnone, -, address, kind, rfl⟩
    · have hplace := SourceUnit.place_of_core he
      exact .inl ⟨_, unit, hplace⟩
    · exact .inl ⟨w, hw, SourceUnit.place_of_core he⟩
    · exact .inr ⟨hnone, (SourceUnit.place_of_core he).2.2⟩
  | stops ready falls still =>
    obtain ⟨u, hu, he⟩ := still.get?_back hv
    exact .inl ⟨u, hu, SourceUnit.place_of_core he⟩
  | executes executes still ends =>
    obtain ⟨u, hu, he⟩ := executes.get?_back still hv
    refine .inl ⟨u, hu, ?_⟩
    cases hl : s.batchRun.results.lookup id with
    | some value =>
      rw [hl] at he
      exact ⟨congrArg (·.address) he, congrArg (·.kind) he, congrArg (·.origin) he⟩
    | none =>
      rw [hl] at he
      exact SourceUnit.place_of_core he

theorem resolver_addModule (p : Project) (address : String) :
    (p.addModule address).resolver = p.resolver := by
  simp only [Project.addModule]
  split <;> rfl

theorem Reads.resolver {m : Session Tree Value Listener} {id : UnitId}
    {u : SourceUnit Tree Value Listener} {tree : Tree} {imports : List UnitId}
    (h : Reads s m id u tree imports) : m.project.resolver = s.project.resolver := by
  rw [h.project, resolver_addModule]
  simp only [Project.setParsed]
  split <;> rfl

end Session

open Session in
theorem Move.turns {m n : Moment Tree Value Listener} (hmove : Move m n) (h : m.Sound) :
    Turns m.session n.session := by
  cases hmove with
  | @skip s => exact .still (.refl s)
  | @ask s id => exact .still (still_request s id)
  | @fetch s id => exact .still ((still_started s id).trans (still_fetched _ id))
  | @giveUp s id => exact .still (still_started s id)
  | @receive s c => exact .still (still_received s c)
  | @take s id ahead text => exact .still (still_withText s id text)
  | @refuse s id ahead e => exact .still (still_refused s id e)
  | misread unit sound =>
    dsimp only
    exact .still (still_misread unit sound)
  | @read s id ahead u unit sound fine =>
    obtain ⟨imports, hr⟩ := h.reads unit sound
    rw [Cache.dependencyIds_eq hr.unit] at fine
    exact .reads unit ((h.fits id u unit).loaded.mpr rfl) sound hr (.refl _) (.inl fine)
  | @reject s id failed ahead u unit sound =>
    obtain ⟨imports, hr⟩ := h.reads unit sound
    have hstill : Still (s.understood id) (s.rejected id failed) := still_failBatch _ _ _
    have hcalm : (s.rejected id failed).Calm := (h.falls_rejected unit sound).calm
    dsimp only
    exact .reads unit ((h.fits id u unit).loaded.mpr rfl) sound hr hstill (.inr hcalm)
  | pass reached => exact turns_checkBarrier (h.ready reached) reached

end UnitLoader
