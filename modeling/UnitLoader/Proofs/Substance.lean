import UnitLoader.Proofs.Progress

/-! The substance of a session: where its units are from, what they were read as and what
they came to, the exports of its project and its namespace. Most of what a session does
leaves all of that alone, however far its units get on the way. -/

namespace UnitLoader

variable {Tree Value Listener : Type}

/-- Something done to the namespace of a session. -/
inductive Deed (Value : Type)
  | defined (name : String) (value : Value)
  | executed (id : UnitId) (code : String) (result : Except String Value)

def Event.deed? : Event Value → Option (Deed Value)
  | .executed id code result => some (.executed id code result)
  | _ => none

theorem Event.deed?_of_isFetching {e : Event Value} (h : e.isFetching = true) :
    e.deed? = none := by
  cases e <;> first | rfl | cases h

namespace SourceUnit

/-- A unit apart from how far it has got, how it failed and who waits for it. -/
def core (u : SourceUnit Tree Value Listener) : SourceUnit Tree Value Listener :=
  { u with
    state := .notStarted
    text := none
    transformed := none
    error := none
    listeners := []
    cancellable := false }

variable (u : SourceUnit Tree Value Listener)

@[simp] theorem core_advance (state : State) : (u.advance state).core = u.core := by
  simp only [advance]
  split <;> rfl

@[simp] theorem core_recordError (e : LoadError) : (u.recordError e).core = u.core := rfl

@[simp] theorem core_fail (e : LoadError) : (u.fail e).core = u.core := by
  simp only [fail]
  split <;> rfl

@[simp] theorem core_uncancelled : u.uncancelled.core = u.core := rfl

@[simp] theorem core_hushed : u.hushed.core = u.core := by
  simp only [hushed]
  split <;> rfl

@[simp] theorem core_answered : u.answered.core = u.core := by
  simp only [answered]
  split <;> rfl

@[simp] theorem core_lowered (tools : Toolchain Tree Value) (project : Project) :
    (u.lowered tools project).core = u.core := by
  simp only [lowered]
  split
  · rfl
  · rw [core_advance]
    rfl

theorem place_of_core {v w : SourceUnit Tree Value Listener} (h : v.core = w.core) :
    v.address = w.address ∧ v.kind = w.kind ∧ v.origin = w.origin :=
  ⟨congrArg (·.address) h, congrArg (·.kind) h, congrArg (·.origin) h⟩

end SourceUnit

namespace Cache

variable {c d : Cache Tree Value Listener}

def cores (c : Cache Tree Value Listener) : List (SourceUnit Tree Value Listener) :=
  c.units.map SourceUnit.core

theorem cores_getElem? (c : Cache Tree Value Listener) (id : UnitId) :
    c.cores[id.index]? = (c.get? id).map SourceUnit.core := by
  simp [cores, get?]

theorem cores_modify {f : SourceUnit Tree Value Listener → SourceUnit Tree Value Listener}
    (hf : ∀ u, (f u).core = u.core) (c : Cache Tree Value Listener) (id : UnitId) :
    (c.modify id f).cores = c.cores := by
  refine List.ext_getElem? fun i => ?_
  have hget := get?_modify c id ⟨i⟩ f
  rw [cores_getElem? _ ⟨i⟩, cores_getElem? _ ⟨i⟩, hget]
  split
  · rw [Option.map_map]
    exact congrArg (Option.map · _) (funext hf)
  · rfl

theorem cores_foldl {α : Type} {step : Cache Tree Value Listener → α → Cache Tree Value Listener}
    (hstep : ∀ c a, (step c a).cores = c.cores) (l : List α) (c : Cache Tree Value Listener) :
    (l.foldl step c).cores = c.cores := by
  induction l generalizing c with
  | nil => rfl
  | cons a l ih => rw [List.foldl_cons, ih, hstep]

theorem get?_of_cores_eq (h : d.cores = c.cores) {id : UnitId}
    {u : SourceUnit Tree Value Listener} (hu : c.get? id = some u) :
    ∃ v, d.get? id = some v ∧ v.core = u.core := by
  have he := (cores_getElem? d id).symm.trans ((congrArg (·[id.index]?) h).trans (cores_getElem? c id))
  rw [hu, Option.map_some] at he
  exact Option.map_eq_some_iff.mp he

end Cache

namespace Session

def deeds (s : Session Tree Value Listener) : List (Deed Value) :=
  s.history.filterMap Event.deed?

/-- Two sessions of the same substance. -/
structure Still (s t : Session Tree Value Listener) : Prop where
  cores : t.cache.cores = s.cache.cores
  deeds : t.deeds = s.deeds
  modules : t.project.modules = s.project.modules
  resolver : t.project.resolver = s.project.resolver
  ns : t.ns = s.ns
  tools : t.tools = s.tools
  baseAddress : t.baseAddress = s.baseAddress

variable {s t w : Session Tree Value Listener}

theorem Still.refl (s : Session Tree Value Listener) : Still s s :=
  ⟨rfl, rfl, rfl, rfl, rfl, rfl, rfl⟩

theorem Still.trans (h : Still s t) (h' : Still t w) : Still s w :=
  ⟨h'.cores.trans h.cores, h'.deeds.trans h.deeds, h'.modules.trans h.modules,
    h'.resolver.trans h.resolver, h'.ns.trans h.ns, h'.tools.trans h.tools,
    h'.baseAddress.trans h.baseAddress⟩

theorem deeds_append {events : List (Event Value)} (h : t.history = s.history ++ events)
    (quiet : ∀ e ∈ events, e.deed? = none) : t.deeds = s.deeds := by
  have hnil : events.filterMap Event.deed? = [] := List.filterMap_eq_nil_iff.mpr quiet
  rw [deeds, h, List.filterMap_append, hnil, List.append_nil]
  rfl

theorem still_modifyUnit {f : SourceUnit Tree Value Listener → SourceUnit Tree Value Listener}
    (hf : ∀ u, (f u).core = u.core) (s : Session Tree Value Listener) (id : UnitId) :
    Still s (s.modifyUnit id f) :=
  ⟨Cache.cores_modify hf s.cache id, rfl, rfl, rfl, rfl, rfl, rfl⟩

/-! ### Failing -/

theorem still_notifyFailures (s : Session Tree Value Listener) : Still s s.notifyFailures := by
  rw [notifyFailures_eq]
  have hcores := Cache.cores_foldl (fun c id =>
    Cache.cores_modify SourceUnit.core_hushed c id) s.cache.ids s.cache
  exact ⟨hcores, rfl, rfl, rfl, rfl, rfl, rfl⟩

theorem still_abortAll (s : Session Tree Value Listener) (cause : LoadError) :
    Still s (s.abortAll cause) := by
  obtain ⟨fetcher, events, he, hf⟩ := abortAll_eq s cause
  have huncancelled := Cache.cores_foldl (fun c id =>
    Cache.cores_modify SourceUnit.core_uncancelled c id) s.pending s.cache
  have hfailed := Cache.cores_foldl (fun c id => Cache.cores_modify
    (f := fun u => u.fail (.aborted u.address cause.rootCause)) (fun u => u.core_fail _) c id)
    s.cache.ids (s.pending.foldl (fun c id => c.modify id SourceUnit.uncancelled) s.cache)
  rw [he]
  refine Still.trans ?_ (still_notifyFailures _)
  refine ⟨hfailed.trans huncancelled, ?_, rfl, rfl, rfl, rfl, rfl⟩
  exact deeds_append rfl fun e hm => Event.deed?_of_isFetching (hf e hm)

theorem still_failBatch (s : Session Tree Value Listener) (id : UnitId) (error : LoadError) :
    Still s (s.failBatch id error) :=
  (still_modifyUnit (fun u => u.core_fail error) s id).trans (still_abortAll _ error)

theorem still_report (s : Session Tree Value Listener) (d : Diagnostic) :
    Still s (s.onBuild (·.report d)) :=
  ⟨rfl, rfl, rfl, rfl, rfl, rfl, rfl⟩

theorem still_abortFailed (s : Session Tree Value Listener) (failed : List UnitId) :
    Still s (s.abortFailed failed) := by
  simp only [abortFailed]
  split
  · exact still_abortAll s _
  · exact still_notifyFailures s

/-! ### Fetching -/

theorem still_request (s : Session Tree Value Listener) (id : UnitId) :
    Still s ((s.started id).request id) := by
  have hcores : ((s.started id).request id).cache.cores = s.cache.cores := by
    rw [cache_request_started]
    exact Cache.cores_modify (f := fun u => { u.advance .loading with cancellable := true })
      (fun u => (u.core_advance .loading)) s.cache id
  have hdeeds : ((s.started id).request id).deeds = s.deeds :=
    deeds_append (s := s) (history_request (s.started id) id) (by simp [Event.deed?])
  have hrest : ((s.started id).request id).project = s.project ∧
      ((s.started id).request id).ns = s.ns ∧ ((s.started id).request id).tools = s.tools ∧
      ((s.started id).request id).baseAddress = s.baseAddress := by
    simp only [request]
    split <;> exact ⟨rfl, rfl, rfl, rfl⟩
  exact ⟨hcores, hdeeds, by rw [hrest.1], by rw [hrest.1], hrest.2.1, hrest.2.2.1, hrest.2.2.2⟩

theorem still_started (s : Session Tree Value Listener) (id : UnitId) : Still s (s.started id) :=
  still_modifyUnit (fun u => u.core_advance .loading) s id

theorem still_fetched (s : Session Tree Value Listener) (id : UnitId) : Still s (s.fetched id) :=
  ⟨rfl, deeds_append rfl (by simp [Event.deed?]), rfl, rfl, rfl, rfl, rfl⟩

theorem still_received (s : Session Tree Value Listener) (c : Completion) :
    Still s (s.received c) := by
  have hrecorded : Still s ({ s with pending := s.pending.erase c.unit }.record
      (.received c.unit c.address)) :=
    ⟨rfl, deeds_append rfl (by simp [Event.deed?]), rfl, rfl, rfl, rfl, rfl⟩
  exact hrecorded.trans
    (still_modifyUnit SourceUnit.core_uncancelled _ c.unit)

theorem still_withText (s : Session Tree Value Listener) (id : UnitId) (text : String) :
    Still s (s.withText id text) :=
  still_modifyUnit (fun u : SourceUnit Tree Value Listener =>
    SourceUnit.core_advance { u with text := some (s.translate text) } .loaded) s id

theorem still_refused (s : Session Tree Value Listener) (id : UnitId) (e : FetchError) :
    Still s (s.refused id e) :=
  (still_report s _).trans (still_failBatch _ id _)

theorem still_misread {id : UnitId} {u : SourceUnit Tree Value Listener}
    (hu : s.cache.get? id = some u) (h : s.isSound u = false) : Still s (s.misread id) := by
  have hbad : (s.tools.parse ⟨u.address, u.text.getD ""⟩ u.kind).diagnostics.any
      Diagnostic.isError = true := by
    simpa [isSound] using h
  have hparse : Still s { s with toBuild := (s.toBuild.parse s.tools id).build } := by
    simp only [Build.parse, hu, hbad, if_true]
    exact ⟨rfl, deeds_append rfl (by simp [Event.deed?]), rfl, rfl, rfl, rfl, rfl⟩
  exact (hparse.trans (still_modifyUnit (fun u => u.core_recordError _) _ id)).trans
    (still_abortAll _ _)

end Session

end UnitLoader
