import UnitLoader.Proofs.Agreement

/-! The ends of two sessions whose fetches were answered out of the same sources. Both
sessions have come to the same, or a unit that was not welcome has failed in both. -/

namespace UnitLoader

variable {Tree Value Listener : Type}

/-- What a unit has come to, whatever its number. -/
structure Ending (Value : Type) where
  address : String
  kind : Kind
  origin : Origin
  state : State
  result : Option Value
deriving DecidableEq, Repr

def SourceUnit.ending (u : SourceUnit Tree Value Listener) : Ending Value :=
  ⟨u.address, u.kind, u.origin, u.state, u.result⟩

/-- The execution of a unit, whatever its number. -/
structure CodeRun (Value : Type) where
  address : String
  kind : Kind
  code : String
  result : Except String Value

namespace Session

def endings (t : Session Tree Value Listener) : List (Ending Value) :=
  t.cache.units.map (·.ending)

def codeRun? (t : Session Tree Value Listener) : Event Value → Option (CodeRun Value)
  | .executed id code result =>
    (t.cache.get? id).map fun u => ⟨u.address, u.kind, code, result⟩
  | _ => none

/-- The executions since an earlier moment of a session, in order. -/
def codeRunsSince (s t : Session Tree Value Listener) : List (CodeRun Value) :=
  (t.history.drop s.history.length).filterMap t.codeRun?

/-- All units that were not settled before, or not there, are in one state. -/
def EndsIn (s t : Session Tree Value Listener) (state : State) : Prop :=
  ∀ id v, t.cache.get? id = some v →
    (∀ u, s.cache.get? id = some u → u.state.isSettled = false) → v.state = state

/-- Two sessions that have come from one to the same end. -/
structure Concur (s t t' : Session Tree Value Listener) : Prop where
  complete : EndsIn s t .complete
  complete' : EndsIn s t' .complete
  codeRuns : codeRunsSince s t = codeRunsSince s t'
  endings : t.endings.Perm t'.endings
  known : ∀ id : UnitId, id.index < s.cache.size →
    (t.cache.get? id).map (·.ending) = (t'.cache.get? id).map (·.ending)
  ns : t.ns = t'.ns
  project : t.project.Alike t'.project

variable {sources : Sources} {s m m' t t' : Session Tree Value Listener} {i j : UnitId}
  {told told' : List (Notification Value Listener)}

/-- A session in which all texts have arrived and its end after a run that nothing
stopped. -/
structure Ends (told : List (Notification Value Listener)) (m t : Session Tree Value Listener)
    (ran : Ran Value) : Prop where
  size : t.cache.size = m.cache.size
  unit : ∀ id u, m.cache.get? id = some u → t.cache.get? id =
    some (match ran.results.lookup id with | some value => u.completed value | none => u)
  all : ∀ id u, m.cache.get? id = some u →
    u.state.isSettled = true ∨ ∃ value, ran.results.lookup id = some value
  history : ∃ events, t.history = m.history ++ (events ++ ran.events) ∧
    ∀ e ∈ events, e.phase? ≠ some .evaluate
  ns : t.ns = ran.ns
  notices : told ++ t.outbox = m.outbox ++ ran.results.filterMap m.valueNote?

theorem codeRun?_eq_none {e : Event Value} (h : e.phase? ≠ some .evaluate) :
    t.codeRun? e = none := by
  cases e with
  | executed id code result => exact absurd rfl h
  | _ => rfl

theorem filterMap_range_getElem? {α : Type} (l : List α) :
    (List.range l.length).filterMap (l[·]?) = l := by
  induction l with
  | nil => rfl
  | cons a l ih =>
    rw [List.length_cons, List.range_succ_eq_map, List.filterMap_cons, List.filterMap_map]
    exact congrArg (a :: ·) ih

theorem endings_perm (t : Session Tree Value Listener) {c : Cache Tree Value Listener}
    (size : t.cache.size = c.size) :
    t.endings.Perm (c.evaluationOrder.filterMap fun id => (t.cache.get? id).map (·.ending)) := by
  have hids : t.cache.ids = c.ids := Cache.ids_eq_of_size_eq size
  have hall : t.cache.ids.filterMap t.cache.get? = t.cache.units := by
    rw [Cache.ids, List.filterMap_map]
    exact filterMap_range_getElem? t.cache.units
  have hperm : t.cache.ids.Perm c.evaluationOrder := by
    rw [hids, List.perm_ext_iff_of_nodup c.nodup_ids c.nodup_evaluationOrder]
    intro id
    rw [c.mem_ids_iff, c.mem_evaluationOrder]
  have hmap : t.endings = t.cache.ids.filterMap fun id => (t.cache.get? id).map (·.ending) := by
    rw [endings, ← hall, List.map_filterMap]
  rw [hmap]
  exact hperm.filterMap _

theorem Ends.endsIn {ran : Ran Value} (e : Ends told m t ran) (g : Grown sources s m) :
    EndsIn s t .complete := by
  intro id v hv hopen
  obtain ⟨u, hu⟩ := Cache.get?_of_index_lt (e.size ▸ Cache.index_lt_of_get? hv)
  have hunit := e.unit id u hu
  rcases e.all id u hu with hset | ⟨value, hvalue⟩
  · have := hopen u ((g.sameSettled id u hset).mpr hu)
    simp [hset] at this
  · rw [hvalue] at hunit
    obtain rfl := Option.some.inj (hv.symm.trans hunit)
    rfl

theorem Ends.codeRunsSince {ran : Ran Value} (e : Ends told m t ran) (g : Grown sources s m) :
    codeRunsSince s t = ran.events.filterMap t.codeRun? := by
  have hnone (events : List (Event Value)) (h : ∀ x ∈ events, x.phase? ≠ some .evaluate) :
      events.filterMap t.codeRun? = [] :=
    List.filterMap_eq_nil_iff.mpr fun x hx => codeRun?_eq_none (h x hx)
  obtain ⟨before, hb, hpb⟩ := g.history
  obtain ⟨after, ha, hpa⟩ := e.history
  rw [Session.codeRunsSince, ha, hb, List.append_assoc, List.drop_left, List.filterMap_append,
    List.filterMap_append, hnone before hpb, hnone after hpa, List.nil_append, List.nil_append]

section Twins

variable {ran ran' : Ran Value} (g : Grown sources s m) (g' : Grown sources s m')
  (arrived : m.Arrived) (arrived' : m'.Arrived) (together : Ran.Together (Twin s m m') ran ran')
  (e : Ends told m t ran) (e' : Ends told' m' t' ran')
include g g' arrived arrived' together e e'

theorem ending_twin (h : Twin s m m' i j) :
    (t.cache.get? i).map (·.ending) = (t'.cache.get? j).map (·.ending) := by
  obtain ⟨v, hv⟩ := g.get?_of_twin h
  have hw := g.twin_unit g' arrived arrived' h hv
  have hlookup : ran.results.lookup i = ran'.results.lookup j :=
    lookup_together together.results fun _ _ h' => h.unique h'
  rw [e.unit i v hv, e'.unit j _ hw, hlookup]
  cases ran'.results.lookup j <;> rfl

theorem codeRun?_twin {x y : Event Value} (h : Event.Together (Twin s m m') x y) :
    t.codeRun? x = t'.codeRun? y := by
  cases h with
  | @executed i j code result units =>
    have hending := ending_twin g g' arrived arrived' together e e' units
    have hmap := congrArg (Option.map fun x : Ending Value =>
      (⟨x.address, x.kind, code, result⟩ : CodeRun Value)) hending
    rw [Option.map_map, Option.map_map] at hmap
    exact hmap

theorem concur (hs : s.AtRest) (alike : t.project.Alike t'.project) : Concur s t t' where
  complete := e.endsIn g
  complete' := e'.endsIn g'
  codeRuns := by
    rw [e.codeRunsSince g, e'.codeRunsSince g', ← List.forall₂_eq_eq_eq]
    refine List.rel_filterMap (fun x y h => ?_) together.events
    rw [codeRun?_twin g g' arrived arrived' together e e' h]
    cases t'.codeRun? y with
    | none => exact .none
    | some run => exact .some rfl
  endings := by
    refine (t.endings_perm e.size).trans (.trans (.of_eq ?_) (t'.endings_perm e'.size).symm)
    rw [← List.forall₂_eq_eq_eq]
    refine List.rel_filterMap (fun i j h => ?_) (g.evaluationOrder g' hs arrived arrived')
    rw [ending_twin g g' arrived arrived' together e e' h]
    cases (t'.cache.get? j).map (·.ending) with
    | none => exact .none
    | some x => exact .some rfl
  known := fun id hid => ending_twin g g' arrived arrived' together e e' (.old hid)
  ns := by rw [e.ns, e'.ns, together.ns]
  project := alike

theorem notices_twins : told ++ t.outbox = told' ++ t'.outbox := by
  rw [e.notices, e'.notices, g.outbox, g'.outbox]
  congr 1
  rw [← List.forall₂_eq_eq_eq]
  refine List.rel_filterMap (fun x y h => ?_) together.results
  obtain ⟨i, value⟩ := x
  obtain ⟨j, value'⟩ := y
  obtain ⟨hij, rfl⟩ : Twin s m m' i j ∧ value = value' := h
  rw [valueNote?_twin g g' arrived arrived' hij]
  cases m.valueNote? (i, value) with
  | none => exact .none
  | some note => exact .some rfl

end Twins

/-! ### At the barrier -/

theorem arrived_of_pending (sound : Moment.Sound ⟨m, [], .nothing⟩)
    (hp : m.checkBarrier.pending = []) : m.Arrived := by
  intro id u hu hs
  have hpending : id ∈ m.pending :=
    (sound.fits id u hu).pending.mpr ⟨hs, fun _ he => by cases he⟩
  cases hb : m.barrierReached with
  | true => simp [(sound.ready hb).pending] at hpending
  | false =>
    rw [checkBarrier_of_closed hb] at hp
    simp [hp] at hpending

theorem Arrived.state (arrived : m.Arrived) (sound : Moment.Sound ⟨m, [], .nothing⟩)
    {u : SourceUnit Tree Value Listener} (hu : m.cache.get? i = some u) :
    u.state = .parsed ∨ u.state.isSettled = true := by
  have hf := sound.fits i u hu
  cases hs : u.state with
  | notStarted => cases hf.ahead hs
  | loading => exact absurd hs (arrived i u hu)
  | loaded => cases hf.loaded.mp hs
  | parsed => exact .inl rfl
  | transformed => exact absurd hs hf.proper.transformed
  | complete => exact .inr rfl
  | error => exact .inr rfl

theorem Arrived.barrierReached_iff (arrived : m.Arrived)
    (sound : Moment.Sound ⟨m, [], .nothing⟩) :
    m.barrierReached = true ↔ ∃ id, m.cache.isIn .parsed id = true := by
  have hall : m.cache.areAll State.isPastParsing = true := by
    refine Cache.areAll_iff.mpr fun id u hu => ?_
    rcases arrived.state sound hu with hs | hs
    · simp [hs, State.isPastParsing]
    · cases hc : u.state <;> simp_all [State.isSettled, State.isPastParsing, State.rank]
  simp only [Session.barrierReached, hall, Bool.true_and, Cache.hasAny_iff, Cache.isIn_iff,
    decide_eq_true_eq]

theorem ends_of_closed (arrived : m.Arrived) (sound : Moment.Sound ⟨m, [], .nothing⟩)
    (hb : m.barrierReached = false) (notices : told ++ t.outbox = m.outbox)
    (build : t.toBuild = m.toBuild) (ns : t.ns = m.ns) : Ends told m t ⟨[], [], m.ns, none⟩ where
  size := by rw [build]
  unit := by
    intro id u hu
    rw [build, hu]
    rfl
  all := by
    intro id u hu
    refine .inl ((arrived.state sound hu).resolve_left fun hs => ?_)
    have hreached := (arrived.barrierReached_iff sound).mpr ⟨id, Cache.isIn_iff.mpr ⟨u, hu, hs⟩⟩
    simp [hb] at hreached
  history := ⟨[], by simp [build], by simp⟩
  ns := ns
  notices := by rw [notices, List.filterMap_nil, List.append_nil]

theorem ends_of_passes (hr : m.Ready) (hb : m.barrierReached = true) (hp : m.Passes)
    (notices : told ++ t.outbox = m.checkBarrier.outbox)
    (build : t.toBuild = m.checkBarrier.toBuild) (ns : t.ns = m.checkBarrier.ns) :
    Ends told m t m.batchRun := by
  have hc := hr.completes hb hp
  refine ⟨by rw [build, hc.size], fun id u hu => ?_, fun id u hu => ?_, ?_, ns.trans hc.ns,
    notices.trans hc.outbox⟩
  · rw [build]
    exact hc.unit id u hu
  · exact (hr.state id u hu).symm.imp_right fun hs => hr.lookup_of_parsed hp hu hs
  · refine ⟨m.analyzedEvent :: m.lowerings.map fun t => .transformed t.1 t.2.address t.2.kind,
      ?_, fun x hx => ?_⟩
    · rw [build, hc.history, List.cons_append]
    · rcases List.mem_cons.mp hx with rfl | hx
      · simp [analyzedEvent, Event.phase?]
      · obtain ⟨t, -, rfl⟩ := List.mem_map.mp hx
        simp [Event.phase?]

/-! ### All orders -/

section Language

variable {s m m' t t' : Session Program UnitLoader.Value Listener}
  {told told' : List (Notification UnitLoader.Value Listener)}

theorem Grown.barrierReached (g : Grown sources s m) (g' : Grown sources s m') (hs : s.AtRest)
    (sound : Moment.Sound ⟨m, [], .nothing⟩) (sound' : Moment.Sound ⟨m', [], .nothing⟩)
    (arrived : m.Arrived) (arrived' : m'.Arrived) (hb : m.barrierReached = true) :
    m'.barrierReached = true := by
  rw [arrived.barrierReached_iff sound] at hb
  rw [arrived'.barrierReached_iff sound']
  obtain ⟨i, hi⟩ := hb
  obtain ⟨v, hv, -⟩ := Cache.isIn_iff.mp hi
  obtain ⟨j, hij⟩ := g.exists_twin g' hs arrived' (Cache.index_lt_of_get? hv)
  exact ⟨j, (isIn_twin g g' arrived arrived' hij .parsed).trans hi⟩

/-- Where all texts have arrived, both batches go through or both fall. -/
theorem Grown.concur [Text.Xid] (g : Grown sources s m) (g' : Grown sources s m') (hs : s.AtRest)
    (tools : s.tools = Lang.toolchain) (sound : Moment.Sound ⟨m, [], .nothing⟩)
    (sound' : Moment.Sound ⟨m', [], .nothing⟩) (arrived : m.Arrived) (arrived' : m'.Arrived)
    (notices : told ++ t.outbox = m.checkBarrier.outbox)
    (notices' : told' ++ t'.outbox = m'.checkBarrier.outbox)
    (build : t.toBuild = m.checkBarrier.toBuild) (build' : t'.toBuild = m'.checkBarrier.toBuild)
    (ns : t.ns = m.checkBarrier.ns) (ns' : t'.ns = m'.checkBarrier.ns) :
    (Concur s t t' ∧ told ++ t.outbox = told' ++ t'.outbox) ∨
      (EndsIn s t .error ∧ EndsIn s t' .error) := by
  have hreached := g.barrierReached g' hs sound sound' arrived arrived'
  have hreached' := g'.barrierReached g hs sound' sound arrived' arrived
  -- The barrier opens in both sessions or in neither, and so does each later stage.
  cases hb : m.barrierReached with
  | false =>
    have hb' : m'.barrierReached = false :=
      Bool.eq_false_iff.mpr fun hb' => by simp [hreached' hb'] at hb
    rw [checkBarrier_of_closed hb] at notices build ns
    rw [checkBarrier_of_closed hb'] at notices' build' ns'
    have e := ends_of_closed arrived sound hb notices build ns
    have e' := ends_of_closed arrived' sound' hb' notices' build' ns'
    have together : Ran.Together (Twin s m m') ⟨[], [], m.ns, none⟩ ⟨[], [], m'.ns, none⟩ :=
      ⟨.nil, .nil, g.ns.trans g'.ns.symm, .rfl⟩
    refine .inl ⟨Session.concur g g' arrived arrived' together e e' hs ?_,
      notices_twins g g' arrived arrived' together e e'⟩
    rw [build, build']
    exact g.alike g' hs arrived arrived'
  | true =>
    have hb' := hreached hb
    have hr := sound.ready hb
    have hr' := sound'.ready hb'
    by_cases hp : m.Passes
    · have hp' := passes_twin g g' hs arrived arrived' tools hp
      have e := ends_of_passes hr hb hp notices build ns
      have e' := ends_of_passes hr' hb' hp' notices' build' ns'
      have together := batchRun_twins g g' hs arrived arrived' tools
      refine .inl ⟨Session.concur g g' arrived arrived' together e e' hs ?_,
        notices_twins g g' arrived arrived' together e e'⟩
      rw [build, build', (hr.completes hb hp).project, (hr'.completes hb' hp').project]
      exact (analysis_twins g g' hs arrived arrived' tools).1
    · have hp' : ¬ m'.Passes := fun hp' => hp (passes_twin g' g hs arrived' arrived tools hp')
      have hf := ((hr.falls hb hp).falls.collapses g.sameSettled).failed
      have hf' := ((hr'.falls hb' hp').falls.collapses g'.sameSettled).failed
      rw [← build] at hf
      rw [← build'] at hf'
      exact .inr ⟨hf, hf'⟩

/-- Two sessions whose fetches were all answered out of the same sources have come to the
same end, whatever the order of the answers was. -/
theorem Answered.concur [Text.Xid] (h : Answered sources s told t) (h' : Answered sources s told' t')
    (hs : s.AtRest) (tools : s.tools = Lang.toolchain) (hp : t.pending = [])
    (hp' : t'.pending = []) :
    (Concur s t t' ∧ told ++ t.outbox = told' ++ t'.outbox) ∨
      (EndsIn s t .error ∧ EndsIn s t' .error) := by
  cases h with
  | going grown sound notices outside =>
    have arrived := arrived_of_pending sound (by rw [← hp, outside])
    cases h' with
    | going grown' sound' notices' outside' =>
      have arrived' := arrived_of_pending sound' (by rw [← hp', outside'])
      exact grown.concur grown' hs tools sound sound' arrived arrived' notices notices'
        (by rw [outside]) (by rw [outside']) (by rw [outside]) (by rw [outside'])
    | fallen grown' unit loading unwelcome collapses =>
      -- The unit that failed has a twin whose text has arrived, so that text was welcome.
      obtain ⟨text, htext, hw⟩ := grown'.welcome_of_arrived grown hs arrived unit loading
      exact absurd hw (unwelcome text htext)
  | fallen grown unit loading unwelcome collapses =>
    cases h' with
    | going grown' sound' notices' outside' =>
      have arrived' := arrived_of_pending sound' (by rw [← hp', outside'])
      obtain ⟨text, htext, hw⟩ := grown.welcome_of_arrived grown' hs arrived' unit loading
      exact absurd hw (unwelcome text htext)
    | fallen grown' unit' loading' unwelcome' collapses' =>
      exact .inr ⟨collapses.failed, collapses'.failed⟩

end Language

end Session

end UnitLoader
