import UnitLoader.Proofs.Invariance

/-! What moves bring about. They keep every settled unit and every listener, a batch
ends in one way for all its units, and where a unit fails everything is settled. -/

namespace UnitLoader

variable {Tree Value Listener : Type}

/-- What a unit never loses, and a settled one never changes. -/
structure SourceUnit.Becomes (u v : SourceUnit Tree Value Listener) : Prop where
  address : v.address = u.address
  kind : v.kind = u.kind
  origin : v.origin = u.origin
  settled : u.state.isSettled = true → v = u

theorem SourceUnit.Becomes.refl (u : SourceUnit Tree Value Listener) : Becomes u u :=
  ⟨rfl, rfl, rfl, fun _ => rfl⟩

theorem SourceUnit.Becomes.trans {u v w : SourceUnit Tree Value Listener} (h : Becomes u v)
    (h' : Becomes v w) : Becomes u w where
  address := h'.address.trans h.address
  kind := h'.kind.trans h.kind
  origin := h'.origin.trans h.origin
  settled := by
    intro hs
    obtain rfl := h.settled hs
    exact h'.settled hs

namespace Session

/-- All is settled and nothing is fetched. -/
structure Calm (s : Session Tree Value Listener) : Prop where
  settled : ∀ id u, s.cache.get? id = some u → u.state.isSettled = true
  pending : s.pending = []

theorem Falls.calm {s t : Session Tree Value Listener} (h : Falls s t) : t.Calm where
  settled := by
    intro id v hv
    obtain ⟨u, hu⟩ := Cache.get?_of_index_lt (h.size ▸ Cache.index_lt_of_get? hv)
    obtain ⟨w, hw, huv⟩ := h.unit id u hu
    obtain rfl := Option.some.inj (hv.symm.trans hw)
    cases hs : u.state.isSettled with
    | true => rw [huv.settled hs, hs]
    | false => rw [(huv.failed hs).1]; rfl
  pending := h.pending

theorem Completes.calm {s t : Session Tree Value Listener} (h : Completes s t) (hr : s.Ready)
    (hp : s.Passes) : t.Calm where
  settled := by
    intro id v hv
    obtain ⟨u, hu⟩ := Cache.get?_of_index_lt (h.size ▸ Cache.index_lt_of_get? hv)
    have hunit := h.unit id u hu
    rcases hr.state id u hu with hs | hs
    · obtain ⟨value, hvalue⟩ := hr.lookup_of_parsed hp hu hs
      rw [hvalue] at hunit
      obtain rfl := Option.some.inj (hv.symm.trans hunit)
      rfl
    · rw [hr.lookup_of_isSettled hu hs] at hunit
      obtain rfl := Option.some.inj (hv.symm.trans hunit)
      exact hs
  pending := by rw [h.same, hr.pending]

theorem Calm.barrierReached {s : Session Tree Value Listener} (h : s.Calm) :
    s.barrierReached = false := by
  refine Bool.eq_false_iff.mpr fun hb => ?_
  simp only [Session.barrierReached, Bool.and_eq_true, Cache.hasAny_iff, decide_eq_true_eq] at hb
  obtain ⟨-, id, u, hu, hs⟩ := hb
  have := h.settled id u hu
  simp [hs, State.isSettled] at this

theorem calm_checkBarrier {s : Session Tree Value Listener} {ahead : List UnitId}
    (h : Moment.Sound ⟨s, ahead, .nothing⟩) (hb : s.barrierReached = true) :
    s.checkBarrier.Calm := by
  have hr := h.ready hb
  by_cases hp : s.Passes
  · exact (hr.completes hb hp).calm hr hp
  · exact (hr.falls hb hp).falls.calm

/-- Units that all came to the same end. -/
def EndAlike (s : Session Tree Value Listener) (ids : List UnitId) : Prop :=
  (∀ id ∈ ids, s.cache.isIn .complete id = true) ∨ ∀ id ∈ ids, s.cache.isIn .error id = true

/-- A session before and after some moves. -/
structure Develops (s t : Session Tree Value Listener) : Prop where
  setting : SameSetting s t
  unit : ∀ id u, s.cache.get? id = some u → ∃ v, t.cache.get? id = some v ∧ u.Becomes v
  waiting : ∀ id, (t.waitingFor id).Perm (s.waitingFor id)
  history : ∃ events, t.history = s.history ++ events ∧
    ∀ ids addresses, .analyzed ids addresses ∈ events → t.EndAlike ids
  failure : ∀ id v, t.cache.get? id = some v → v.state = .error →
    (∃ u, s.cache.get? id = some u ∧ u.state = .error) ∨ t.Calm

theorem Develops.refl (s : Session Tree Value Listener) : Develops s s where
  setting := .refl s
  unit := fun _ u hu => ⟨u, hu, .refl u⟩
  waiting := fun _ => .refl _
  history := ⟨[], by simp, by simp⟩
  failure := fun _ v hv he => .inl ⟨v, hv, he⟩

theorem Develops.endAlike {s t : Session Tree Value Listener} (h : Develops s t)
    {ids : List UnitId} (hs : s.EndAlike ids) : t.EndAlike ids := by
  have hkeep (state : State) (hset : state.isSettled = true) (id : UnitId)
      (hid : s.cache.isIn state id = true) : t.cache.isIn state id = true := by
    obtain ⟨u, hu, rfl⟩ := Cache.isIn_iff.mp hid
    obtain ⟨v, hv, huv⟩ := h.unit id u hu
    obtain rfl := huv.settled hset
    exact Cache.isIn_iff.mpr ⟨v, hv, rfl⟩
  exact hs.imp (fun hc id hid => hkeep .complete rfl id (hc id hid))
    fun he id hid => hkeep .error rfl id (he id hid)

theorem Develops.trans {s t w : Session Tree Value Listener} (h : Develops s t)
    (h' : Develops t w) (calm : t.Calm → w = t) : Develops s w where
  setting := h.setting.trans h'.setting
  unit := by
    intro id u hu
    obtain ⟨v, hv, huv⟩ := h.unit id u hu
    obtain ⟨x, hx, hvx⟩ := h'.unit id v hv
    exact ⟨x, hx, huv.trans hvx⟩
  waiting := fun id => (h'.waiting id).trans (h.waiting id)
  history := by
    obtain ⟨events, he, ha⟩ := h.history
    obtain ⟨events', he', ha'⟩ := h'.history
    refine ⟨events ++ events', by rw [he', he, List.append_assoc], fun ids addresses hm => ?_⟩
    rcases List.mem_append.mp hm with hm | hm
    · exact h'.endAlike (ha ids addresses hm)
    · exact ha' ids addresses hm
  failure := by
    intro id x hx he
    rcases h'.failure id x hx he with ⟨v, hv, hve⟩ | hc
    · rcases h.failure id v hv hve with hu | hc
      · exact .inl hu
      · exact .inr (calm hc ▸ hc)
    · exact .inr hc

/-! ### Each move by itself -/

theorem develops_modify {s t : Session Tree Value Listener} {id : UnitId}
    {f : SourceUnit Tree Value Listener → SourceUnit Tree Value Listener}
    (cache : t.cache = s.cache.modify id f)
    (unit : ∀ u, s.cache.get? id = some u → u.Becomes (f u) ∧ (f u).state ≠ .error)
    (listeners : ∀ u, (f u).listeners = u.listeners) (outbox : t.outbox = s.outbox)
    (setting : SameSetting s t)
    (history : ∃ events, t.history = s.history ++ events ∧ ∀ e ∈ events, e.isFetching = true) :
    Develops s t where
  setting := setting
  unit := by
    intro j u hu
    rw [cache, Cache.get?_modify]
    split
    · next hj =>
      subst hj
      exact ⟨f u, by simp [hu], (unit u hu).1⟩
    · exact ⟨u, hu, .refl u⟩
  waiting := fun j => .of_eq (waitingFor_eq (listenersOf_modify cache listeners j) outbox)
  history := by
    obtain ⟨events, he, hf⟩ := history
    refine ⟨events, he, fun ids addresses hm => ?_⟩
    have := hf _ hm
    simp [Event.isFetching] at this
  failure := by
    intro j v hv hs
    rw [cache, Cache.get?_modify] at hv
    split at hv
    · next hj =>
      subst hj
      obtain ⟨u, hu, rfl⟩ := Option.map_eq_some_iff.mp hv
      exact absurd hs (unit u hu).2
    · exact .inl ⟨v, hv, hs⟩

theorem Falls.develops {s t : Session Tree Value Listener} (h : Falls s t)
    (history : ∃ events, t.history = s.history ++ events ∧
      ∀ ids addresses, .analyzed ids addresses ∈ events → t.EndAlike ids) : Develops s t where
  setting := h.setting
  unit := by
    intro id u hu
    obtain ⟨v, hv, huv⟩ := h.unit id u hu
    exact ⟨v, hv, huv.address, huv.kind, huv.origin, huv.settled⟩
  waiting := h.waiting
  history := history
  failure := fun _ _ _ _ => .inr h.calm

theorem Falls.develops_of_abort {s m : Session Tree Value Listener} {cause : LoadError}
    (h : Falls s (m.abortAll cause))
    (history : ∃ events, m.history = s.history ++ events ∧ ∀ e ∈ events, e.isAnalysis = false) :
    Develops s (m.abortAll cause) := by
  obtain ⟨events, he, ha⟩ := history
  obtain ⟨further, hf, hfetching⟩ := history_abortAll m cause
  refine h.develops ⟨events ++ further, by rw [hf, he, List.append_assoc], fun ids addresses hm => ?_⟩
  rcases List.mem_append.mp hm with hm | hm
  · have := ha _ hm
    simp [Event.isAnalysis] at this
  · have := hfetching _ hm
    simp [Event.isFetching] at this

theorem mem_targets_fst {c : Cache Tree Value Listener} {id : UnitId}
    (h : id ∈ (Build.targets c).map (·.1)) : ∃ u, c.get? id = some u ∧ u.state = .parsed := by
  obtain ⟨⟨j, target⟩, hm, rfl⟩ := List.mem_map.mp h
  obtain ⟨u, tree, hu, hp, -⟩ := Build.mem_targets.mp hm
  exact ⟨u, hu, hp⟩

/-- The batch that is analysed ends in one way for all its units. -/
theorem develops_checkBarrier {s : Session Tree Value Listener} {ahead : List UnitId}
    (h : Moment.Sound ⟨s, ahead, .nothing⟩) (hb : s.barrierReached = true) :
    Develops s s.checkBarrier := by
  have hr := h.ready hb
  by_cases hp : s.Passes
  · have hc := hr.completes hb hp
    have hcomplete (id : UnitId) (u : SourceUnit Tree Value Listener)
        (hu : s.cache.get? id = some u) (hs : u.state = .parsed) :
        ∃ value, s.checkBarrier.cache.get? id = some (u.completed value) := by
      obtain ⟨value, hvalue⟩ := hr.lookup_of_parsed hp hu hs
      exact ⟨value, by rw [hc.unit id u hu, hvalue]⟩
    have hsettled (id : UnitId) (u : SourceUnit Tree Value Listener)
        (hu : s.cache.get? id = some u) (hs : u.state.isSettled = true) :
        s.checkBarrier.cache.get? id = some u := by
      rw [hc.unit id u hu, hr.lookup_of_isSettled hu hs]
    refine ⟨?_, fun id u hu => ?_, hc.waiting, ⟨_, hc.history, fun ids addresses hm => ?_⟩,
      fun _ _ _ _ => .inr (hc.calm hr hp)⟩
    · rw [hc.same]
      exact ⟨rfl, rfl, rfl, rfl, rfl⟩
    · rcases hr.state id u hu with hs | hs
      · obtain ⟨value, hv⟩ := hcomplete id u hu hs
        exact ⟨_, hv, rfl, rfl, rfl, fun he => by simp [hs, State.isSettled] at he⟩
      · exact ⟨u, hsettled id u hu hs, .refl u⟩
    · rcases List.mem_cons.mp hm with he | hm
      · obtain ⟨rfl, -⟩ := Event.analyzed.inj he
        refine .inl fun id hid => ?_
        obtain ⟨u, hu, hs⟩ := mem_targets_fst hid
        obtain ⟨value, hv⟩ := hcomplete id u hu hs
        exact Cache.isIn_iff.mpr ⟨_, hv, rfl⟩
      · rcases List.mem_append.mp hm with hm | hm
        · simpa [Event.isAnalysis] using s.isAnalysis_transformed _ hm
        · simpa [Event.isAnalysis] using isAnalysis_executed hm
  · have hf := hr.falls hb hp
    obtain ⟨rest, hh, hrest⟩ := hf.history
    refine hf.falls.develops ⟨_, hh, fun ids addresses hm => ?_⟩
    rcases List.mem_cons.mp hm with he | hm
    · obtain ⟨rfl, -⟩ := Event.analyzed.inj he
      refine .inr fun id hid => ?_
      obtain ⟨u, hu, hs⟩ := mem_targets_fst hid
      obtain ⟨v, hv, huv⟩ := hf.falls.unit id u hu
      exact Cache.isIn_iff.mpr ⟨v, hv, (huv.failed (by simp [hs, State.isSettled])).1⟩
    · simpa [Event.isAnalysis] using hrest _ hm

theorem Reads.develops {s t : Session Tree Value Listener} {id : UnitId}
    {u : SourceUnit Tree Value Listener} {tree : Tree} {imports : List UnitId}
    (h : Reads s t id u tree imports) (hu : s.cache.get? id = some u)
    (hs : u.state.isSettled = false) : Develops s t where
  setting := by
    rw [h.same]
    exact ⟨rfl, rfl, rfl, rfl, rfl⟩
  unit := by
    intro j v hv
    by_cases hj : id = j
    · subst hj
      obtain rfl := Option.some.inj (hu.symm.trans hv)
      exact ⟨_, h.unit, rfl, rfl, rfl, fun he => by simp [hs] at he⟩
    · exact ⟨v, h.other j v hj hv, .refl v⟩
  waiting := by
    intro j
    refine .of_eq (waitingFor_eq ?_ (by rw [h.same]))
    by_cases hj : id = j
    · subst hj
      rw [listenersOf_eq h.unit, listenersOf_eq hu]
    · cases hv : s.cache.get? j with
      | some v => rw [listenersOf_eq hv, listenersOf_eq (h.other j v hj hv)]
      | none =>
        cases hw : t.cache.get? j with
        | none => simp [listenersOf, hv, hw]
        | some w =>
          obtain ⟨-, address, kind, rfl⟩ := h.fresh j w hw hv
          simp [listenersOf, hv, hw, SourceUnit.new]
  history := ⟨_, h.history, by simp⟩
  failure := by
    intro j w hw he
    by_cases hj : id = j
    · subst hj
      obtain rfl := Option.some.inj (hw.symm.trans h.unit)
      simp at he
    · cases hv : s.cache.get? j with
      | some v =>
        obtain rfl := Option.some.inj (hw.symm.trans (h.other j v hj hv))
        exact .inl ⟨w, rfl, he⟩
      | none =>
        obtain ⟨-, address, kind, rfl⟩ := h.fresh j w hw hv
        simp [SourceUnit.new, Origin.initialState] at he

end Session

open Session

namespace SourceUnit

@[simp] theorem listeners_advance (u : SourceUnit Tree Value Listener) (state : State) :
    (u.advance state).listeners = u.listeners := by
  unfold advance; split <;> rfl

theorem becomes_advance {u : SourceUnit Tree Value Listener} (hs : u.state.isSettled = false)
    (state : State) : Becomes u (u.advance state) := by
  simp only [advance]
  split <;> exact ⟨rfl, rfl, rfl, fun he => absurd (he.symm.trans hs) (by simp)⟩

theorem state_advance_ne_error {u : SourceUnit Tree Value Listener}
    (hs : u.state.isSettled = false) {state : State} (hne : state ≠ .error) :
    (u.advance state).state ≠ .error := by
  simp only [advance]
  split
  · exact hne
  · intro he
    simp [he, State.isSettled] at hs

end SourceUnit

variable {s : Session Tree Value Listener}

theorem develops_started {t : Session Tree Value Listener} {id : UnitId}
    (new : s.cache.isIn .notStarted id = true)
    (cache : t.cache = s.cache.modify id (·.advance .loading)) (outbox : t.outbox = s.outbox)
    (setting : SameSetting s t)
    (history : ∃ events, t.history = s.history ++ events ∧ ∀ e ∈ events, e.isFetching = true) :
    Develops s t := by
  obtain ⟨u, hu, hs⟩ := Cache.isIn_iff.mp new
  refine develops_modify cache (fun v hv => ?_) (fun v => by simp) outbox setting history
  obtain rfl := Option.some.inj (hu.symm.trans hv)
  have hset : u.state.isSettled = false := by simp [hs, State.isSettled]
  exact ⟨SourceUnit.becomes_advance hset _, SourceUnit.state_advance_ne_error hset (by simp)⟩

theorem develops_request {id : UnitId} (new : s.cache.isIn .notStarted id = true) :
    Develops s ((s.started id).request id) := by
  obtain ⟨u, hu, hs⟩ := Cache.isIn_iff.mp new
  have hset : u.state.isSettled = false := by simp [hs, State.isSettled]
  have hsetting : SameSetting s (s.started id) := ⟨rfl, rfl, rfl, rfl, rfl⟩
  refine develops_modify (cache_request_started s id) (fun v hv => ?_)
    (fun v => SourceUnit.listeners_advance v _) (outbox_request _ id)
    (hsetting.trans (sameSetting_request _ id))
    ⟨[.requested id ((s.started id).cache.addressOf id)], history_request _ id,
      by simp [Event.isFetching]⟩
  obtain rfl := Option.some.inj (hu.symm.trans hv)
  have hb := SourceUnit.becomes_advance hset .loading
  exact ⟨⟨hb.address, hb.kind, hb.origin, fun he => absurd (he.symm.trans hset) (by simp)⟩,
    SourceUnit.state_advance_ne_error hset (by simp)⟩

theorem develops_received {c : Completion} (loading : s.cache.isIn .loading c.unit = true) :
    Develops s (s.received c) := by
  obtain ⟨u, hu, hs⟩ := Cache.isIn_iff.mp loading
  refine develops_modify (f := fun u => { u with cancellable := false }) rfl (fun v hv => ?_)
    (fun _ => rfl) rfl ⟨rfl, rfl, rfl, rfl, rfl⟩
    ⟨[.received c.unit c.address], rfl, by simp [Event.isFetching]⟩
  obtain rfl := Option.some.inj (hu.symm.trans hv)
  exact ⟨⟨rfl, rfl, rfl, fun he => by simp [hs, State.isSettled] at he⟩, by simp [hs]⟩

theorem develops_withText {id : UnitId} (loading : s.cache.isIn .loading id = true)
    (text : String) : Develops s (s.withText id text) := by
  obtain ⟨u, hu, hs⟩ := Cache.isIn_iff.mp loading
  refine develops_modify (f := fun u => { u with text := some (s.translate text) }.advance .loaded)
    rfl (fun v hv => ?_) (fun v => SourceUnit.listeners_advance _ _) rfl
    ⟨rfl, rfl, rfl, rfl, rfl⟩ ⟨[], (List.append_nil _).symm, by simp⟩
  obtain rfl := Option.some.inj (hu.symm.trans hv)
  have hset : ({ u with text := some (s.translate text) } :
      SourceUnit Tree Value Listener).state.isSettled = false := by simp [hs, State.isSettled]
  have hb := SourceUnit.becomes_advance hset .loaded
  exact ⟨⟨hb.address, hb.kind, hb.origin, fun he => by simp [hs, State.isSettled] at he⟩,
    SourceUnit.state_advance_ne_error hset (by simp)⟩

theorem Moment.Sound.isSettled_text {id : UnitId} {ahead : List UnitId}
    {u : SourceUnit Tree Value Listener} (h : Moment.Sound ⟨s, ahead, .text id⟩)
    (hu : s.cache.get? id = some u) : u.state.isSettled = false :=
  h.isSettled_hand hu rfl

theorem Moment.Sound.loading {id : UnitId} {ahead : List UnitId} {result : Except FetchError String}
    (h : Moment.Sound ⟨s, ahead, .answer id result⟩) : s.cache.isIn .loading id = true := by
  obtain ⟨u, hu⟩ := Cache.get?_of_index_lt (h.hand id rfl)
  exact Cache.isIn_iff.mpr ⟨u, hu, (h.fits id u hu).loading _ rfl⟩

theorem develops_misread {id : UnitId} {ahead : List UnitId} {u : SourceUnit Tree Value Listener}
    (h : Moment.Sound ⟨s, ahead, .text id⟩) (hu : s.cache.get? id = some u)
    (sound : s.isSound u = false) : Develops s (s.misread id) := by
  obtain ⟨reporter, project, hb⟩ := parse_of_not_sound hu sound
  refine (h.falls_misread hu sound).develops_of_abort
    ⟨[.parsed id u.address u.kind], ?_, by simp [Event.isAnalysis]⟩
  simp only [hb, modifyUnit, onBuild, Build.modify]

theorem develops_rejected {id failed : UnitId} {ahead : List UnitId}
    {u : SourceUnit Tree Value Listener} (h : Moment.Sound ⟨s, ahead, .text id⟩)
    (hu : s.cache.get? id = some u) (sound : s.isSound u = true) :
    Develops s (s.rejected id failed) := by
  obtain ⟨imports, hr⟩ := h.reads hu sound
  have hfalls : Develops (s.understood id) (s.rejected id failed) :=
    (h.falls_rejected hu sound).develops_of_abort ⟨[], (List.append_nil _).symm, by simp⟩
  refine (hr.develops hu (h.isSettled_text hu)).trans hfalls fun hc => ?_
  have := hc.settled id _ hr.unit
  simp [State.isSettled] at this

theorem Move.develops {m n : Moment Tree Value Listener} (hmove : Move m n) (h : m.Sound) :
    Develops m.session n.session := by
  cases hmove with
  | skip => exact .refl _
  | ask new => exact develops_request new
  | giveUp new =>
    exact develops_started new rfl rfl ⟨rfl, rfl, rfl, rfl, rfl⟩
      ⟨[], (List.append_nil _).symm, by simp⟩
  | @fetch s id ahead new =>
    exact develops_started new rfl rfl ⟨rfl, rfl, rfl, rfl, rfl⟩
      ⟨[.fetched id ((s.started id).cache.addressOf id)], rfl, by simp [Event.isFetching]⟩
  | receive _ loading => exact develops_received loading
  | take => exact develops_withText h.loading _
  | @refuse s id ahead e =>
    have hfalls : Falls s (s.refused id e) := h.falls_refused id e
    dsimp only
    exact hfalls.develops_of_abort ⟨[], (List.append_nil _).symm, by simp⟩
  | misread unit sound =>
    dsimp only
    exact develops_misread h unit sound
  | read unit sound =>
    obtain ⟨imports, hr⟩ := h.reads unit sound
    exact hr.develops unit (h.isSettled_text unit)
  | reject unit sound =>
    dsimp only
    exact develops_rejected h unit sound
  | pass reached => exact develops_checkBarrier h reached

/-- Where all is settled there is nothing to do but to look at what is ahead. -/
theorem Move.calm {m n : Moment Tree Value Listener} (hmove : Move m n) (h : m.Sound)
    (hc : m.session.Calm) : n.session = m.session := by
  have hnone {state : State} (hn : state.isSettled = false) (id : UnitId)
      (hid : m.session.cache.isIn state id = true) : False := by
    obtain ⟨u, hu, rfl⟩ := Cache.isIn_iff.mp hid
    have := hc.settled id u hu
    simp [hn] at this
  have hhand (id : UnitId) (hid : m.hand.unit? = some id) : False := by
    obtain ⟨u, hu⟩ := Cache.get?_of_index_lt (h.hand id hid)
    have := hc.settled id u hu
    simp [h.isSettled_hand hu hid] at this
  cases hmove with
  | skip => rfl
  | ask new => exact (hnone rfl _ new).elim
  | fetch new => exact (hnone rfl _ new).elim
  | giveUp new => exact (hnone rfl _ new).elim
  | receive _ loading => exact (hnone rfl _ loading).elim
  | take => exact (hhand _ rfl).elim
  | refuse => exact (hhand _ rfl).elim
  | misread => exact (hhand _ rfl).elim
  | read => exact (hhand _ rfl).elim
  | reject => exact (hhand _ rfl).elim
  | pass reached => exact absurd reached (by simp [hc.barrierReached])

theorem Moves.develops {m n : Moment Tree Value Listener} (hmoves : Moves m n) (h : m.Sound) :
    Develops m.session n.session := by
  induction hmoves with
  | refl => exact .refl _
  | @tail p q hp hmove ih =>
    have hsound : p.Sound := Moves.sound hp h
    exact ih.trans (hmove.develops hsound) (hmove.calm hsound)

end UnitLoader
