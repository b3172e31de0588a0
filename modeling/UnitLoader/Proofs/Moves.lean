import Mathlib.Logic.Relation
import UnitLoader.Proofs.Barrier
import UnitLoader.Proofs.Discovery

/-! The work of a session in small moves. Each request takes the session through a
number of them; between two moves a session may have a unit in its hands, and units
ahead of it that it has found and not started. -/

namespace UnitLoader

/-- What a session is busy with. -/
inductive InHand
  | nothing
  | answer (id : UnitId) (result : Except FetchError String)
  | text (id : UnitId)

namespace InHand

def unit? : InHand → Option UnitId
  | nothing => none
  | answer id _ => some id
  | text id => some id

end InHand

structure Moment (Tree Value Listener : Type) where
  session : Session Tree Value Listener
  /-- Units that may not have been started yet. -/
  ahead : List UnitId
  hand : InHand

variable {Tree Value Listener : Type}

namespace Session

def started (s : Session Tree Value Listener) (id : UnitId) : Session Tree Value Listener :=
  s.modifyUnit id (·.advance .loading)

theorem cache_request_started (s : Session Tree Value Listener) (id : UnitId) :
    ((s.started id).request id).cache =
      s.cache.modify id fun u => { u.advance .loading with cancellable := true } := by
  simp only [request]
  split <;> exact s.cache.modify_modify id _ _

theorem pending_request (s : Session Tree Value Listener) (id : UnitId) :
    (s.request id).pending = s.pending ++ [id] := by
  simp only [request]
  split <;> rfl

theorem outbox_request (s : Session Tree Value Listener) (id : UnitId) :
    (s.request id).outbox = s.outbox := by
  simp only [request]
  split <;> rfl

theorem history_request (s : Session Tree Value Listener) (id : UnitId) :
    (s.request id).history = s.history ++ [.requested id (s.cache.addressOf id)] := by
  simp only [request]
  split <;> rfl

theorem sameSetting_request (s : Session Tree Value Listener) (id : UnitId) :
    SameSetting s (s.request id) := by
  simp only [request]
  split <;> exact ⟨rfl, rfl, rfl, rfl, rfl⟩

@[simp] theorem cache_started (s : Session Tree Value Listener) (id : UnitId) :
    (s.started id).cache = s.cache.modify id (·.advance .loading) :=
  rfl

def fetched (s : Session Tree Value Listener) (id : UnitId) : Session Tree Value Listener :=
  { s.record (.fetched id (s.cache.addressOf id)) with
    fetcher := s.fetcher.note (s.cache.addressOf id) }

@[simp] theorem cache_fetched (s : Session Tree Value Listener) (id : UnitId) :
    (s.fetched id).cache = s.cache :=
  rfl

def received (s : Session Tree Value Listener) (c : Completion) : Session Tree Value Listener :=
  ({ s with pending := s.pending.erase c.unit }.record (.received c.unit c.address)).modifyUnit
    c.unit fun u => { u with cancellable := false }

@[simp] theorem cache_received (s : Session Tree Value Listener) (c : Completion) :
    (s.received c).cache = s.cache.modify c.unit fun u => { u with cancellable := false } :=
  rfl

def withText (s : Session Tree Value Listener) (id : UnitId) (text : String) :
    Session Tree Value Listener :=
  s.modifyUnit id fun u => { u with text := some (s.translate text) }.advance .loaded

@[simp] theorem cache_withText (s : Session Tree Value Listener) (id : UnitId) (text : String) :
    (s.withText id text).cache =
      s.cache.modify id fun u => { u with text := some (s.translate text) }.advance .loaded :=
  rfl

def refused (s : Session Tree Value Listener) (id : UnitId) (e : FetchError) :
    Session Tree Value Listener :=
  (s.onBuild (·.report (.ofUnit .fetch (s.cache.addressOf id) e.text))).failBatch id
    (.fetch (s.cache.addressOf id) e.text)

def misread (s : Session Tree Value Listener) (id : UnitId) : Session Tree Value Listener :=
  let m := { s with toBuild := (s.toBuild.parse s.tools id).build }
  let error := LoadError.parse (s.cache.addressOf id) (m.reporter.messageSince s.reporter.mark)
  (m.modifyUnit id (·.recordError error)).abortAll error

def rejected (s : Session Tree Value Listener) (id failed : UnitId) :
    Session Tree Value Listener :=
  (s.understood id).failBatch id
    (.dependency (s.cache.addressOf id) ((s.understood id).cache.addressOf failed))

end Session

/-- The moves of a session. -/
inductive Move : Moment Tree Value Listener → Moment Tree Value Listener → Prop
  | skip {s : Session Tree Value Listener} {id : UnitId} {ahead : List UnitId}
      (old : s.cache.isIn .notStarted id = false) :
      Move ⟨s, id :: ahead, .nothing⟩ ⟨s, ahead, .nothing⟩
  | ask {s : Session Tree Value Listener} {id : UnitId} {ahead : List UnitId}
      (new : s.cache.isIn .notStarted id = true) (sync : s.sync = false) :
      Move ⟨s, id :: ahead, .nothing⟩ ⟨(s.started id).request id, ahead, .nothing⟩
  | fetch {s : Session Tree Value Listener} {id : UnitId} {ahead : List UnitId}
      (new : s.cache.isIn .notStarted id = true) (sync : s.sync = true) :
      Move ⟨s, id :: ahead, .nothing⟩
        ⟨(s.started id).fetched id, ahead,
          .answer id (s.fetcher.answer ((s.started id).cache.addressOf id))⟩
  | giveUp {s : Session Tree Value Listener} {id : UnitId} {ahead : List UnitId}
      (new : s.cache.isIn .notStarted id = true) (sync : s.sync = true) :
      Move ⟨s, id :: ahead, .nothing⟩
        ⟨s.started id, ahead,
          .answer id (.error (.abandoned ((s.started id).cache.addressOf id)))⟩
  | receive {s : Session Tree Value Listener} {c : Completion} {ahead : List UnitId}
      (waits : c.unit ∈ s.pending) (loading : s.cache.isIn .loading c.unit = true) :
      Move ⟨s, ahead, .nothing⟩ ⟨s.received c, ahead, .answer c.unit c.result⟩
  | take {s : Session Tree Value Listener} {id : UnitId} {ahead : List UnitId} {text : String} :
      Move ⟨s, ahead, .answer id (.ok text)⟩ ⟨s.withText id text, ahead, .text id⟩
  | refuse {s : Session Tree Value Listener} {id : UnitId} {ahead : List UnitId}
      {e : FetchError} :
      Move ⟨s, ahead, .answer id (.error e)⟩ ⟨s.refused id e, ahead, .nothing⟩
  | misread {s : Session Tree Value Listener} {id : UnitId} {ahead : List UnitId}
      {u : SourceUnit Tree Value Listener} (unit : s.cache.get? id = some u)
      (sound : s.isSound u = false) :
      Move ⟨s, ahead, .text id⟩ ⟨s.misread id, ahead, .nothing⟩
  | read {s : Session Tree Value Listener} {id : UnitId} {ahead : List UnitId}
      {u : SourceUnit Tree Value Listener} (unit : s.cache.get? id = some u)
      (sound : s.isSound u = true)
      (imports : ∀ d ∈ (s.understood id).cache.dependencyIds id,
        (s.understood id).cache.isIn .error d = false) :
      Move ⟨s, ahead, .text id⟩
        ⟨s.understood id, (s.understood id).cache.dependencyIds id ++ ahead, .nothing⟩
  | reject {s : Session Tree Value Listener} {id failed : UnitId} {ahead : List UnitId}
      {u : SourceUnit Tree Value Listener} (unit : s.cache.get? id = some u)
      (sound : s.isSound u = true)
      (imports : failed ∈ (s.understood id).cache.dependencyIds id)
      (error : (s.understood id).cache.isIn .error failed = true) :
      Move ⟨s, ahead, .text id⟩ ⟨s.rejected id failed, ahead, .nothing⟩
  | pass {s : Session Tree Value Listener} {ahead : List UnitId}
      (reached : s.barrierReached = true) :
      Move ⟨s, ahead, .nothing⟩ ⟨s.checkBarrier, ahead, .nothing⟩

abbrev Moves : Moment Tree Value Listener → Moment Tree Value Listener → Prop :=
  Relation.ReflTransGen Move

/-! ### The invariant -/

/-- A unit that has all that its state tells of it. -/
structure SourceUnit.Proper (u : SourceUnit Tree Value Listener) : Prop where
  transformed : u.state ≠ .transformed
  tree : u.state = .parsed → u.tree.isSome
  result : u.state = .complete → u.result.isSome
  error : u.state = .error → u.error.isSome
  dependencies : u.state.isPastParsing = false → u.dependencies = none
  listeners : u.state.isSettled = true → u.listeners = []

/-- A unit at a moment: it is being fetched, in hand or ahead if its state says so. -/
structure Moment.Fits (m : Moment Tree Value Listener) (id : UnitId)
    (u : SourceUnit Tree Value Listener) : Prop where
  proper : u.Proper
  pending : id ∈ m.session.pending ↔ u.state = .loading ∧ ∀ result, m.hand ≠ .answer id result
  cancellable : u.cancellable = true ↔ id ∈ m.session.pending
  ahead : u.state = .notStarted → id ∈ m.ahead
  loaded : u.state = .loaded ↔ m.hand = .text id
  loading : ∀ result, m.hand = .answer id result → u.state = .loading

/-- What holds at every moment. -/
structure Moment.Sound (m : Moment Tree Value Listener) : Prop where
  fits : ∀ id u, m.session.cache.get? id = some u → m.Fits id u
  nodup : m.session.pending.Nodup
  known : ∀ id ∈ m.session.pending, id.index < m.session.cache.size
  hand : ∀ id, m.hand.unit? = some id → id.index < m.session.cache.size
  outbox : ∀ n ∈ m.session.outbox, m.session.Shows n.unit n.outcome

theorem Moment.Fits.of_other {m n : Moment Tree Value Listener} {id : UnitId}
    {u : SourceUnit Tree Value Listener} (h : m.Fits id u) (hm : m.hand.unit? ≠ some id)
    (hn : n.hand.unit? ≠ some id) (pending : id ∈ n.session.pending ↔ id ∈ m.session.pending)
    (ahead : u.state = .notStarted → id ∈ m.ahead → id ∈ n.ahead) : n.Fits id u where
  proper := h.proper
  pending := by
    have hm' (result : Except FetchError String) : m.hand ≠ .answer id result := fun he =>
      hm (by rw [he]; rfl)
    have hn' (result : Except FetchError String) : n.hand ≠ .answer id result := fun he =>
      hn (by rw [he]; rfl)
    rw [pending, h.pending]
    exact and_congr_right fun _ => ⟨fun _ => hn', fun _ => hm'⟩
  cancellable := h.cancellable.trans pending.symm
  ahead := fun hs => ahead hs (h.ahead hs)
  loaded := by
    have hm' : m.hand ≠ .text id := fun he => hm (by rw [he]; rfl)
    have hn' : n.hand ≠ .text id := fun he => hn (by rw [he]; rfl)
    rw [h.loaded]
    exact iff_of_false hm' hn'
  loading := fun result he => absurd (by rw [he]; rfl) hn

namespace Session

theorem Shows.mono {s t : Session Tree Value Listener}
    (h : ∀ id u, s.cache.get? id = some u → u.state.isSettled = true → t.cache.get? id = some u)
    {id : UnitId} {outcome : Outcome Value} (hs : s.Shows id outcome) : t.Shows id outcome := by
  cases outcome with
  | complete value =>
    obtain ⟨u, hu, hc, hr⟩ := hs
    exact ⟨u, h id u hu (by simp [hc, State.isSettled]), hc, hr⟩
  | failed error =>
    obtain ⟨u, hu, he, hr⟩ := hs
    exact ⟨u, h id u hu (by simp [he, State.isSettled]), he, hr⟩

end Session

namespace Moment

variable {m n : Moment Tree Value Listener}

theorem Sound.isSettled_hand (h : m.Sound) {id : UnitId} {u : SourceUnit Tree Value Listener}
    (hu : m.session.cache.get? id = some u) (hh : m.hand.unit? = some id) :
    u.state.isSettled = false := by
  have hf := h.fits id u hu
  cases hm : m.hand with
  | nothing => simp [hm, InHand.unit?] at hh
  | answer j result =>
    simp only [hm, InHand.unit?, Option.some.injEq] at hh
    subst hh
    simp [hf.loading result hm, State.isSettled]
  | text j =>
    simp only [hm, InHand.unit?, Option.some.injEq] at hh
    subst hh
    simp [hf.loaded.mpr hm, State.isSettled]

theorem Sound.quiet (h : m.Sound) : m.session.Quiet := by
  intro id u hu hs
  have hf := h.fits id u hu
  refine ⟨hf.proper.listeners hs, Bool.eq_false_iff.mpr fun hc => ?_⟩
  simp [(hf.pending.mp (hf.cancellable.mp hc)).1, State.isSettled] at hs

theorem Sound.of_modify (h : m.Sound) {id : UnitId}
    {f : SourceUnit Tree Value Listener → SourceUnit Tree Value Listener}
    (cache : n.session.cache = m.session.cache.modify id f)
    (outbox : n.session.outbox = m.session.outbox)
    (unsettled : ∀ u, m.session.cache.get? id = some u → u.state.isSettled = false)
    (unit : ∀ u, m.session.cache.get? id = some u → n.Fits id (f u))
    (other : ∀ j u, id ≠ j → m.session.cache.get? j = some u → n.Fits j u)
    (nodup : n.session.pending.Nodup)
    (known : ∀ j ∈ n.session.pending, j = id ∨ j ∈ m.session.pending)
    (hand : ∀ j, n.hand.unit? = some j → j = id) (hid : id.index < m.session.cache.size) :
    n.Sound where
  fits := by
    intro j v hv
    rw [cache, Cache.get?_modify] at hv
    split at hv
    · next hj =>
      subst hj
      obtain ⟨u, hu, rfl⟩ := Option.map_eq_some_iff.mp hv
      exact unit u hu
    · next hj => exact other j v hj hv
  nodup := nodup
  known := by
    intro j hj
    rw [cache, Cache.size_modify]
    rcases known j hj with rfl | hj
    · exact hid
    · exact h.known j hj
  hand := by
    intro j hj
    rw [cache, Cache.size_modify, hand j hj]
    exact hid
  outbox := by
    intro note hn
    rw [outbox] at hn
    refine (h.outbox note hn).mono fun j u hu hs => ?_
    rw [cache, Cache.get?_modify_of_ne, hu]
    rintro rfl
    simp [unsettled u hu] at hs

/-- The failure of the batch leaves nothing to be done. -/
theorem Sound.of_falls (h : m.Sound) {t : Session Tree Value Listener}
    (hf : Session.Falls m.session t) (ahead : List UnitId) : Sound ⟨t, ahead, .nothing⟩ where
  fits := by
    intro id v hv
    obtain ⟨u, hu⟩ := Cache.get?_of_index_lt (hf.size ▸ Cache.index_lt_of_get? hv)
    obtain ⟨w, hw, huv⟩ := hf.unit id u hu
    obtain rfl := Option.some.inj (hv.symm.trans hw)
    have hfit := h.fits id u hu
    cases hs : u.state.isSettled with
    | true =>
      obtain rfl := huv.settled hs
      have hc := (h.quiet id v hu hs).2
      have hne (state : State) (hn : state.isSettled = false) : v.state ≠ state := by
        rintro rfl
        simp [hn] at hs
      exact
        { proper := hfit.proper
          pending := by simp [hf.pending, hne .loading rfl]
          cancellable := by simp [hf.pending, hc]
          ahead := fun he => absurd he (hne .notStarted rfl)
          loaded := by simp [hne .loaded rfl]
          loading := fun _ he => by cases he }
    | false =>
      obtain ⟨hstate, herror, hlisteners, hc⟩ := huv.failed hs
      exact
        { proper := ⟨by simp [hstate], by simp [hstate], by simp [hstate], fun _ => herror,
            by simp [hstate, State.isPastParsing, State.rank], fun _ => hlisteners⟩
          pending := by simp [hf.pending, hstate]
          cancellable := by simp [hf.pending, hc]
          ahead := by simp [hstate]
          loaded := by simp [hstate]
          loading := fun _ he => by cases he }
  nodup := by simp [hf.pending]
  known := by simp [hf.pending]
  hand := fun _ he => by cases he
  outbox := by
    obtain ⟨notes, hn, hshow⟩ := hf.outbox
    intro note hm
    rw [hn] at hm
    rcases List.mem_append.mp hm with hm | hm
    · refine (h.outbox note hm).mono fun id u hu hs => ?_
      obtain ⟨v, hv, huv⟩ := hf.unit id u hu
      rw [hv, huv.settled hs]
    · exact hshow note hm

end Moment

end UnitLoader
