import UnitLoader.Proofs.Turns

/-! What a failure and a batch at the barrier write into the history, event by event. A
failure calls off each fetch under way, once; a batch is analysed first, then lowered and
then run, as far as it gets. -/

namespace UnitLoader

variable {Tree Value Listener : Type}

namespace Event

/-- Whether an event is of a whole batch rather than of one unit on its way to the barrier. -/
def ofBatch : Event Value → Bool
  | analyzed _ _ => true
  | transformed _ _ _ => true
  | executed _ _ _ => true
  | _ => false

end Event

namespace Session

variable {s m t : Session Tree Value Listener}

def cancellations (s : Session Tree Value Listener) : List (Event Value) :=
  s.pending.map fun id => .cancelled id (s.cache.addressOf id)

/-- A session before and after some events and an abort that follows them. -/
structure CallsOff (s : Session Tree Value Listener) (events : List (Event Value))
    (t : Session Tree Value Listener) : Prop where
  history : t.history = s.history ++ (events ++ s.cancellations)
  fetcher : t.fetcher = s.pending.foldl Fetcher.cancel s.fetcher
  channel : t.channel = s.channel
  pending : t.pending = []

theorem cancelFetch_of_cancellable {id : UnitId} {u : SourceUnit Tree Value Listener}
    (hu : s.cache.get? id = some u) (hc : u.cancellable = true) :
    s.cancelFetch id =
      { s with
        cache := s.cache.modify id SourceUnit.uncancelled
        history := s.history ++ [.cancelled id u.address]
        fetcher := s.fetcher.cancel id } := by
  simp only [cancelFetch, hu, hc, if_true]
  rfl

theorem cancelFetch_foldl_of_cancellable {ids : List UnitId} (hn : ids.Nodup)
    (s : Session Tree Value Listener) (address : UnitId → String)
    (h : ∀ id ∈ ids, ∃ u, s.cache.get? id = some u ∧ u.cancellable = true ∧
      u.address = address id) :
    (ids.foldl cancelFetch s).history = s.history ++ ids.map (fun id => .cancelled id (address id)) ∧
      (ids.foldl cancelFetch s).fetcher = ids.foldl Fetcher.cancel s.fetcher := by
  induction ids generalizing s with
  | nil => simp
  | cons id ids ih =>
    obtain ⟨hid, hrest⟩ := List.nodup_cons.mp hn
    obtain ⟨u, hu, hc, ha⟩ := h id List.mem_cons_self
    have hstep := cancelFetch_of_cancellable hu hc
    have hother : ∀ j ∈ ids, ∃ v, (s.cancelFetch id).cache.get? j = some v ∧
        v.cancellable = true ∧ v.address = address j := by
      intro j hj
      obtain ⟨v, hv, hvc⟩ := h j (List.mem_cons_of_mem _ hj)
      refine ⟨v, ?_, hvc⟩
      rw [hstep, Cache.get?_modify_of_ne (by rintro rfl; exact hid hj), hv]
    obtain ⟨hh, hf⟩ := ih hrest (s.cancelFetch id) hother
    refine ⟨?_, ?_⟩
    · rw [List.foldl_cons, hh, hstep, ha]
      simp
    · rw [List.foldl_cons, hf, hstep]
      rfl

theorem callsOff_abortAll {events : List (Event Value)} (nodup : s.pending.Nodup)
    (history : m.history = s.history ++ events) (pending : m.pending = s.pending)
    (fetcher : m.fetcher = s.fetcher) (channel : m.channel = s.channel)
    (fetching : ∀ id ∈ s.pending, ∃ u, m.cache.get? id = some u ∧ u.cancellable = true ∧
      u.address = s.cache.addressOf id) (cause : LoadError) :
    CallsOff s events (m.abortAll cause) := by
  obtain ⟨hh, hf⟩ := cancelFetch_foldl_of_cancellable nodup { m with pending := [] }
    s.cache.addressOf fetching
  obtain ⟨f, es, he, -⟩ := cancelFetch_foldl s.pending { m with pending := [] }
  refine ⟨?_, ?_, ?_, ?_⟩
  all_goals simp only [abortAll, pending, abortUnit_foldl, notifyFailures_eq]
  · rw [hh]
    simp [history, cancellations]
  · rw [hf]
    simp [fetcher]
  · rw [he]
    exact channel
  · rw [he]

/-- Where no fetch is under way there is none to be called off. -/
theorem callsOff_of_idle {events : List (Event Value)} (idle : s.pending = [])
    (history : t.history = s.history ++ events) (fetcher : t.fetcher = s.fetcher)
    (channel : t.channel = s.channel) (pending : t.pending = []) : CallsOff s events t where
  history := by simp [history, cancellations, idle]
  fetcher := by simp [fetcher, idle]
  channel := channel
  pending := pending

theorem callsOff_abortAll_of_idle {events : List (Event Value)} (idle : s.pending = [])
    (history : m.history = s.history ++ events) (pending : m.pending = [])
    (fetcher : m.fetcher = s.fetcher) (channel : m.channel = s.channel) (cause : LoadError) :
    CallsOff s events (m.abortAll cause) :=
  callsOff_abortAll (by simp [idle]) history (pending.trans idle.symm) fetcher channel
    (by simp [idle]) cause

theorem callsOff_abortFailed {events : List (Event Value)} (idle : s.pending = [])
    (history : m.history = s.history ++ events) (pending : m.pending = [])
    (fetcher : m.fetcher = s.fetcher) (channel : m.channel = s.channel) (failed : List UnitId) :
    CallsOff s events (m.abortFailed failed) := by
  simp only [abortFailed]
  split
  · exact callsOff_abortAll_of_idle idle history pending fetcher channel _
  · rw [notifyFailures_eq]
    exact callsOff_of_idle idle history fetcher channel pending

end Session

open Session

/-! ### Failing a unit in hand -/

variable {s : Session Tree Value Listener} {ahead : List UnitId} {inHand : InHand} {id : UnitId}
  {u : SourceUnit Tree Value Listener}

/-- The units that wait for an answer are not in hand, so an abort finds them as they were. -/
theorem Moment.Sound.fetching {m : Session Tree Value Listener}
    (h : Moment.Sound ⟨s, ahead, inHand⟩) (hand : inHand.unit? = some id)
    (other : ∀ j v, id ≠ j → s.cache.get? j = some v → m.cache.get? j = some v) :
    ∀ j ∈ s.pending, ∃ v, m.cache.get? j = some v ∧ v.cancellable = true ∧
      v.address = s.cache.addressOf j := by
  intro j hj
  obtain ⟨v, hv⟩ := Cache.get?_of_index_lt (h.known j hj)
  have hfits := h.fits j v hv
  have hne : id ≠ j := by
    rintro rfl
    obtain ⟨hloading, hanswer⟩ := hfits.pending.mp hj
    cases hh : inHand with
    | nothing => simp [hh, InHand.unit?] at hand
    | answer i result =>
      simp only [hh, InHand.unit?, Option.some.injEq] at hand
      exact hanswer result (by rw [hh, hand])
    | text i =>
      simp only [hh, InHand.unit?, Option.some.injEq] at hand
      have := hfits.loaded.mpr (by rw [hh, hand])
      simp [hloading] at this
  exact ⟨v, other j v hne hv, hfits.cancellable.mpr hj, (Cache.addressOf_eq hv).symm⟩

theorem Moment.Sound.callsOff_failBatch {m : Session Tree Value Listener}
    {events : List (Event Value)} (h : Moment.Sound ⟨s, ahead, inHand⟩)
    (hand : inHand.unit? = some id)
    (history : m.history = s.history ++ events) (same : m = { s with toBuild := m.toBuild })
    (other : ∀ j v, id ≠ j → s.cache.get? j = some v → m.cache.get? j = some v)
    {f : SourceUnit Tree Value Listener → SourceUnit Tree Value Listener} (cause : LoadError) :
    CallsOff s events ((m.modifyUnit id f).abortAll cause) := by
  have hnodup : s.pending.Nodup := h.nodup
  have hfetching := h.fetching (m := m.modifyUnit id f) hand fun j v hj hv =>
    (Cache.get?_modify_of_ne hj).trans (other j v hj hv)
  exact callsOff_abortAll (m := m.modifyUnit id f) hnodup history (congrArg (·.pending) same)
    (congrArg (·.fetcher) same) (congrArg (·.channel) same) hfetching cause

theorem Moment.Sound.callsOff_refused (h : Moment.Sound ⟨s, ahead, inHand⟩)
    (hand : inHand.unit? = some id) (e : FetchError) : CallsOff s [] (s.refused id e) :=
  h.callsOff_failBatch (m := s.onBuild (·.report (.ofUnit .fetch (s.cache.addressOf id) e.text)))
    hand (List.append_nil _).symm rfl (fun _ _ _ hv => hv) _

theorem Moment.Sound.callsOff_misread (h : Moment.Sound ⟨s, ahead, .text id⟩)
    (hu : s.cache.get? id = some u) (sound : s.isSound u = false) :
    CallsOff s [.parsed id u.address u.kind] (s.misread id) := by
  obtain ⟨reporter, project, hb⟩ := parse_of_not_sound hu sound
  refine h.callsOff_failBatch (m := { s with toBuild := (s.toBuild.parse s.tools id).build })
    rfl ?_ rfl (fun j v _ hv => ?_) _
  · rw [hb]
  · rw [hb]
    exact hv

theorem Moment.Sound.callsOff_rejected (h : Moment.Sound ⟨s, ahead, .text id⟩)
    (hu : s.cache.get? id = some u) (sound : s.isSound u = true) (failed : UnitId) :
    CallsOff s [.parsed id u.address u.kind] (s.rejected id failed) := by
  obtain ⟨imports, hr⟩ := h.reads hu sound
  exact h.callsOff_failBatch rfl hr.history hr.same hr.other _

namespace Session

/-! ### A batch at the barrier -/

def loweredEvents (s : Session Tree Value Listener) : List (Event Value) :=
  s.lowerings.map fun t => .transformed t.1 t.2.address t.2.kind

/-- What a batch may write down. It is cut short by errors of its analysis, or by errors of a
transform or a namespace that is in use. -/
inductive Writes (s : Session Tree Value Listener) : List (Event Value) → Prop
  | analysed (errors : s.analysis.diagnostics.filter Diagnostic.isError ≠ []) :
      Writes s [s.analyzedEvent]
  | lowered (stopped : (s.lowerings.flatMap fun t =>
        (s.tools.transform t.2 s.analysis.value).diagnostics).filter Diagnostic.isError ≠ [] ∨
      s.held = true) : Writes s (s.analyzedEvent :: s.loweredEvents)
  | executed (executes : s.Executes) :
      Writes s (s.analyzedEvent :: (s.loweredEvents ++ s.batchRun.events))

theorem Executes.callsOff (h : s.Executes) (hb : s.barrierReached = true) :
    CallsOff s (s.analyzedEvent :: (s.loweredEvents ++ s.batchRun.events)) s.checkBarrier := by
  have hidle := h.ready.pending
  cases hf : s.batchRun.failed with
  | none =>
    have hc := h.ready.completes hb (h.passes hf)
    have hsame := hc.same
    exact callsOff_of_idle hidle hc.history (congrArg (·.fetcher) hsame)
      (congrArg (·.channel) hsame) ((congrArg (·.pending) hsame).trans hidle)
  | some failure =>
    obtain ⟨id, message⟩ := failure
    rw [checkBarrier_of_lowered h.ready hb h.analysed h.lowered, h.ready.evaluate_eq h.free, hf]
    have hhistory : s.executedSession.history =
        s.history ++ s.analyzedEvent :: (s.loweredEvents ++ s.batchRun.events) :=
      (congrArg (· ++ _) s.history_loweredSession).trans (by simp [loweredEvents])
    exact callsOff_abortAll_of_idle
      (m := (s.executedSession.onBuild (·.report (.ofUnit .evaluate
        (s.executedSession.cache.addressOf id) message))).modifyUnit id (·.fail (.execution
          (s.executedSession.cache.addressOf id) message))) hidle hhistory hidle rfl rfl _

theorem Ready.writes (h : s.Ready) (hb : s.barrierReached = true) :
    ∃ events, s.Writes events ∧ CallsOff s events s.checkBarrier := by
  have hidle := h.pending
  by_cases ha : s.analysis.diagnostics.filter Diagnostic.isError = []
  swap
  · obtain ⟨failed, cache, hc, -⟩ := checkBarrier_of_analysis_errors h hb ha
    refine ⟨_, .analysed ha, ?_⟩
    rw [hc]
    exact callsOff_abortFailed (m := { s.analysedSession with cache := cache }) hidle rfl hidle rfl
      rfl failed
  by_cases ht : (s.lowerings.flatMap fun t =>
      (s.tools.transform t.2 s.analysis.value).diagnostics).filter Diagnostic.isError = []
  swap
  · obtain ⟨failed, cache, hc, -⟩ := checkBarrier_of_lowering_errors h hb ha ht
    refine ⟨_, .lowered (.inl ht), ?_⟩
    rw [hc]
    exact callsOff_abortFailed (m := { s.loweredSession with cache := cache }) hidle
      s.history_loweredSession hidle rfl rfl failed
  cases hh : s.held with
  | false =>
    have he : s.Executes := ⟨h, ha, ht, hh⟩
    exact ⟨_, .executed he, he.callsOff hb⟩
  | true =>
    rw [checkBarrier_of_lowered h hb ha ht]
    simp only [evaluate]
    rw [show s.loweredSession.held = s.held from rfl, if_pos hh]
    exact ⟨_, .lowered (.inr hh),
      callsOff_abortAll_of_idle hidle s.history_loweredSession hidle rfl rfl _⟩

theorem ofBatch_cancellations (s : Session Tree Value Listener) :
    ∀ e ∈ s.cancellations, e.ofBatch = false := by
  intro e he
  obtain ⟨id, -, rfl⟩ := List.mem_map.mp he
  rfl

end Session

/-- Only a batch at the barrier writes down anything of batches. -/
theorem Move.writes {m n : Moment Tree Value Listener} (hmove : Move m n) (h : m.Sound) :
    ∃ events, n.session.history = m.session.history ++ events ∧
      ((∀ e ∈ events, e.ofBatch = false) ∨
        m.hand = .nothing ∧ m.session.barrierReached = true ∧
          n = ⟨m.session.checkBarrier, m.ahead, .nothing⟩ ∧ m.session.Writes events) := by
  have hcalled {events : List (Event Value)} {s t : Session Tree Value Listener}
      (hc : CallsOff s events t) (hevents : ∀ e ∈ events, e.ofBatch = false) :
      ∃ events, t.history = s.history ++ events ∧ ∀ e ∈ events, e.ofBatch = false := by
    refine ⟨_, hc.history, fun e he => ?_⟩
    rcases List.mem_append.mp he with he | he
    · exact hevents e he
    · exact s.ofBatch_cancellations e he
  suffices hunit : (∃ events, n.session.history = m.session.history ++ events ∧
      ∀ e ∈ events, e.ofBatch = false) ∨ m.hand = .nothing ∧ m.session.barrierReached = true ∧
        n = ⟨m.session.checkBarrier, m.ahead, .nothing⟩ by
    rcases hunit with ⟨events, he, hquiet⟩ | ⟨hhand, hreached, rfl⟩
    · exact ⟨events, he, .inl hquiet⟩
    · have hready : m.session.Ready := by
        obtain ⟨s, ahead, hand⟩ := m
        obtain rfl : hand = .nothing := hhand
        exact h.ready hreached
      obtain ⟨events, hw, hc⟩ := hready.writes hreached
      have hidle := hready.pending
      exact ⟨events, by simpa [cancellations, hidle] using hc.history,
        .inr ⟨hhand, hreached, rfl, hw⟩⟩
  cases hmove with
  | skip => exact .inl ⟨[], (List.append_nil _).symm, by simp⟩
  | @ask s id => exact .inl ⟨_, history_request (s.started id) id, by simp [Event.ofBatch]⟩
  | @fetch s id => exact .inl ⟨_, rfl, by simp [Event.ofBatch]⟩
  | giveUp => exact .inl ⟨[], (List.append_nil _).symm, by simp⟩
  | @receive s c => exact .inl ⟨[.received c.unit c.address], rfl, by simp [Event.ofBatch]⟩
  | take => exact .inl ⟨[], (List.append_nil _).symm, by simp⟩
  | @refuse s id ahead e =>
    dsimp only
    exact .inl (hcalled (h.callsOff_refused rfl e) (by simp))
  | misread unit sound =>
    dsimp only
    exact .inl (hcalled (h.callsOff_misread unit sound) (by simp [Event.ofBatch]))
  | read unit sound =>
    obtain ⟨imports, hr⟩ := h.reads unit sound
    exact .inl ⟨_, hr.history, by simp [Event.ofBatch]⟩
  | reject unit sound =>
    dsimp only
    exact .inl (hcalled (h.callsOff_rejected unit sound _) (by simp [Event.ofBatch]))
  | pass reached => exact .inr ⟨rfl, reached, rfl⟩

end UnitLoader
