import UnitLoader.Proofs.Tallies

/-! Where the answer to a fetch is to be found. A request that waits is either parked with
the fetcher or has its answer in the channel; a request that was answered is in neither
place; and what there is for one that was called off can only be thrown away. -/

namespace UnitLoader

variable {Tree Value Listener : Type}

namespace Event

def asksFor (id : UnitId) : Event Value → Bool
  | requested i _ => i = id
  | _ => false

def answersTo (id : UnitId) : Event Value → Bool
  | received i _ => i = id
  | _ => false

def callsOff (id : UnitId) : Event Value → Bool
  | cancelled i _ => i = id
  | _ => false

/-- Whether an event is about a request to the fetcher. A blocking fetch is not. -/
def ofRequest : Event Value → Bool
  | requested _ _ => true
  | received _ _ => true
  | cancelled _ _ => true
  | _ => false

theorem ofRequest_of_ofBatch {e : Event Value} (h : e.ofBatch = true) : e.ofRequest = false := by
  cases e <;> simp_all [ofBatch, ofRequest]

theorem marks_of_asksFor {e : Event Value} {id : UnitId} (h : e.asksFor id = true) :
    e.marks .asked id = true := by
  cases e <;> simp_all [asksFor, marks]

end Event

/-- How many requests of a unit are parked and not called off. -/
def Fetcher.held (f : Fetcher) (id : UnitId) : Nat :=
  f.parked.countP fun p => p.unit = id && !p.cancelled

namespace Session

variable {s t : Session Tree Value Listener} {id : UnitId} {events : List (Event Value)}

def asked (s : Session Tree Value Listener) (id : UnitId) : Nat :=
  s.history.countP (Event.asksFor id)

def answered (s : Session Tree Value Listener) (id : UnitId) : Nat :=
  s.history.countP (Event.answersTo id)

def calledOff (s : Session Tree Value Listener) (id : UnitId) : Nat :=
  s.history.countP (Event.callsOff id)

/-- How many answers for a unit wait in the channel. -/
def queued (s : Session Tree Value Listener) (id : UnitId) : Nat :=
  s.channel.countP (·.unit = id)

theorem asked_le_times (s : Session Tree Value Listener) (id : UnitId) :
    s.asked id ≤ s.times .asked id :=
  List.countP_mono_left fun _ _ => Event.marks_of_asksFor

/-- The account of the requests of a unit. -/
structure Balanced (s : Session Tree Value Listener) (id : UnitId) : Prop where
  asked : s.asked id = s.pending.count id + s.answered id + s.calledOff id
  held : s.fetcher.held id ≤ s.pending.count id
  waits : s.pending.count id ≤ s.fetcher.held id + s.queued id
  answers : s.fetcher.held id + s.queued id ≤ s.pending.count id + s.calledOff id

theorem count_of_quiet (quiet : ∀ e ∈ events, e.ofRequest = false) (id : UnitId) :
    events.countP (Event.asksFor id) = 0 ∧ events.countP (Event.answersTo id) = 0 ∧
      events.countP (Event.callsOff id) = 0 := by
  have hnone (e : Event Value) (h : e.ofRequest = false) :
      e.asksFor id = false ∧ e.answersTo id = false ∧ e.callsOff id = false := by
    cases e <;> first | exact ⟨rfl, rfl, rfl⟩ | cases h
  simp only [List.countP_eq_zero, Bool.not_eq_true]
  exact ⟨fun e he => (hnone e (quiet e he)).1, fun e he => (hnone e (quiet e he)).2.1,
    fun e he => (hnone e (quiet e he)).2.2⟩

/-- What does not touch the fetches under way. -/
structure Unasked (s t : Session Tree Value Listener) (events : List (Event Value)) : Prop where
  history : t.history = s.history ++ events
  quiet : ∀ e ∈ events, e.ofRequest = false
  pending : t.pending = s.pending
  channel : t.channel = s.channel
  fetcher : t.fetcher = { s.fetcher with log := t.fetcher.log }

theorem Unasked.answered (h : Unasked s t events) (id : UnitId) :
    t.answered id = s.answered id := by
  simp [Session.answered, h.history, (count_of_quiet h.quiet id).2.1]

theorem Unasked.balanced (h : Unasked s t events) (hs : s.Balanced id) : t.Balanced id := by
  obtain ⟨hasked, hanswered, hcalled⟩ := count_of_quiet h.quiet id
  have he : t.asked id = s.asked id := by simp [asked, h.history, hasked]
  have hc : t.calledOff id = s.calledOff id := by simp [calledOff, h.history, hcalled]
  have hq : t.queued id = s.queued id := by simp [queued, h.channel]
  have hh : t.fetcher.held id = s.fetcher.held id := by
    rw [h.fetcher]
    rfl
  constructor
  · rw [he, hc, h.answered, h.pending]
    exact hs.asked
  · rw [hh, h.pending]
    exact hs.held
  · rw [hh, hq, h.pending]
    exact hs.waits
  · rw [hh, hq, hc, h.pending]
    exact hs.answers

/-! ### Asking -/

theorem request_cases (s : Session Tree Value Listener) (id : UnitId) :
    ((s.request id).channel = s.channel ∧
        (s.request id).fetcher.parked = s.fetcher.parked ++ [⟨id, s.cache.addressOf id, false⟩]) ∨
      ∃ result, (s.request id).channel = s.channel ++ [⟨id, s.cache.addressOf id, result⟩] ∧
        (s.request id).fetcher.parked = s.fetcher.parked := by
  simp only [request]
  split
  · exact .inr ⟨_, rfl, rfl⟩
  · exact .inl ⟨rfl, rfl⟩

theorem answered_request (s : Session Tree Value Listener) (asked id : UnitId) :
    (s.request asked).answered id = s.answered id := by
  simp [answered, history_request, Event.answersTo]

theorem Balanced.request (hs : s.Balanced id) (asked : UnitId) :
    (s.request asked).Balanced id := by
  have hanswered := s.answered_request asked id
  have hcalled : (s.request asked).calledOff id = s.calledOff id := by
    simp [calledOff, history_request, Event.callsOff]
  have hasked : (s.request asked).asked id = s.asked id + if asked = id then 1 else 0 := by
    simp [Session.asked, history_request, Event.asksFor, List.countP_singleton]
  have hpending : (s.request asked).pending.count id =
      s.pending.count id + if asked = id then 1 else 0 := by
    simp [pending_request, List.count_singleton]
  have hsum : (s.request asked).fetcher.held id + (s.request asked).queued id =
      s.fetcher.held id + s.queued id + if asked = id then 1 else 0 := by
    rcases s.request_cases asked with ⟨hc, hp⟩ | ⟨result, hc, hp⟩
    · simp only [Fetcher.held, queued, hc, hp, List.countP_append, List.countP_singleton]
      by_cases he : asked = id <;> simp [he]
      omega
    · simp only [Fetcher.held, queued, hc, hp, List.countP_append, List.countP_singleton]
      by_cases he : asked = id <;> simp [he]
      omega
  have hheld : (s.request asked).fetcher.held id ≤
      s.fetcher.held id + if asked = id then 1 else 0 := by
    rcases s.request_cases asked with ⟨-, hp⟩ | ⟨result, -, hp⟩
    · simp only [Fetcher.held, hp, List.countP_append, List.countP_singleton]
      by_cases he : asked = id <;> simp [he]
    · simp only [Fetcher.held, hp]
      omega
  obtain ⟨h1, h2, h3, h4⟩ := hs
  refine ⟨?_, ?_, ?_, ?_⟩
  · rw [hasked, hpending, hanswered, hcalled]
    omega
  · rw [hpending]
    omega
  · rw [hpending, hsum]
    omega
  · rw [hpending, hsum, hcalled]
    omega

/-! ### Calling off -/

theorem held_foldl_cancel (ids : List UnitId) (f : Fetcher) (id : UnitId) :
    (ids.foldl Fetcher.cancel f).held id = if id ∈ ids then 0 else f.held id := by
  induction ids generalizing f with
  | nil => simp
  | cons i ids ih =>
    have hstep : (f.cancel i).held id = if id = i then 0 else f.held id := by
      simp only [Fetcher.held, Fetcher.cancel, List.countP_map]
      split
      · next he =>
        subst he
        refine List.countP_eq_zero.mpr fun p _ => ?_
        by_cases hp : p.unit = id <;> simp [hp]
      · next hne =>
        refine List.countP_congr fun p _ => ?_
        by_cases hp : p.unit = i
        · simp [hp, Ne.symm hne]
        · simp [hp]
    rw [List.foldl_cons, ih, hstep]
    by_cases he : id = i <;> by_cases hmem : id ∈ ids <;> simp [he, hmem]

theorem CallsOff.answered (h : CallsOff s events t) (quiet : ∀ e ∈ events, e.ofRequest = false)
    (id : UnitId) : t.answered id = s.answered id := by
  have hnone : s.cancellations.countP (Event.answersTo id) = 0 := by
    simp [cancellations, List.countP_eq_zero, Event.answersTo]
  simp [Session.answered, h.history, (count_of_quiet quiet id).2.1, hnone]

theorem CallsOff.balanced (h : CallsOff s events t) (quiet : ∀ e ∈ events, e.ofRequest = false)
    (hs : s.Balanced id) : t.Balanced id := by
  obtain ⟨hasked, -, hcalled⟩ := count_of_quiet quiet id
  have ha : t.asked id = s.asked id := by
    have hnone : s.cancellations.countP (Event.asksFor id) = 0 := by
      simp [cancellations, List.countP_eq_zero, Event.asksFor]
    simp [asked, h.history, hasked, hnone]
  have hc : t.calledOff id = s.calledOff id + s.pending.count id := by
    have hall : s.cancellations.countP (Event.callsOff id) = s.pending.count id := by
      rw [cancellations, List.countP_map, List.count]
      exact List.countP_congr fun i _ => by simp [Event.callsOff]
    simp [calledOff, h.history, hcalled, hall]
  have hq : t.queued id = s.queued id := by simp [queued, h.channel]
  have hh : t.fetcher.held id = 0 := by
    rw [h.fetcher, held_foldl_cancel]
    split
    · rfl
    · next hnot =>
      have := hs.held
      rw [List.count_eq_zero_of_not_mem hnot] at this
      omega
  obtain ⟨h1, h2, h3, h4⟩ := hs
  have hp : t.pending.count id = 0 := by simp [h.pending]
  refine ⟨?_, ?_, ?_, ?_⟩
  · rw [ha, hp, h.answered quiet, hc]
    omega
  · omega
  · omega
  · omega

/-! ### What arrives -/

theorem answered_received (s : Session Tree Value Listener) (c : Completion) (id : UnitId) :
    (s.received c).answered id = s.answered id + if c.unit = id then 1 else 0 := by
  have hhistory : (s.received c).history = s.history ++ [.received c.unit c.address] := rfl
  simp [answered, hhistory, Event.answersTo, List.countP_singleton]

/-- Taking an answer that somebody waits for. -/
theorem Balanced.received (hs : s.Balanced id) {c : Completion} {rest : List Completion}
    (channel : s.channel = c :: rest) (waits : c.unit ∈ s.pending) (once : s.asked id ≤ 1) :
    (({ s with channel := rest } : Session Tree Value Listener).received c).Balanced id := by
  generalize hr : ({ s with channel := rest } : Session Tree Value Listener).received c = r
  have hhistory : r.history = s.history ++ [.received c.unit c.address] := by
    rw [← hr]
    rfl
  have hasked : r.asked id = s.asked id := by simp [Session.asked, hhistory, Event.asksFor]
  have hcalled : r.calledOff id = s.calledOff id := by simp [calledOff, hhistory, Event.callsOff]
  have hanswered : r.answered id = s.answered id + if c.unit = id then 1 else 0 := by
    rw [← hr]
    exact answered_received { s with channel := rest } c id
  have hpending : r.pending.count id = s.pending.count id - if c.unit = id then 1 else 0 := by
    rw [← hr]
    show (s.pending.erase c.unit).count id = _
    simp only [List.count_erase, beq_iff_eq]
  have hchannel : r.channel = rest := by
    rw [← hr]
    rfl
  have hqueued : s.queued id = r.queued id + if c.unit = id then 1 else 0 := by
    rw [queued, channel, List.countP_cons, queued, hchannel]
    simp only [decide_eq_true_eq]
  have hheld : r.fetcher.held id = s.fetcher.held id := by
    rw [← hr]
    rfl
  have hcount : c.unit = id → 1 ≤ s.pending.count id := by
    rintro rfl
    exact List.one_le_count_iff.mpr waits
  obtain ⟨h1, h2, h3, h4⟩ := hs
  by_cases he : c.unit = id
  · have := hcount he
    simp only [he, if_true] at hanswered hpending hqueued
    exact ⟨by omega, by omega, by omega, by omega⟩
  · simp only [he, if_false] at hanswered hpending hqueued
    exact ⟨by omega, by omega, by omega, by omega⟩

/-- Throwing an answer away that nobody waits for. -/
theorem Balanced.discard (hs : s.Balanced id) {c : Completion} {rest : List Completion}
    (channel : s.channel = c :: rest) (unwanted : c.unit ∉ s.pending) :
    ({ s with channel := rest } : Session Tree Value Listener).Balanced id := by
  have hqueued : s.queued id =
      queued ({ s with channel := rest } : Session Tree Value Listener) id +
        if c.unit = id then 1 else 0 := by
    rw [queued, channel, List.countP_cons, queued]
    simp only [decide_eq_true_eq]
  have hcount : c.unit = id → s.pending.count id = 0 := by
    rintro rfl
    exact List.count_eq_zero_of_not_mem unwanted
  obtain ⟨h1, h2, h3, h4⟩ := hs
  refine ⟨h1, h2, ?_, ?_⟩
  · show s.pending.count id ≤ s.fetcher.held id + _
    by_cases he : c.unit = id
    · have := hcount he
      omega
    · simp only [he, if_false] at hqueued
      omega
  · show s.fetcher.held id + _ ≤ s.pending.count id + s.calledOff id
    omega

end Session

/-- Answers to parked requests go to the channel, but not if the request was called off. -/
theorem Session.Balanced.beside {s t : Session Tree Value (UnitLoader.Listener Value)}
    {id : UnitId} (hs : s.Balanced id) (change : Session.Beside s t) : t.Balanced id := by
  obtain ⟨same, ⟨answered, hparked, hchannel⟩, -⟩ := change
  have hparts : s.fetcher.held id =
      answered.countP (fun a => a.1.unit = id && !a.1.cancelled) + t.fetcher.held id := by
    rw [Fetcher.held, ← hparked.countP_eq, List.countP_append, List.countP_map]
    rfl
  have hqueued : t.queued id =
      s.queued id + answered.countP fun a => a.1.unit = id && !a.1.cancelled := by
    rw [queued, hchannel, List.countP_append, queued, List.countP_filterMap]
    congr 1
    refine List.countP_congr fun a _ => ?_
    cases hc : a.1.cancelled <;> simp [Fetcher.completionOf, hc]
  have hhistory : t.history = s.history := congrArg (·.history) same
  have hpending : t.pending = s.pending := congrArg (·.pending) same
  have hasked : t.asked id = s.asked id := by
    rw [Session.asked, Session.asked, hhistory]
  have hanswered : t.answered id = s.answered id := by
    rw [Session.answered, Session.answered, hhistory]
  have hcalled : t.calledOff id = s.calledOff id := by rw [calledOff, calledOff, hhistory]
  obtain ⟨h1, h2, h3, h4⟩ := hs
  refine ⟨?_, ?_, ?_, ?_⟩
  · rw [hasked, hpending, hanswered, hcalled]
    exact h1
  all_goals rw [hpending]; omega

open Session

/-! ### A session's own moves -/

/-- What a move of the session's own does to the fetches under way. -/
inductive Effect (s : Session Tree Value Listener) : Session Tree Value Listener → Prop
  | unasked {t : Session Tree Value Listener} {events : List (Event Value)}
      (same : Unasked s t events) : Effect s t
  | asks {id : UnitId} (new : s.cache.isIn .notStarted id = true) :
      Effect s ((s.started id).request id)
  | callsOff {t : Session Tree Value Listener} {events : List (Event Value)}
      (quiet : ∀ e ∈ events, e.ofRequest = false) (calls : CallsOff s events t) : Effect s t

theorem Session.Writes.ofBatch {s : Session Tree Value Listener} {events : List (Event Value)}
    (h : s.Writes events) : ∀ e ∈ events, e.ofBatch = true := by
  have hlowered : ∀ e ∈ s.loweredEvents, e.ofBatch = true := by
    intro e he
    obtain ⟨t, -, rfl⟩ := List.mem_map.mp he
    rfl
  cases h with
  | analysed => simp [analyzedEvent, Event.ofBatch]
  | lowered => exact List.forall_mem_cons.mpr ⟨rfl, hlowered⟩
  | executed =>
    refine List.forall_mem_cons.mpr ⟨rfl, fun e he => ?_⟩
    rcases List.mem_append.mp he with he | he
    · exact hlowered e he
    · obtain ⟨id, code, result, rfl⟩ := Toolchain.executed_of_mem_events he
      rfl

theorem Work.effect {m n : Moment Tree Value Listener} (h : Work m n) (hm : m.Sound) :
    Effect m.session n.session := by
  obtain ⟨hmove, hown⟩ := h
  cases hmove with
  | skip => exact .unasked ⟨(List.append_nil _).symm, by simp, rfl, rfl, rfl⟩
  | ask new => exact .asks new
  | fetch => exact .unasked ⟨rfl, by simp [Event.ofRequest], rfl, rfl, rfl⟩
  | giveUp => exact .unasked ⟨(List.append_nil _).symm, by simp, rfl, rfl, rfl⟩
  | @receive s c ahead waits loading =>
    obtain ⟨u, hu, hs⟩ := Cache.isIn_iff.mp loading
    obtain ⟨v, hv, hs'⟩ := Cache.isIn_iff.mp (hown rfl _ _ rfl)
    obtain rfl := Option.some.inj (hu.symm.trans hv)
    cases hs.symm.trans hs'
  | take => exact .unasked ⟨(List.append_nil _).symm, by simp, rfl, rfl, rfl⟩
  | refuse =>
    dsimp only
    exact .callsOff (by simp) (hm.callsOff_refused rfl _)
  | misread unit sound =>
    dsimp only
    exact .callsOff (by simp [Event.ofRequest]) (hm.callsOff_misread unit sound)
  | read unit sound =>
    obtain ⟨imports, hr⟩ := hm.reads unit sound
    have hsame := hr.same
    have hfetcher : (Session.understood _ _).fetcher = _ := congrArg (·.fetcher) hsame
    exact .unasked ⟨hr.history, by simp [Event.ofRequest], congrArg (·.pending) hsame,
      congrArg (·.channel) hsame, by rw [hfetcher]⟩
  | reject unit sound =>
    dsimp only
    exact .callsOff (by simp [Event.ofRequest]) (hm.callsOff_rejected unit sound _)
  | pass reached =>
    obtain ⟨events, hwrites, hcalls⟩ := (hm.ready reached).writes reached
    exact .callsOff (fun e he => Event.ofRequest_of_ofBatch (hwrites.ofBatch e he)) hcalls

theorem Effect.answered {s t : Session Tree Value Listener} (h : Effect s t) (id : UnitId) :
    t.answered id = s.answered id := by
  cases h with
  | unasked same => exact same.answered id
  | @asks i new => exact (s.started i).answered_request i id
  | callsOff quiet calls => exact calls.answered quiet id

theorem Effect.balanced {s t : Session Tree Value Listener} (h : Effect s t) {id : UnitId}
    (hs : s.Balanced id) : t.Balanced id := by
  cases h with
  | unasked same => exact same.balanced hs
  | @asks i new =>
    have hstarted : (s.started i).Balanced id := ⟨hs.asked, hs.held, hs.waits, hs.answers⟩
    exact hstarted.request i
  | callsOff quiet calls => exact calls.balanced quiet hs

/-- A run of a session's own moves keeps the accounts and takes no answer. -/
theorem Works.balanced {m n : Moment Tree Value Listener} (h : Works m n) (hm : m.Sound)
    {id : UnitId} (hb : m.session.Balanced id) :
    n.session.Balanced id ∧ n.session.answered id = m.session.answered id := by
  suffices hall : n.Sound ∧ n.session.Balanced id ∧ n.session.answered id = m.session.answered id
    from hall.2
  induction h with
  | refl => exact ⟨hm, hb, rfl⟩
  | tail _ hwork ih =>
    obtain ⟨hp, hbalanced, hanswered⟩ := ih
    have heffect := hwork.effect hp
    exact ⟨hwork.move.sound hp, heffect.balanced hbalanced,
      (heffect.answered id).trans hanswered⟩

end UnitLoader
