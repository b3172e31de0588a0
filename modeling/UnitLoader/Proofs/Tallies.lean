import UnitLoader.Proofs.Counting

/-! The history of a unit counted against its state: a stage that is still ahead of the
unit has not been noted down, and none is noted down twice. -/

namespace UnitLoader

variable {Tree Value : Type}

/-- How often a unit has been through a stage that lies behind it. A unit that was given
its text is not fetched. -/
def SourceUnit.due {Listener : Type} (u : SourceUnit Tree Value Listener) (stage : Stage) : Nat :=
  if u.origin = .eval ∧ stage.ofFetch = true then 0 else 1

namespace Moment

variable {Listener : Type} {m n : Moment Tree Value Listener} {id : UnitId}
  {u : SourceUnit Tree Value Listener}

/-- How far a unit has got. Having its answer or its text in hand is half a step. -/
def progress (m : Moment Tree Value Listener) (id : UnitId) : Nat :=
  match m.session.cache.state? id with
  | none => 0
  | some state => 2 * state.rank + if m.hand.unit? = some id then 1 else 0

theorem progress_eq (hu : m.session.cache.get? id = some u) :
    m.progress id = 2 * u.state.rank + if m.hand.unit? = some id then 1 else 0 := by
  simp [progress, Cache.state?, hu]

theorem progress_of_absent (hu : m.session.cache.get? id = none) : m.progress id = 0 := by
  simp [progress, Cache.state?, hu]

/-- The history of a unit is that of a unit of its state. -/
structure Tallies (m : Moment Tree Value Listener) (id : UnitId) : Prop where
  once : ∀ stage, m.session.times stage id ≤ 1
  ahead : ∀ stage, m.progress id < stage.point → m.session.times stage id = 0
  behind : ∀ u, m.session.cache.get? id = some u → u.state ≠ .error →
    (∀ e, m.hand ≠ .answer id (.error e)) → ∀ stage, stage.point ≤ m.progress id →
      m.session.times stage id = u.due stage
  given : ∀ u, m.session.cache.get? id = some u → u.origin = .eval → 4 ≤ m.progress id

/-- What has to be seen to when something is added to the history: a stage is noted down
when the unit gets past its point. -/
theorem Tallies.add (h : m.Tallies id) {events : List (Event Value)}
    (history : n.session.history = m.session.history ++ events)
    (counts : ∀ stage, events.countP (Event.marks stage id) = 0 ∨
      events.countP (Event.marks stage id) = 1 ∧ m.progress id < stage.point ∧
        stage.point ≤ n.progress id)
    (progress : m.progress id ≤ n.progress id)
    (behind : ∀ v, n.session.cache.get? id = some v → v.state ≠ .error →
      (∀ e, n.hand ≠ .answer id (.error e)) →
        (∀ stage, stage.point ≤ m.progress id → m.session.times stage id = v.due stage) ∧
          ∀ stage, m.progress id < stage.point → stage.point ≤ n.progress id →
            events.countP (Event.marks stage id) = v.due stage)
    (given : ∀ v, n.session.cache.get? id = some v → v.origin = .eval → 4 ≤ n.progress id) :
    n.Tallies id := by
  have htimes (stage : Stage) : n.session.times stage id =
      m.session.times stage id + events.countP (Event.marks stage id) := by
    rw [Session.times, history, List.countP_append]
    rfl
  refine ⟨fun stage => ?_, fun stage hlt => ?_, fun v hv hne hhand stage hle => ?_, given⟩
  · have honce := h.once stage
    rw [htimes]
    rcases counts stage with hc | ⟨hc, hlt, -⟩
    · omega
    · have := h.ahead stage hlt
      omega
  · have hbefore := h.ahead stage (by omega)
    rw [htimes]
    rcases counts stage with hc | ⟨-, -, hle⟩
    · omega
    · omega
  · obtain ⟨hold, hnew⟩ := behind v hv hne hhand
    rw [htimes]
    rcases Nat.lt_or_ge (m.progress id) stage.point with hlt | hge
    · rw [h.ahead stage hlt, hnew stage hlt hle, Nat.zero_add]
    · rcases counts stage with hc | ⟨-, hlt, -⟩
      · rw [hold stage hge, hc, Nat.add_zero]
      · omega

/-- A unit that nothing is done with. -/
theorem Tallies.keep (h : m.Tallies id) {events : List (Event Value)}
    (history : n.session.history = m.session.history ++ events)
    (quiet : ∀ stage, events.countP (Event.marks stage id) = 0)
    (old : ∀ v, n.session.cache.get? id = some v →
      (∃ u, m.session.cache.get? id = some u ∧ v.state = u.state ∧ v.origin = u.origin) ∨
        m.session.cache.get? id = none ∧ v.state = .notStarted ∧ v.origin = .load)
    (lost : n.session.cache.get? id = none → m.session.cache.get? id = none)
    (before : m.hand.unit? ≠ some id) (after : n.hand.unit? ≠ some id) : n.Tallies id := by
  have hsame : n.progress id = m.progress id := by
    cases hv : n.session.cache.get? id with
    | none => rw [progress_of_absent hv, progress_of_absent (lost hv)]
    | some v =>
      rcases old v hv with ⟨u, hu, hs, -⟩ | ⟨hu, hs, -⟩
      · rw [progress_eq hv, progress_eq hu, hs, if_neg before, if_neg after]
      · rw [progress_eq hv, progress_of_absent hu, hs, if_neg after]
        rfl
  refine h.add history (fun stage => .inl (quiet stage)) hsame.ge (fun v hv hne hhand => ?_)
    fun v hv ho => ?_
  · refine ⟨fun stage hle => ?_, fun stage hlt hle => by omega⟩
    rcases old v hv with ⟨u, hu, hs, ho⟩ | ⟨hu, -, -⟩
    · have hnone (e : FetchError) : m.hand ≠ .answer id (.error e) := fun he =>
        before (by rw [he]; rfl)
      rw [h.behind u hu (hs ▸ hne) hnone stage hle, SourceUnit.due, SourceUnit.due, ho]
    · rw [progress_of_absent hu] at hle
      cases stage <;> simp [Stage.point] at hle
  · rcases old v hv with ⟨u, hu, -, he⟩ | ⟨-, -, he⟩
    · rw [hsame]
      exact h.given u hu (he ▸ ho)
    · cases he.symm.trans ho

theorem due_le_one (u : SourceUnit Tree Value Listener) (stage : Stage) : u.due stage ≤ 1 := by
  rw [SourceUnit.due]
  split <;> omega

/-- A unit that gets past the points of some stages, each of which is noted down. -/
theorem Tallies.pass (h : m.Tallies id) {events : List (Event Value)}
    (history : n.session.history = m.session.history ++ events)
    (hu : m.session.cache.get? id = some u) {v : SourceUnit Tree Value Listener}
    (hv : n.session.cache.get? id = some v) (origin : v.origin = u.origin)
    (fine : u.state ≠ .error) (answer : ∀ e, m.hand ≠ .answer id (.error e))
    (progress : m.progress id ≤ n.progress id)
    (counts : ∀ stage, events.countP (Event.marks stage id) =
      if m.progress id < stage.point ∧ stage.point ≤ n.progress id then u.due stage else 0) :
    n.Tallies id := by
  have hdue (stage : Stage) : v.due stage = u.due stage := by
    rw [SourceUnit.due, SourceUnit.due, origin]
  refine h.add history (fun stage => ?_) progress (fun w hw _ _ => ?_) fun w hw ho => ?_
  · have hle := due_le_one u stage
    rw [counts]
    split
    · next hpast =>
      obtain hz | ho : u.due stage = 0 ∨ u.due stage = 1 := by omega
      · exact .inl hz
      · exact .inr ⟨ho, hpast⟩
    · exact .inl rfl
  · obtain rfl := Option.some.inj (hv.symm.trans hw)
    refine ⟨fun stage hle => ?_, fun stage hlt hle => ?_⟩
    · rw [hdue]
      exact h.behind u hu fine answer stage hle
    · rw [hdue, counts, if_pos ⟨hlt, hle⟩]
  · obtain rfl := Option.some.inj (hv.symm.trans hw)
    exact (h.given u hu (origin ▸ ho)).trans progress

/-- A unit that a failure does not reach is the same, and any other has failed. -/
theorem Tallies.fall (h : m.Tallies id) {events : List (Event Value)}
    (history : n.session.history = m.session.history ++ events) (hand : n.hand = .nothing)
    (bound : m.progress id ≤ 12)
    (settled : ∀ u, m.session.cache.get? id = some u → u.state.isSettled = true →
      m.hand.unit? ≠ some id ∧ n.session.cache.get? id = some u)
    (unit : ∀ v, n.session.cache.get? id = some v →
      m.session.cache.get? id = some v ∧ v.state.isSettled = true ∨ v.state = .error)
    (lost : n.session.cache.get? id = none → m.session.cache.get? id = none)
    (counts : (∀ stage, events.countP (Event.marks stage id) = 0) ∨
      (∃ u, m.session.cache.get? id = some u ∧ u.state.isSettled = false) ∧
        ∀ stage, events.countP (Event.marks stage id) = 0 ∨
          events.countP (Event.marks stage id) = 1 ∧ m.progress id < stage.point) :
    n.Tallies id := by
  have hnone : n.hand.unit? ≠ some id := by
    simp [hand, InHand.unit?]
  by_cases hsettled : ∃ u, m.session.cache.get? id = some u ∧ u.state.isSettled = true
  · obtain ⟨u, hu, hs⟩ := hsettled
    obtain ⟨hfree, hv⟩ := settled u hu hs
    have hquiet : ∀ stage, events.countP (Event.marks stage id) = 0 := by
      refine counts.resolve_right ?_
      rintro ⟨⟨w, hw, hopen⟩, -⟩
      obtain rfl := Option.some.inj (hu.symm.trans hw)
      simp [hs] at hopen
    refine h.keep history hquiet (fun w hw => .inl ⟨u, hu, ?_⟩) lost hfree hnone
    rw [← Option.some.inj (hv.symm.trans hw)]
    exact ⟨rfl, rfl⟩
  · have herror (v : SourceUnit Tree Value Listener) (hv : n.session.cache.get? id = some v) :
        v.state = .error := by
      refine (unit v hv).resolve_left ?_
      rintro ⟨hu, hs⟩
      exact hsettled ⟨v, hu, hs⟩
    have hprogress (v : SourceUnit Tree Value Listener) (hv : n.session.cache.get? id = some v) :
        n.progress id = 12 := by
      rw [progress_eq hv, herror v hv, if_neg hnone]
      rfl
    have hpoint (stage : Stage) : stage.point ≤ 12 := by cases stage <;> simp [Stage.point]
    cases hv : n.session.cache.get? id with
    | none =>
      have hquiet : ∀ stage, events.countP (Event.marks stage id) = 0 := by
        refine counts.resolve_right ?_
        rintro ⟨⟨w, hw, -⟩, -⟩
        cases hw.symm.trans (lost hv)
      refine h.add history (fun stage => .inl (hquiet stage)) ?_ (by simp [hv]) (by simp [hv])
      rw [progress_of_absent (lost hv)]
      exact Nat.zero_le _
    | some v =>
      refine h.add history (fun stage => ?_) (by rw [hprogress v hv]; exact bound)
        (fun w hw hne => absurd (herror w hw) hne) fun w hw _ => by rw [hprogress w hw]; omega
      rw [hprogress v hv]
      rcases counts with hquiet | ⟨-, hcount⟩
      · exact .inl (hquiet stage)
      · exact (hcount stage).imp_right fun hc => ⟨hc.1, hc.2, hpoint stage⟩

end Moment

open Session

variable {Listener : Type}

theorem Moment.Sound.progress_le {m : Moment Tree Value Listener} (h : m.Sound) (id : UnitId) :
    m.progress id ≤ 12 := by
  cases hu : m.session.cache.get? id with
  | none =>
    rw [Moment.progress_of_absent hu]
    exact Nat.zero_le _
  | some u =>
    rw [Moment.progress_eq hu]
    split
    · next hhand =>
      have hopen := h.isSettled_hand hu hhand
      cases hs : u.state <;> simp_all [State.rank, State.isSettled]
    · cases u.state <;> simp [State.rank]

/-- A batch that fails: some events, and the fetches are called off. -/
theorem Move.tallies_of_fails {m n : Moment Tree Value Listener} (hmove : Move m n) (hm : m.Sound)
    (h : ∀ id, m.Tallies id) (events : List (Event Value)) (calm : n.session.Calm)
    (back : ∀ id v, n.session.cache.get? id = some v → v.state = .complete →
      m.session.cache.get? id = some v)
    (hand : n.hand = .nothing) (calls : CallsOff m.session events n.session)
    (counts : ∀ id, (∀ stage, events.countP (Event.marks stage id) = 0) ∨
      (∃ u, m.session.cache.get? id = some u ∧ u.state.isSettled = false) ∧
        ∀ stage, events.countP (Event.marks stage id) = 0 ∨
          events.countP (Event.marks stage id) = 1 ∧ m.progress id < stage.point) :
    ∀ id, n.Tallies id := by
  intro id
  have hdevelops := hmove.develops hm
  refine (h id).fall calls.history hand (hm.progress_le id) (fun u hu hs => ⟨fun hhand => ?_,
    hdevelops.keepsSettled id u hu hs⟩) (fun v hv => ?_) (fun hnone => ?_) ?_
  · have := hm.isSettled_hand hu hhand
    simp [hs] at this
  · have hs := calm.settled id v hv
    cases hstate : v.state with
    | complete => exact .inl ⟨back id v hv hstate, rfl⟩
    | error => exact .inr rfl
    | _ => simp [hstate, State.isSettled] at hs
  · cases hu : m.session.cache.get? id with
    | none => rfl
    | some u =>
      obtain ⟨v, hv, -⟩ := hdevelops.unit id u hu
      cases hnone.symm.trans hv
  · simpa only [List.countP_append, count_cancellations, Nat.add_zero] using counts id

namespace Moment

variable {m n : Moment Tree Value Listener} {id : UnitId} {u : SourceUnit Tree Value Listener}

/-- A unit that waits for its text is to be fetched. -/
theorem Tallies.due_of_progress (h : m.Tallies id) (hu : m.session.cache.get? id = some u)
    (hlt : m.progress id < 4) (stage : Stage) : u.due stage = 1 := by
  refine if_neg fun heval => ?_
  have := h.given u hu heval.1
  omega

/-- Only one unit is worked on, so it is enough to look at that one. -/
theorem tallies_of_modify (h : ∀ id, m.Tallies id) {events : List (Event Value)}
    {f : SourceUnit Tree Value Listener → SourceUnit Tree Value Listener}
    (history : n.session.history = m.session.history ++ events)
    (cache : n.session.cache = m.session.cache.modify id f)
    (quiet : ∀ j, j ≠ id → ∀ stage, events.countP (Event.marks stage j) = 0)
    (before : m.hand.unit? = none ∨ m.hand.unit? = some id)
    (after : n.hand.unit? = none ∨ n.hand.unit? = some id) (unit : n.Tallies id) :
    ∀ j, n.Tallies j := by
  intro j
  by_cases hj : j = id
  · rw [hj]
    exact unit
  · have hget : n.session.cache.get? j = m.session.cache.get? j := by
      rw [cache, Cache.get?_modify_of_ne (Ne.symm hj)]
    refine (h j).keep history (quiet j hj) (fun v hv => .inl ⟨v, hget ▸ hv, rfl, rfl⟩)
      (fun hv => hget ▸ hv) ?_ ?_
    · rcases before with he | he <;> simp [he, Ne.symm hj]
    · rcases after with he | he <;> simp [he, Ne.symm hj]

/-- A unit that is worked on and gets past the points of some stages. -/
theorem tallies_of_pass (h : ∀ id, m.Tallies id) (events : List (Event Value))
    {f : SourceUnit Tree Value Listener → SourceUnit Tree Value Listener}
    (history : n.session.history = m.session.history ++ events)
    (cache : n.session.cache = m.session.cache.modify id f)
    (quiet : ∀ j, j ≠ id → ∀ stage, events.countP (Event.marks stage j) = 0)
    (before : m.hand.unit? = none ∨ m.hand.unit? = some id)
    (after : n.hand.unit? = none ∨ n.hand.unit? = some id)
    (hu : m.session.cache.get? id = some u) (origin : (f u).origin = u.origin)
    (fine : u.state ≠ .error) (answer : ∀ e, m.hand ≠ .answer id (.error e)) {start goal : Nat}
    (starts : m.progress id = start) (gets : n.progress id = goal) (on : start ≤ goal)
    (counts : ∀ stage, events.countP (Event.marks stage id) =
      if start < stage.point ∧ stage.point ≤ goal then u.due stage else 0) :
    ∀ j, n.Tallies j := by
  have hv : n.session.cache.get? id = some (f u) := by
    rw [cache, Cache.get?_modify, if_pos rfl, hu, Option.map_some]
  subst starts gets
  exact tallies_of_modify h history cache quiet before after
    ((h id).pass history hu hv origin fine answer on counts)

end Moment

open Moment

section Fetching

variable {s : Session Tree Value Listener} {ahead ahead' : List UnitId} {id : UnitId}
  {u : SourceUnit Tree Value Listener}

theorem tallies_ask (h : ∀ id, Moment.Tallies ⟨s, ahead, .nothing⟩ id)
    (hu : s.cache.get? id = some u) (hs : u.state = .notStarted) :
    ∀ j, Moment.Tallies ⟨(s.started id).request id, ahead', .nothing⟩ j := by
  have hcache := cache_request_started s id
  have hstart : Moment.progress ⟨s, ahead, .nothing⟩ id = 0 := by
    simp [progress, Cache.state?, hu, hs, State.rank, InHand.unit?]
  have hdue := (h id).due_of_progress hu (by omega)
  refine tallies_of_pass h _ (history_request (s.started id) id) hcache
    (fun j hj stage => by simp [Event.marks, Ne.symm hj]) (.inl rfl) (.inl rfl) hu
    (SourceUnit.place_of_core (u.core_advance .loading)).2.2 (by simp [hs]) (by simp) hstart rfl
    (Nat.zero_le _) fun stage => ?_
  have hgoal : Moment.progress ⟨(s.started id).request id, ahead', .nothing⟩ id = 2 := by
    simp [progress, Cache.state?, hcache, Cache.get?_modify, hu, SourceUnit.advance, hs,
      State.mayBecome, State.rank, InHand.unit?]
  rw [hgoal, hdue]
  cases stage <;> simp [Event.marks, Stage.point]

theorem tallies_fetch (h : ∀ id, Moment.Tallies ⟨s, ahead, .nothing⟩ id)
    (hu : s.cache.get? id = some u) (hs : u.state = .notStarted)
    (result : Except FetchError String) :
    ∀ j, Moment.Tallies ⟨(s.started id).fetched id, ahead', .answer id result⟩ j := by
  have hcache : ((s.started id).fetched id).cache = s.cache.modify id (·.advance .loading) := rfl
  have hstart : Moment.progress ⟨s, ahead, .nothing⟩ id = 0 := by
    simp [progress, Cache.state?, hu, hs, State.rank, InHand.unit?]
  have hgoal : Moment.progress ⟨(s.started id).fetched id, ahead', .answer id result⟩ id = 3 := by
    simp [progress, Cache.state?, Cache.get?_modify, hu, SourceUnit.advance, hs,
      State.mayBecome, State.rank, InHand.unit?]
  have hdue := (h id).due_of_progress hu (by omega)
  refine tallies_of_pass h [.fetched id ((s.started id).cache.addressOf id)] rfl hcache
    (fun j hj stage => by simp [Event.marks, Ne.symm hj]) (.inl rfl) (.inr rfl) hu
    (SourceUnit.place_of_core (u.core_advance .loading)).2.2 (by simp [hs]) (by simp) hstart hgoal
    (Nat.zero_le _) fun stage => ?_
  rw [hdue]
  cases stage <;> simp [Event.marks, Stage.point, Stage.ofFetch]

/-- A unit that is given up was never asked for. -/
theorem tallies_giveUp (h : ∀ id, Moment.Tallies ⟨s, ahead, .nothing⟩ id)
    (hu : s.cache.get? id = some u) (hs : u.state = .notStarted) (e : FetchError) :
    ∀ j, Moment.Tallies ⟨s.started id, ahead', .answer id (.error e)⟩ j := by
  have hcache : (s.started id).cache = s.cache.modify id (·.advance .loading) := rfl
  have hstart : Moment.progress ⟨s, ahead, .nothing⟩ id = 0 := by
    simp [progress, Cache.state?, hu, hs, State.rank, InHand.unit?]
  have hv : (s.started id).cache.get? id = some { u with state := .loading } := by
    simp [Cache.get?_modify, hu, SourceUnit.advance, hs, State.mayBecome, State.rank]
  have hhistory : (s.started id).history = s.history ++ [] := (List.append_nil _).symm
  refine tallies_of_modify h hhistory hcache (fun _ _ _ => rfl) (.inl rfl) (.inr rfl) ?_
  refine (h id).add hhistory (fun _ => .inl rfl) (by omega) (fun v _ _ hnot => ?_) fun v hw ho => ?_
  · exact absurd rfl (hnot e)
  · obtain rfl := Option.some.inj (hv.symm.trans hw)
    have := (h id).given u hu ho
    omega

theorem tallies_receive (h : ∀ id, Moment.Tallies ⟨s, ahead, .nothing⟩ id) {c : Completion}
    (hu : s.cache.get? c.unit = some u) (hs : u.state = .loading) :
    ∀ j, Moment.Tallies ⟨s.received c, ahead, .answer c.unit c.result⟩ j := by
  have hcache : (s.received c).cache =
      s.cache.modify c.unit fun u => { u with cancellable := false } := rfl
  have hstart : Moment.progress ⟨s, ahead, .nothing⟩ c.unit = 2 := by
    simp [progress, Cache.state?, hu, hs, State.rank, InHand.unit?]
  have hgoal : Moment.progress ⟨s.received c, ahead, .answer c.unit c.result⟩ c.unit = 3 := by
    simp [progress, Cache.state?, Cache.get?_modify, hu, hs, State.rank, InHand.unit?]
  have hdue := (h c.unit).due_of_progress hu (by omega)
  refine tallies_of_pass h [.received c.unit c.address] rfl hcache
    (fun j hj stage => by simp [Event.marks, Ne.symm hj]) (.inl rfl) (.inr rfl) hu rfl
    (by simp [hs]) (by simp) hstart hgoal (by omega) fun stage => ?_
  rw [hdue]
  cases stage <;> simp [Event.marks, Stage.point]

theorem tallies_take {text : String}
    (h : ∀ j, Moment.Tallies ⟨s, ahead, .answer id (.ok text)⟩ j)
    (hu : s.cache.get? id = some u) (hs : u.state = .loading) :
    ∀ j, Moment.Tallies ⟨s.withText id text, ahead, .text id⟩ j := by
  have hcache : (s.withText id text).cache =
      s.cache.modify id fun u => { u with text := some (s.translate text) }.advance .loaded := rfl
  have hstart : Moment.progress ⟨s, ahead, .answer id (.ok text)⟩ id = 3 := by
    simp [progress, Cache.state?, hu, hs, State.rank, InHand.unit?]
  have hgoal : Moment.progress ⟨s.withText id text, ahead, .text id⟩ id = 5 := by
    simp [progress, Cache.state?, Cache.get?_modify, hu, SourceUnit.advance, hs,
      State.mayBecome, State.rank, InHand.unit?]
  refine tallies_of_pass h [] (List.append_nil _).symm hcache (fun _ _ _ => rfl)
    (.inr rfl) (.inr rfl) hu (SourceUnit.place_of_core (SourceUnit.core_advance _ .loaded)).2.2
    (by simp [hs]) (by simp) hstart hgoal (by omega) fun stage => ?_
  cases stage <;> simp [Stage.point]

/-- A unit whose text is in hand has not been parsed yet. -/
theorem Moment.Sound.count_parsed (hm : Moment.Sound ⟨s, ahead, .text id⟩)
    (hu : s.cache.get? id = some u) (j : UnitId) :
    (∀ stage, [(.parsed id u.address u.kind : Event Value)].countP (Event.marks stage j) = 0) ∨
      (∃ u, s.cache.get? j = some u ∧ u.state.isSettled = false) ∧ ∀ stage,
        [(.parsed id u.address u.kind : Event Value)].countP (Event.marks stage j) = 0 ∨
        [(.parsed id u.address u.kind : Event Value)].countP (Event.marks stage j) = 1 ∧
          Moment.progress ⟨s, ahead, .text id⟩ j < stage.point := by
  by_cases hj : id = j
  · subst hj
    have hs := (hm.fits id u hu).loaded.mpr rfl
    refine .inr ⟨⟨u, hu, by simp [hs, State.isSettled]⟩, fun stage => ?_⟩
    have hstart : Moment.progress ⟨s, ahead, .text id⟩ id = 5 := by
      simp [progress, Cache.state?, hu, hs, State.rank, InHand.unit?]
    rw [hstart]
    cases stage <;> simp [Event.marks, Stage.point]
  · exact .inl fun stage => by simp [Event.marks, hj]

/-- Reading a unit adds those that it imports, and nothing has been done with them. -/
theorem tallies_read {t : Session Tree Value Listener} {tree : Tree} {imports : List UnitId}
    (h : ∀ j, Moment.Tallies ⟨s, ahead, .text id⟩ j) (reads : Reads s t id u tree imports)
    (hu : s.cache.get? id = some u) (hs : u.state = .loaded) :
    ∀ j, Moment.Tallies ⟨t, ahead', .nothing⟩ j := by
  intro j
  by_cases hj : id = j
  · subst hj
    have hstart : Moment.progress ⟨s, ahead, .text id⟩ id = 5 := by
      simp [progress, Cache.state?, hu, hs, State.rank, InHand.unit?]
    have hgoal : Moment.progress ⟨t, ahead', .nothing⟩ id = 6 := by
      simp [progress, Cache.state?, reads.unit, State.rank, InHand.unit?]
    refine (h id).pass reads.history hu reads.unit rfl (by simp [hs]) (by simp) (by omega) fun stage => ?_
    rw [hstart, hgoal, SourceUnit.due]
    cases stage <;> simp [Event.marks, Stage.point, Stage.ofFetch]
  · refine (h j).keep reads.history (fun stage => by simp [Event.marks, hj]) (fun v hv => ?_)
      (fun hnone => ?_) (by simpa [InHand.unit?] using hj)
      (by simp [InHand.unit?])
    · cases hw : s.cache.get? j with
      | some w =>
        obtain rfl := Option.some.inj (hv.symm.trans (reads.other j w hj hw))
        exact .inl ⟨v, rfl, rfl, rfl⟩
      | none =>
        obtain ⟨-, address, kind, rfl⟩ := reads.fresh j v hv hw
        exact .inr ⟨rfl, rfl, rfl⟩
    · cases hw : s.cache.get? j with
      | none => rfl
      | some w => cases hnone.symm.trans (reads.other j w hj hw)

theorem tallies_completes {t : Session Tree Value Listener}
    (h : ∀ j, Moment.Tallies ⟨s, ahead, .nothing⟩ j) (completes : Completes s t) (ready : s.Ready)
    (passes : s.Passes) : ∀ j, Moment.Tallies ⟨t, ahead', .nothing⟩ j := by
  obtain ⟨events, history, hcount⟩ := completes.count ready passes
  intro j
  have hlost : t.cache.get? j = none → s.cache.get? j = none := by
    rw [Cache.get?_eq_none_iff, Cache.get?_eq_none_iff, completes.size]
    exact id
  by_cases hparsed : s.cache.isIn .parsed j = true
  · obtain ⟨w, hw, hs⟩ := Cache.isIn_iff.mp hparsed
    obtain ⟨value, hvalue⟩ := ready.lookup_of_parsed passes hw hs
    have hv := completes.unit j w hw
    rw [hvalue] at hv
    have hstart : Moment.progress ⟨s, ahead, .nothing⟩ j = 6 := by
      simp [progress, Cache.state?, hw, hs, State.rank, InHand.unit?]
    have hgoal : Moment.progress ⟨t, ahead', .nothing⟩ j = 10 := by
      simp [progress, Cache.state?, hv, SourceUnit.completed, State.rank, InHand.unit?]
    refine (h j).pass history hw hv rfl (by simp [hs]) (by simp) (by omega) fun stage => ?_
    rw [hstart, hgoal, hcount, SourceUnit.due]
    cases stage <;> simp [hparsed, Stage.point, Stage.ofFetch]
  · refine (h j).keep history (fun stage => by simp [hcount, hparsed]) (fun v hv => ?_) hlost
      (by simp [InHand.unit?]) (by simp [InHand.unit?])
    obtain ⟨w, hw⟩ := Cache.get?_of_index_lt (completes.size ▸ Cache.index_lt_of_get? hv)
    have hunit := completes.unit j w hw
    have hset : w.state.isSettled = true :=
      (ready.state j w hw).resolve_left fun hs => hparsed (Cache.isIn_iff.mpr ⟨w, hw, hs⟩)
    rw [ready.lookup_of_isSettled hw hset] at hunit
    obtain rfl := Option.some.inj (hv.symm.trans hunit)
    exact .inl ⟨v, hw, rfl, rfl⟩

end Fetching

theorem Move.tallies {m n : Moment Tree Value Listener} (hmove : Move m n) (hm : m.Sound)
    (h : ∀ id, m.Tallies id) : ∀ id, n.Tallies id := by
  have hfails := hmove.tallies_of_fails hm h
  cases hmove with
  | skip =>
    exact fun id => (h id).keep (List.append_nil _).symm (fun _ => rfl)
      (fun v hv => .inl ⟨v, hv, rfl, rfl⟩) (fun hnone => hnone) (by simp [InHand.unit?])
      (by simp [InHand.unit?])
  | ask new =>
    obtain ⟨u, hu, hs⟩ := Cache.isIn_iff.mp new
    exact tallies_ask h hu hs
  | fetch new =>
    obtain ⟨u, hu, hs⟩ := Cache.isIn_iff.mp new
    exact tallies_fetch h hu hs _
  | giveUp new =>
    obtain ⟨u, hu, hs⟩ := Cache.isIn_iff.mp new
    exact tallies_giveUp h hu hs _
  | receive waits loading =>
    obtain ⟨u, hu, hs⟩ := Cache.isIn_iff.mp loading
    exact tallies_receive h hu hs
  | take =>
    obtain ⟨u, hu, hs⟩ := Cache.isIn_iff.mp hm.loading
    exact tallies_take h hu hs
  | @refuse s id ahead e =>
    dsimp only at hfails
    have hfalls : Falls s (s.refused id e) := hm.falls_refused id e
    exact hfails _ hfalls.calm (fun _ _ => hfalls.back) rfl (hm.callsOff_refused rfl e)
      fun _ => .inl fun _ => rfl
  | @misread s id ahead u unit sound =>
    dsimp only at hfails
    have hfalls : Falls s (s.misread id) := hm.falls_misread unit sound
    exact hfails _ hfalls.calm (fun _ _ => hfalls.back) rfl (hm.callsOff_misread unit sound)
      (hm.count_parsed unit)
  | read unit sound =>
    obtain ⟨imports, hr⟩ := hm.reads unit sound
    exact tallies_read h hr unit ((hm.fits _ _ unit).loaded.mpr rfl)
  | @reject s id failed ahead u unit sound =>
    obtain ⟨imports, hr⟩ := hm.reads unit sound
    dsimp only at hfails
    have hfalls : Falls (s.understood id) (s.rejected id failed) := hm.falls_rejected unit sound
    exact hfails _ hfalls.calm
      (fun j v hv hc => hr.back (hfalls.back hv hc) (by simp [hc, State.isSettled])) rfl
      (hm.callsOff_rejected unit sound failed) (hm.count_parsed unit)
  | @pass s ahead reached =>
    have hready := hm.ready reached
    by_cases hp : s.Passes
    · exact tallies_completes h (hready.completes reached hp) hready hp
    · have hfalls : Falls s s.checkBarrier := (hready.falls reached hp).falls
      obtain ⟨events, hwrites, hcalls⟩ := hready.writes reached
      refine hfails _ hfalls.calm (fun _ _ => hfalls.back) rfl hcalls fun j => ?_
      have hcount := fun stage => hwrites.count hready stage j
      by_cases hparsed : s.cache.isIn .parsed j = true
      · obtain ⟨u, hu, hs⟩ := Cache.isIn_iff.mp hparsed
        refine .inr ⟨⟨u, hu, by simp [hs, State.isSettled]⟩, fun stage => ?_⟩
        have hstart : Moment.progress ⟨s, ahead, .nothing⟩ j = 6 := by
          simp [progress, Cache.state?, hu, hs, State.rank, InHand.unit?]
        have := hcount stage
        rw [hstart]
        split at this <;> omega
      · refine .inl fun stage => ?_
        simpa [hparsed] using hcount stage

theorem throughout_tallies :
    Throughout fun m : Moment Tree Value (UnitLoader.Listener Value) => ∀ id, m.Tallies id where
  apart := by
    intro s t hs happart id
    rw [happart]
    exact ⟨(hs id).once, (hs id).ahead, (hs id).behind, (hs id).given⟩
  listens := by
    intro s id u listener hu _ hs
    refine fun j => (hs j).keep (List.append_nil _).symm (fun _ => rfl) (fun v hv => .inl ?_)
      (fun hnone => ?_) (by simp [InHand.unit?]) (by simp [InHand.unit?])
    all_goals simp only [cache_listening, Cache.get?_modify] at *
    · split at hv
      · obtain ⟨w, hw, rfl⟩ := Option.map_eq_some_iff.mp hv
        exact ⟨w, hw, rfl, rfl⟩
      · exact ⟨v, hv, rfl, rfl⟩
    · split at hnone
      · exact Option.map_eq_none_iff.mp hnone
      · exact hnone
  enters := by
    intro s registered m _ hs henters id
    have hhistory : m.session.history = s.history ++ [] :=
      henters.prepares.history.trans (List.append_nil _).symm
    cases hu : s.cache.get? id with
    | some u =>
      obtain ⟨listeners, hv, hhand⟩ := henters.old hu
      refine (hs id).keep hhistory (fun _ => rfl) (fun v hv' => .inl ⟨u, hu, ?_⟩)
        (fun hnone => by cases hnone.symm.trans hv) (by simp [InHand.unit?]) hhand
      obtain rfl := Option.some.inj (hv.symm.trans hv')
      exact ⟨rfl, rfl⟩
    | none =>
      have hstart : Moment.progress ⟨s, [], .nothing⟩ id = 0 := progress_of_absent hu
      refine (hs id).add hhistory (fun _ => .inl rfl) (by omega) (fun v hv _ _ => ?_)
        fun v hv ho => ?_
      · refine ⟨fun stage hle => ?_, fun stage _ hle => ?_⟩
        · cases stage <;> simp [hstart, Stage.point] at hle
        · rw [progress_eq hv] at hle
          rcases (henters.new hv hu).2 with ⟨-, hstate, hh⟩ | ⟨ho, hstate, hh⟩
          all_goals rw [hstate, hh] at hle
          · cases stage <;> simp [Stage.point, State.rank, InHand.unit?] at hle
          · rw [SourceUnit.due]
            cases stage <;> simp [ho, Stage.point, Stage.ofFetch, State.rank, InHand.unit?] at hle ⊢
      · rw [progress_eq hv]
        rcases (henters.new hv hu).2 with ⟨hload, -, -⟩ | ⟨-, hstate, -⟩
        · cases hload.symm.trans ho
        · rw [hstate]
          simp only [State.rank]
          omega
  moves := fun m n hm hs hmove => hmove.tallies hm hs

end UnitLoader
