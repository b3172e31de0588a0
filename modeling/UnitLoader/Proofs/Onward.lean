import UnitLoader.Proofs.Lasting

/-! How a host goes on. A loader joins it, a step is asked of it, it does a task, or an
answer is collected. No loader ever leaves, and of its session all is kept that lasts. -/

namespace UnitLoader

variable {Tree Value : Type}

namespace Host

variable {ledger : List Registration} {h h' : Host Tree Value} {loader : Nat}

/-- One of the changes that runs consist of. -/
inductive Goes (h : Host Tree Value) : Host Tree Value → Prop
  | join {h' : Host Tree Value} (setup : Setup Tree Value) (sharing : Bool)
      (joins : h.addLoader setup sharing = .ok h') : Goes h h'
  | ask (step : Step Value) : Goes h (h.first [.carryOut step])
  | tick : Goes h h.tick
  | collect {reply : Reply Value} {rest : List (Reply Value)} (replies : h.replies = reply :: rest) :
      Goes h { h with replies := rest }

/-- Hosts that come later in a run. -/
abbrev Leads : Host Tree Value → Host Tree Value → Prop :=
  Relation.ReflTransGen Goes

theorem Run.goes (run : Run ledger h) (goes : Goes h h') : ∃ more, Run (ledger ++ more) h' := by
  cases goes with
  | join setup sharing joins => exact ⟨[], by simpa using run.join setup sharing joins⟩
  | ask step => exact ⟨[], by simpa using run.ask step⟩
  | tick => exact ⟨_, run.tick⟩
  | collect replies => exact ⟨[], by simpa using run.collect replies⟩

theorem Run.leads (run : Run ledger h) (later : Leads h h') :
    ∃ more, Run (ledger ++ more) h' := by
  induction later with
  | refl => exact ⟨[], by simpa using run⟩
  | tail _ goes ih =>
    obtain ⟨more, hm⟩ := ih
    obtain ⟨further, hf⟩ := hm.goes goes
    exact ⟨more ++ further, by simpa using hf⟩

theorem leads_run (h : Host Tree Value) (ticks : Nat) : Leads h (h.run ticks) := by
  induction ticks generalizing h with
  | zero => exact .refl
  | succ ticks ih =>
    rw [Host.run]
    split
    · exact .refl
    · exact .head .tick (ih h.tick)

theorem leads_take (h : Host Tree Value) (ticks : Nat) (step : Step Value) :
    Leads h (h.take ticks step).2 := by
  have hrun : Leads h ((h.first [.carryOut step]).run ticks) :=
    .head (.ask step) (leads_run _ ticks)
  simp only [Host.take]
  split
  · next replies =>
    split
    · exact hrun.tail (.collect replies)
    · exact hrun
  · exact hrun

/-- Every change alters the session of each seat, or leaves it as it was. -/
theorem Goes.alters (goes : Goes h h') {seat : Seat Tree Value} (hs : h.seats[loader]? = some seat) :
    ∃ seat' defined, h'.seats[loader]? = some seat' ∧
      Session.Alters seat.sharing seat.session defined seat'.session := by
  have hsame : Session.Alters seat.sharing seat.session [] seat.session := .beside (.refl _)
  cases goes with
  | join setup sharing joins =>
    have hlt : loader < h.seats.length := (List.getElem?_eq_some_iff.mp hs).1
    obtain ⟨seat', hs'⟩ : ∃ seat', h'.seats[loader]? = some seat' :=
      ⟨_, List.getElem?_eq_getElem (by rw [length_of_join joins]; omega)⟩
    rcases seat_of_join joins hs' with ⟨rfl, -⟩ | ⟨-, old, hold, -, halters, -⟩
    · exact absurd hlt (Nat.lt_irrefl _)
    · obtain rfl := Option.some.inj (hs.symm.trans hold)
      exact ⟨seat', [], hs', halters⟩
  | ask step => exact ⟨seat, [], hs, hsame⟩
  | tick =>
    obtain ⟨seat', hs', -, halters⟩ := h.alters_tick.seat loader seat hs
    exact ⟨seat', _, hs', halters⟩
  | collect replies => exact ⟨seat, [], hs, hsame⟩

/-- What holds throughout still holds of a session later on. -/
theorem Run.throughout {P : Moment Tree Value (Listener Value) → Prop} (run : Run ledger h)
    (keeps : Throughout P) {s : Session Tree Value (Listener Value)}
    (hs : h.session? loader = some s) (holds : P ⟨s, [], .nothing⟩) (later : Leads h h') :
    ∃ t, h'.session? loader = some t ∧ P ⟨t, [], .nothing⟩ := by
  induction later with
  | refl => exact ⟨s, hs, holds⟩
  | tail before goes ih =>
    obtain ⟨t, ht, hp⟩ := ih
    obtain ⟨seat, hseat, rfl⟩ := seat_of_session? ht
    obtain ⟨seat', defined, hseat', halters⟩ := goes.alters hseat
    obtain ⟨more, hrun⟩ := run.leads before
    exact ⟨seat'.session, session?_eq hseat',
      keeps.alters (hrun.orderly.rest loader _ ht) hp halters⟩

/-- What lasts of a session still holds of it later on. -/
theorem Run.lasting {P : Session Tree Value (Listener Value) → Prop} (run : Run ledger h)
    (lasts : Lasting P) {s : Session Tree Value (Listener Value)}
    (hs : h.session? loader = some s) (holds : P s) (later : Leads h h') :
    ∃ t, h'.session? loader = some t ∧ P t :=
  run.throughout lasts.throughout hs holds later

end Host

end UnitLoader
