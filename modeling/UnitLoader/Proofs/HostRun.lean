import UnitLoader.Host.Setup
import UnitLoader.Proofs.Service

/-! Runs of a host. Loaders join it and steps are asked of it at any time; in between it
does its tasks one by one. The listeners that were accepted are kept in a ledger. -/

namespace UnitLoader

variable {Tree Value : Type}

/-- A listener that was accepted, by its label. -/
structure Registration where
  loader : Nat
  unit : UnitId
  label : String
deriving DecidableEq, Repr

/-- The unit that a subscription is accepted for, if it is. -/
def Session.accepts (s : Session Tree Value (Listener Value)) (label : String)
    (followUps : List (Step Value)) : Subject → Option UnitId
  | .load address kind => (s.loadWith address kind ⟨label, none, followUps⟩).1.toOption
  | .module address =>
    (s.loadWith (s.resolveAddress address) .module
      ⟨label, some (s.resolveAddress address), followUps⟩).1.toOption
  | .eval code => some (s.eval code (some ⟨label, none, followUps⟩)).id
  | .unit id => (s.addListener id ⟨label, none, followUps⟩).toOption.map fun _ => id

namespace Host

def registers (h : Host Tree Value) : Step Value → Option Registration
  | .subscribe loader subject label followUps =>
    (h.seats[loader]?).bind fun seat =>
      if seat.dropped then none
      else (seat.session.accepts label followUps subject).map fun id => ⟨loader, id, label⟩
  | _ => none

def registeredBy (h : Host Tree Value) : Task Value → Option Registration
  | .carryOut step => h.registers step
  | _ => none

def registration? (h : Host Tree Value) : Option Registration :=
  h.agenda.head?.bind h.registeredBy

/-- The hosts that runs lead to, with the listeners accepted on the way. -/
inductive Run : List Registration → Host Tree Value → Prop
  | empty : Run [] (.ofSeats [])
  | join {ledger : List Registration} {h h' : Host Tree Value} (run : Run ledger h)
      (setup : Setup Tree Value) (sharing : Bool) (joins : h.addLoader setup sharing = .ok h') :
      Run ledger h'
  | ask {ledger : List Registration} {h : Host Tree Value} (run : Run ledger h)
      (step : Step Value) : Run ledger (h.first [.carryOut step])
  | tick {ledger : List Registration} {h : Host Tree Value} (run : Run ledger h) :
      Run (ledger ++ h.registration?.toList) h.tick
  | collect {ledger : List Registration} {h : Host Tree Value} (run : Run ledger h)
      {reply : Reply Value} {rest : List (Reply Value)} (replies : h.replies = reply :: rest) :
      Run ledger { h with replies := rest }

theorem Run.run {ledger : List Registration} {h : Host Tree Value} (run : Run ledger h)
    (ticks : Nat) : ∃ more, Run (ledger ++ more) (h.run ticks) := by
  induction ticks generalizing ledger h with
  | zero => exact ⟨[], by simpa [Host.run] using run⟩
  | succ ticks ih =>
    by_cases hrest : h.isAtRest
    · exact ⟨[], by simpa [Host.run, hrest] using run⟩
    · obtain ⟨more, hm⟩ := ih run.tick
      exact ⟨h.registration?.toList ++ more, by
        simpa [Host.run, hrest, List.append_assoc] using hm⟩

/-- Having a step carried out leads from run to run. -/
theorem Run.take {ledger : List Registration} {h : Host Tree Value} (run : Run ledger h)
    (ticks : Nat) (step : Step Value) :
    ∃ more, Run (ledger ++ more) (h.take ticks step).2 := by
  obtain ⟨more, hm⟩ := (run.ask step).run ticks
  refine ⟨more, ?_⟩
  cases hr : ((h.first [.carryOut step]).run ticks).replies with
  | nil => simpa only [Host.take, hr] using hm
  | cons reply rest =>
    by_cases hrest : ((h.first [.carryOut step]).run ticks).isAtRest
    · simpa only [Host.take, hr, hrest, if_true] using hm.collect hr
    · simpa only [Host.take, hr, hrest, Bool.false_eq_true, if_false] using hm

/-- Steps that a host has carried out one after another. -/
def takeAll (ticks : Nat) (h : Host Tree Value) (steps : List (Step Value)) : Host Tree Value :=
  steps.foldl (fun h step => (h.take ticks step).2) h

theorem Run.takeAll {ledger : List Registration} {h : Host Tree Value} (run : Run ledger h)
    (ticks : Nat) (steps : List (Step Value)) : ∃ later, Run later (h.takeAll ticks steps) := by
  induction steps generalizing ledger h with
  | nil => exact ⟨ledger, run⟩
  | cons step steps ih =>
    obtain ⟨more, hm⟩ := run.take ticks step
    exact ih hm

/-! ### Seats -/

theorem session?_eq {h : Host Tree Value} {loader : Nat} {seat : Seat Tree Value}
    (hs : h.seats[loader]? = some seat) : h.session? loader = some seat.session := by
  simp [session?, hs]

theorem getElem?_reseat_self {seats : List (Seat Tree Value)} {loader : Nat}
    {seat : Seat Tree Value} (h : seats[loader]? = some seat)
    (s : Session Tree Value (Listener Value)) :
    (reseat seats loader s)[loader]? = some { seat with session := s } := by
  have hlt : loader < seats.length := (List.getElem?_eq_some_iff.mp h).1
  simp only [reseat, h]
  split <;> simp [hlt]

theorem getElem?_reseat_of_ne {seats : List (Seat Tree Value)} {loader other : Nat}
    (hne : loader ≠ other) (s : Session Tree Value (Listener Value)) :
    (reseat seats loader s)[other]? = seats[other]? ∨
      (reseat seats loader s)[other]? = (seats[other]?).map (share s) := by
  simp only [reseat]
  split
  · exact .inl rfl
  · split
    · exact .inr (by simp [List.getElem?_set_ne hne])
    · exact .inl (by simp [List.getElem?_set_ne hne])

theorem outside_share (s : Session Tree Value (Listener Value)) (seat : Seat Tree Value) :
    Session.Outside seat.session (share s seat).session := by
  simp only [share]
  split <;> rfl

/-- A session after a change at a seat: the new one there, and everywhere else one that
has at most another namespace. -/
theorem session?_reseat {seats : List (Seat Tree Value)} {loader other : Nat}
    {s t : Session Tree Value (Listener Value)}
    (h : ((reseat seats loader s)[other]?).map (·.session) = some t) :
    (other = loader ∧ t = s) ∨ (other ≠ loader ∧
      ∃ u, (seats[other]?).map (·.session) = some u ∧ Session.Outside u t) := by
  by_cases hne : other = loader
  · subst hne
    cases hs : seats[other]? with
    | none =>
      simp [reseat, hs] at h
    | some seat =>
      rw [getElem?_reseat_self hs] at h
      exact .inl ⟨rfl, (Option.some.inj h).symm⟩
  · refine .inr ⟨hne, ?_⟩
    obtain ⟨seat, hseat, rfl⟩ := Option.map_eq_some_iff.mp h
    rcases getElem?_reseat_of_ne (Ne.symm hne) s with he | he
    · exact ⟨seat.session, by rw [← he, hseat]; rfl, rfl⟩
    · rw [he] at hseat
      obtain ⟨old, hold, rfl⟩ := Option.map_eq_some_iff.mp hseat
      exact ⟨old.session, by rw [hold]; rfl, outside_share s old⟩

end Host

end UnitLoader
