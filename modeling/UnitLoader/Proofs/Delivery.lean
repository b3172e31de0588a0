import Mathlib.Data.List.Perm.Subperm
import UnitLoader.Lang.Toolchain
import UnitLoader.Proofs.Orderly
import UnitLoader.Text.Unicode

/-! Every listener that was accepted is called once, when its unit has settled, and told
what the unit came to. This holds however listeners use the loaders of the host again
while others are still to be called. -/

namespace UnitLoader

variable {Tree Value : Type}

def Task.dispatches (loader : Nat) : Task Value → Bool
  | .flush l => l = loader
  | .tell l _ _ _ => l = loader
  | _ => false

namespace Session

theorem units_find_of_settled {s : Session Tree Value (Listener Value)} {address : String}
    {kind : Kind} (settled : ∀ u, (s.find address kind).session.cache.get?
      (s.find address kind).id = some u → u.state.isSettled = true) :
    (s.find address kind).session.cache.units = s.cache.units := by
  rcases s.find_cases address kind with ⟨-, -, hunits⟩ | ⟨hid, hcache⟩
  · exact hunits
  · have hnew := settled (.new (s.resolveAddress address) kind .load)
      (by rw [hcache, Cache.get?_push, if_pos (by rw [hid])])
    simp [SourceUnit.new, Origin.initialState, State.isSettled] at hnew

theorem units_loadWith_of_error {s : Session Tree Value (Listener Value)} {address : String}
    {kind : Kind} {listener : Listener Value} {e : LoaderError}
    (he : (s.loadWith address kind listener).1 = .error e) :
    (s.loadWith address kind listener).2.cache.units = s.cache.units := by
  simp only [loadWith] at he ⊢
  rcases (s.find address kind).session.addListener_cases (s.find address kind).id listener with
    ⟨e', hrefused, hset⟩ | ⟨u, hu, hs, hok⟩
  · simp only [hrefused]
    exact units_find_of_settled hset
  · simp [hok] at he

end Session

namespace Host

/-- Whether listeners of a loader are being called. -/
def isDispatching (h : Host Tree Value) (loader : Nat) : Bool :=
  h.agenda.any (·.dispatches loader)

variable {ledger : List Registration} {h : Host Tree Value}

/-- What listeners can rely on. -/
structure Delivers (ledger : List Registration) (h : Host Tree Value) : Prop where
  atMostOnce : ∀ loader unit, (labelsFor loader unit (h.called.map (·.1))).Subperm
    (labelsFor loader unit ledger)
  outcome : ∀ call ∈ h.called, ∃ s, h.session? call.1.loader = some s ∧
    s.Shows call.1.unit call.2
  listeners : ∀ loader s, h.session? loader = some s → ∀ id u, s.cache.get? id = some u →
    u.state.isSettled = true → u.listeners = []
  outbox : ∀ loader s, h.session? loader = some s → h.isDispatching loader = false →
    s.outbox = []
  exactlyOnce : ∀ loader s, h.session? loader = some s → h.isDispatching loader = false →
    ∀ id u, s.cache.get? id = some u → u.state.isSettled = true →
      (labelsFor loader id (h.called.map (·.1))).Perm (labelsFor loader id ledger)
  refused : ∀ loader subject label followUps,
    h.registers (.subscribe loader subject label followUps) = none → ∀ other,
      ((h.carryOut (.subscribe loader subject label followUps)).session? other).map
          (·.cache.units) =
        (h.session? other).map (·.cache.units)

theorem isDispatching_of_isAtRest (hr : h.isAtRest = true) (loader : Nat) :
    h.isDispatching loader = false := by
  simp [isDispatching, List.isEmpty_iff.mp hr]

theorem Orderly.outbox (ho : Orderly ledger h) {loader : Nat}
    {s : Session Tree Value (Listener Value)} (hs : h.session? loader = some s)
    (hd : h.isDispatching loader = false) : s.outbox = [] := by
  by_contra hn
  have hflush : h.isDispatching loader = true :=
    List.any_eq_true.mpr ⟨_, ho.flush loader s hs hn, by simp [Task.dispatches]⟩
  simp [hd] at hflush

theorem labelsFor_due {loader : Nat} (hd : h.isDispatching loader = false) (unit : UnitId) :
    labelsFor loader unit (h.due.map (·.1)) = [] := by
  simp only [labelsFor, List.map_eq_nil_iff, List.filter_eq_nil_iff]
  intro r hr
  obtain ⟨call, hc, rfl⟩ := List.mem_map.mp hr
  obtain ⟨task, ht, hcall⟩ := List.mem_filterMap.mp hc
  have hquiet := List.any_eq_false.mp hd task ht
  cases task with
  | tell l j listener outcome =>
    obtain rfl := Option.some.inj hcall
    simp only [Task.dispatches, decide_eq_true_eq] at hquiet
    simp [hquiet]
  | _ => cases hcall

/-- Who waits for a settled unit waits in the outbox. -/
theorem Orderly.waitingLabels_of_settled (ho : Orderly ledger h) {loader : Nat}
    {s : Session Tree Value (Listener Value)} (hs : h.session? loader = some s)
    (hd : h.isDispatching loader = false) {id : UnitId}
    {u : SourceUnit Tree Value (Listener Value)} (hu : s.cache.get? id = some u)
    (settled : u.state.isSettled = true) : h.waitingLabels loader id = [] := by
  have hlisteners : u.listeners = [] :=
    ((ho.rest loader s hs).sound.fits id u hu).proper.listeners settled
  simp [waitingLabels_eq hs, Session.waitingFor, Session.listenersOf_eq hu, hlisteners,
    Session.queuedFor, ho.outbox hs hd]

/-! ### Refused registrations -/

theorem units_put {loader : Nat} {s t : Session Tree Value (Listener Value)}
    (hs : h.session? loader = some s) (ht : t.cache.units = s.cache.units) (other : Nat) :
    ((h.put loader t).session? other).map (·.cache.units) =
      (h.session? other).map (·.cache.units) :=
  map_session?_put hs (fun u v hout => by rw [hout]) fun _ => ht

theorem units_of_loadWith_refused {loader : Nat} {s : Session Tree Value (Listener Value)}
    (hs : h.session? loader = some s) {address : String} {kind : Kind}
    {listener : Listener Value}
    (refused : (s.loadWith address kind listener).1.toOption = none) (other : Nat) :
    ((match s.loadWith address kind listener with
      | (.error e, s) => (h.put loader s).answer (.subscribed (.error e))
      | (.ok id, s) => (h.put loader s).first [.flush loader, .reply (.subscribed (.ok id))] :
        Host Tree Value).session? other).map (·.cache.units) =
      (h.session? other).map (·.cache.units) := by
  have hunits (e : LoaderError) (he : (s.loadWith address kind listener).1 = .error e) :=
    Session.units_loadWith_of_error he
  generalize s.loadWith address kind listener = r at refused hunits ⊢
  obtain ⟨result, t⟩ := r
  cases result with
  | error e => exact units_put hs (hunits e rfl) other
  | ok id => cases refused

theorem units_of_refused {loader : Nat} {subject : Subject} {label : String}
    {followUps : List (Step Value)}
    (refused : h.registers (.subscribe loader subject label followUps) = none) (other : Nat) :
    ((h.carryOut (.subscribe loader subject label followUps)).session? other).map
        (·.cache.units) =
      (h.session? other).map (·.cache.units) := by
  simp only [registers, carryOut, withLoader] at refused ⊢
  cases hseat : h.seats[loader]? with
  | none => rfl
  | some seat =>
    cases hd : seat.dropped with
    | true =>
      simp only [hd, if_true]
      rfl
    | false =>
      have hs := session?_eq hseat
      have haccepts : seat.session.accepts label followUps subject = none := by
        simpa [hseat, hd] using refused
      simp only [hd, Bool.false_eq_true, if_false]
      cases subject with
      | load address kind => exact units_of_loadWith_refused hs haccepts other
      | module address => exact units_of_loadWith_refused hs haccepts other
      | eval code => cases haccepts
      | unit id =>
        simp only [Session.accepts] at haccepts
        cases ht : seat.session.addListener id ⟨label, none, followUps⟩ with
        | error e =>
          simp only [subscribe, ht]
          rfl
        | ok t => simp [ht, Except.toOption] at haccepts

/-- A host delivers in every run. -/
theorem Run.delivers (run : Run ledger h) : Delivers ledger h where
  atMostOnce := by
    intro loader unit
    refine List.Sublist.subperm ?_ |>.trans (run.orderly.ledger loader unit).symm.subperm
    rw [List.append_assoc]
    exact List.sublist_append_left _ _
  outcome := fun call hc => run.orderly.shown call (List.mem_append_left _ hc)
  listeners := fun loader s hs id u hu settled =>
    ((run.orderly.rest loader s hs).sound.fits id u hu).proper.listeners settled
  outbox := fun loader s hs hd => run.orderly.outbox hs hd
  exactlyOnce := by
    intro loader s hs hd id u hu settled
    have hledger := run.orderly.ledger loader id
    rw [labelsFor_due hd, run.orderly.waitingLabels_of_settled hs hd hu settled, List.append_nil,
      List.append_nil] at hledger
    exact hledger.symm
  refused := fun loader subject label followUps => units_of_refused

/-- A listener is told that its module could not be fetched. -/
theorem Run.delivers_failure : ∃ h : Host Program UnitLoader.Value,
    Run [⟨0, ⟨0⟩, "a"⟩] h ∧ h.isDispatching 0 = false ∧
      h.called.map (·.1) = [⟨0, ⟨0⟩, "a"⟩] ∧ Delivers [⟨0, ⟨0⟩, "a"⟩] h := by
  have joined := Run.empty.join (.plain Lang.toolchain .default .forgetful) false rfl
  have asked := (joined.ask (.subscribe 0 (.load "/m" .module) "a" [])).tick.tick.tick
  have run := (asked.ask (.request 0 .poll)).tick.tick.tick.tick.tick.tick
  exact ⟨_, run, rfl, rfl, Run.delivers run⟩

end Host

end UnitLoader
