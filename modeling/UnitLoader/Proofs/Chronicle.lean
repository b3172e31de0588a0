import UnitLoader.Proofs.AllOrNothing
import UnitLoader.Proofs.Turns

/-! What one loader of a host goes through, task by task. A chronicle keeps what was done
to its namespace, in the order in which it was done: the host defined a name, or a unit
was executed. -/

namespace UnitLoader

variable {Tree Value : Type}

/-- A change of nothing but what a session has to do with its fetcher, its listeners and
the readers of its namespace. Some parked requests may be answered, in any order, while the
others stay parked, and the listeners may have been told. -/
structure Session.Beside (s t : Session Tree Value (Listener Value)) : Prop where
  same : t = { s with
    fetcher := t.fetcher, channel := t.channel, outbox := t.outbox, held := t.held }
  supplied : ∃ answered : List (Parked × Except FetchError String),
    (answered.map (·.1) ++ t.fetcher.parked).Perm s.fetcher.parked ∧
    t.channel = s.channel ++ answered.filterMap fun a => Fetcher.completionOf a.2 a.1
  told : t.outbox = s.outbox ∨ t.outbox = []

namespace Session

variable {s t : Session Tree Value (Listener Value)}

theorem Beside.of_same
    (same : t = { s with
      fetcher := t.fetcher, channel := t.channel, outbox := t.outbox, held := t.held })
    (parked : t.fetcher.parked = s.fetcher.parked) (channel : t.channel = s.channel)
    (told : t.outbox = s.outbox ∨ t.outbox = []) : s.Beside t where
  same := same
  supplied := ⟨[], by rw [parked]; rfl, by rw [channel]; exact (List.append_nil _).symm⟩
  told := told

theorem Beside.refl (s : Session Tree Value (Listener Value)) : s.Beside s :=
  .of_same rfl rfl rfl (.inl rfl)

theorem beside_answerParked (s : Session Tree Value (Listener Value)) (fetcher : Fetcher)
    (now : List Parked) (parked : (now ++ fetcher.parked).Perm s.fetcher.parked)
    (answer : String → Except FetchError String) :
    s.Beside (({ s with fetcher := fetcher } : Session Tree Value (Listener Value)).answerParked
      now answer) where
  same := rfl
  supplied := by
    refine ⟨now.map fun p => (p, answer p.address), ?_, ?_⟩
    · have hfst : (now.map fun p => (p, answer p.address)).map (·.1) = now := by
        rw [List.map_map]
        exact List.map_id now
      rwa [hfst]
    · rw [List.filterMap_map]
      rfl
  told := .inl rfl

end Session

/-- What the owner of a session can have it do: what it asks for, or take the oldest answer
that has arrived. -/
inductive Session.Act : Session Tree Value (Listener Value) →
    Session Tree Value (Listener Value) → Prop
  | load (s : Session Tree Value (Listener Value)) (address : String) (kind : Kind) :
      Act s (s.load address kind).session
  | loadWith (s : Session Tree Value (Listener Value)) (address : String) (kind : Kind)
      (listener : Listener Value) : Act s (s.loadWith address kind listener).2
  | loadSync (s : Session Tree Value (Listener Value)) (address : String) (kind : Kind) :
      Act s (s.loadSync address kind).session
  | eval (s : Session Tree Value (Listener Value)) (code : String)
      (listener : Option (Listener Value)) : Act s (s.eval code listener).session
  | receive (s : Session Tree Value (Listener Value)) {t : Session Tree Value (Listener Value)}
      (answer : s.receive? = some t) : Act s t

theorem Session.Act.advance {s t : Session Tree Value (Listener Value)} (h : Session.Act s t) :
    Session.Advance s t := by
  cases h with
  | load address kind => exact .load s address kind
  | loadWith address kind listener => exact .loadWith s address kind listener
  | loadSync address kind => exact .loadSync s address kind
  | eval code listener => exact .eval s code listener
  | receive answer => exact .receive s answer

/-- What one task of its host can do to a session. The list has the definitions that the
host makes; a session that shares its namespace may also see those of others. -/
inductive Session.Alters (sharing : Bool) : Session Tree Value (Listener Value) →
    List (Deed Value) → Session Tree Value (Listener Value) → Prop
  | act {s t : Session Tree Value (Listener Value)} (step : Session.Act s t) :
      Alters sharing s [] t
  | listen {s : Session Tree Value (Listener Value)} {id : UnitId}
      {u : SourceUnit Tree Value (Listener Value)} (unit : s.cache.get? id = some u)
      (unsettled : u.state.isSettled = false) (listener : Listener Value) :
      Alters sharing s [] (s.listening id listener)
  | define {s : Session Tree Value (Listener Value)} (free : s.held = false) (name : String)
      (value : Value) :
      Alters sharing s [.defined name value] { s with ns := s.ns.define name value }
  | beside {s t : Session Tree Value (Listener Value)} (change : Session.Beside s t) :
      Alters sharing s [] t
  | shared (s : Session Tree Value (Listener Value)) (shares : sharing = true)
      (ns : Namespace Value) (held : Bool) : Alters sharing s [] { s with ns := ns, held := held }

theorem Session.Alters.history {sharing : Bool} {s t : Session Tree Value (Listener Value)}
    {defined : List (Deed Value)} (h : Session.Alters sharing s defined t) (rest : s.AtRest) :
    ∃ events, t.history = s.history ++ events := by
  cases h with
  | act step =>
    obtain ⟨registered, sync, m, last, hsteps⟩ := rest.steps step.advance
    have hdevelops := Moves.develops hsteps.moves (hsteps.enters.sound (rest.withSync sync))
    obtain ⟨events, he, -⟩ := hdevelops.history
    refine ⟨events, ?_⟩
    rw [hsteps.leaves]
    exact he.trans (congrArg (· ++ events) hsteps.enters.prepares.history)
  | beside change => exact ⟨[], by rw [change.same, List.append_nil]⟩
  | _ => exact ⟨[], (List.append_nil _).symm⟩

namespace Host

variable {h h' : Host Tree Value} {loader : Nat} {seat : Seat Tree Value}

/-- Every seat keeps its place, and its session is altered with what is defined for it. -/
structure Alters (h : Host Tree Value) (defines : Nat → List (Deed Value)) (h' : Host Tree Value) :
    Prop where
  length : h'.seats.length = h.seats.length
  seat : ∀ loader seat, h.seats[loader]? = some seat → ∃ seat', h'.seats[loader]? = some seat' ∧
    seat'.sharing = seat.sharing ∧
    Session.Alters seat.sharing seat.session (defines loader) seat'.session

def nothing (_ : Nat) : List (Deed Value) := []

theorem alters_of_seats (seats : h'.seats = h.seats) : h.Alters nothing h' :=
  ⟨by rw [seats], fun _ seat hs => ⟨seat, by rw [seats, hs], rfl, .beside (.refl _)⟩⟩

theorem length_reseat (seats : List (Seat Tree Value)) (loader : Nat)
    (s : Session Tree Value (Listener Value)) : (reseat seats loader s).length = seats.length := by
  simp only [reseat]
  split
  · rfl
  · split <;> simp

theorem alters_reseat {defined : List (Deed Value)} (hs : h.seats[loader]? = some seat)
    {t : Session Tree Value (Listener Value)}
    (halters : Session.Alters seat.sharing seat.session defined t)
    (seats : h'.seats = reseat h.seats loader t) :
    h.Alters (fun other => if other = loader then defined else []) h' := by
  refine ⟨by rw [seats, length_reseat], fun other old hold => ?_⟩
  rw [seats]
  by_cases hne : other = loader
  · subst hne
    obtain rfl := Option.some.inj (hs.symm.trans hold)
    exact ⟨_, getElem?_reseat_self hs t, rfl, by simpa using halters⟩
  · simp only [if_neg hne]
    rcases getElem?_reseat_of_ne (Ne.symm hne) t with he | he
    · exact ⟨old, he.trans hold, rfl, .beside (.refl _)⟩
    · refine ⟨share t old, by rw [he, hold, Option.map_some], ?_⟩
      simp only [share]
      split
      · next hshare => exact ⟨rfl, .shared _ hshare _ _⟩
      · exact ⟨rfl, .beside (.refl _)⟩

theorem seat_of_session? {s : Session Tree Value (Listener Value)}
    (hs : h.session? loader = some s) : ∃ seat, h.seats[loader]? = some seat ∧ seat.session = s :=
  Option.map_eq_some_iff.mp hs

theorem alters_put {s t : Session Tree Value (Listener Value)} (hs : h.session? loader = some s)
    (halters : ∀ sharing, Session.Alters sharing s [] t)
    (seats : h'.seats = reseat h.seats loader t) : h.Alters nothing h' := by
  obtain ⟨seat, hseat, rfl⟩ := seat_of_session? hs
  have hnone : (fun other => if other = loader then ([] : List (Deed Value)) else []) = nothing := by
    funext other
    simp [nothing]
  rw [← hnone]
  exact alters_reseat hseat (halters _) seats

theorem alters_act {s t : Session Tree Value (Listener Value)}
    (hs : h.session? loader = some s) (step : Session.Act s t)
    (seats : h'.seats = reseat h.seats loader t) : h.Alters nothing h' :=
  alters_put hs (fun _ => .act step) seats

theorem alters_beside {s t : Session Tree Value (Listener Value)}
    (hs : h.session? loader = some s) (change : Session.Beside s t)
    (seats : h'.seats = reseat h.seats loader t) : h.Alters nothing h' :=
  alters_put hs (fun _ => .beside change) seats

/-! ### Tasks -/

/-- A loader that was not dropped, and whose namespace nobody reads. -/
def isOpen (h : Host Tree Value) (loader : Nat) : Bool :=
  (h.seats[loader]?).any fun seat => !seat.dropped && !seat.session.held

/-- What a step defines in the namespace of a loader. -/
def definesBy (h : Host Tree Value) : Step Value → Nat → List (Deed Value)
  | .request other (.define name value), loader =>
    if other = loader ∧ h.isOpen other then [.defined name value] else []
  | _, _ => []

/-- What the next task defines in the namespace of a loader. -/
def defines (h : Host Tree Value) (loader : Nat) : List (Deed Value) :=
  match h.agenda with
  | .carryOut step :: _ => h.definesBy step loader
  | _ => []

theorem alters_request {s : Session Tree Value (Listener Value)} (hs : h.session? loader = some s)
    {r : Request Value} (quiet : ∀ name value, r ≠ .define name value) :
    h.Alters nothing (h.request loader s r) := by
  cases r with
  | load address kind => exact alters_act hs (.load s address kind) rfl
  | loadSync address kind => exact alters_act hs (.loadSync s address kind) rfl
  | eval code => exact alters_act hs (.eval s code none) rfl
  | define name value => exact absurd rfl (quiet name value)
  | tryUntilIdle =>
    simp only [Host.request]
    split <;> exact alters_of_seats rfl
  | _ => exact alters_of_seats rfl

theorem beside_release (s : Session Tree Value (Listener Value)) (address : String) :
    Session.Beside s (s.release address).2 := by
  simp only [Session.release, List.partition_eq_filter_filter]
  exact Session.beside_answerParked s _ _ (List.filter_append_perm _ _) _

theorem beside_releaseAll (s : Session Tree Value (Listener Value)) :
    Session.Beside s s.releaseAll.2 :=
  Session.beside_answerParked s _ _ (by simp) _

theorem beside_respond (s : Session Tree Value (Listener Value)) (address : String)
    (result : Except FetchError String) : Session.Beside s (s.respond address result).2 := by
  simp only [Session.respond]
  cases hp : s.fetcher.parked.find? (·.address = address) with
  | none => exact .refl s
  | some p =>
    have hmem := List.mem_of_find?_eq_some hp
    exact Session.beside_answerParked s { s.fetcher with parked := s.fetcher.parked.erase p } [p]
      (List.perm_cons_erase hmem).symm fun _ => result

theorem alters_supply {s : Session Tree Value (Listener Value)} (hs : h.session? loader = some s)
    (r : Supply) : h.Alters nothing (h.supply loader s r) := by
  cases r with
  | release address => exact alters_beside hs (beside_release s address) rfl
  | releaseAll => exact alters_beside hs (beside_releaseAll s) rfl
  | insert address text =>
    exact alters_beside hs (t := { s with fetcher := s.fetcher.insert address text })
      (.of_same rfl rfl rfl (.inl rfl)) rfl
  | respond address result => exact alters_beside hs (beside_respond s address result) rfl
  | forget address => exact alters_beside hs (beside_respond s address _) rfl
  | fetches address => exact alters_of_seats rfl
  | requests => exact alters_of_seats rfl

theorem alters_loadWith {s : Session Tree Value (Listener Value)}
    (hs : h.session? loader = some s) (address : String) (kind : Kind) (listener : Listener Value) :
    h.Alters nothing (match s.loadWith address kind listener with
      | (.error e, s) => (h.put loader s).answer (.subscribed (.error e))
      | (.ok id, s) => (h.put loader s).first [.flush loader, .reply (.subscribed (.ok id))]) := by
  have hstep := Session.Act.loadWith s address kind listener
  generalize s.loadWith address kind listener = r at hstep
  obtain ⟨result, t⟩ := r
  cases result with
  | error e => exact alters_act hs hstep rfl
  | ok id => exact alters_act hs hstep rfl

theorem alters_subscribe {s : Session Tree Value (Listener Value)}
    (hs : h.session? loader = some s) (label : String) (followUps : List (Step Value))
    (subject : Subject) : h.Alters nothing (h.subscribe loader s label followUps subject) := by
  cases subject with
  | load address kind => exact alters_loadWith hs address kind _
  | module address => exact alters_loadWith hs _ .module _
  | eval code => exact alters_act hs (.eval s code _) rfl
  | unit id =>
    simp only [Host.subscribe]
    rcases s.addListener_cases id ⟨label, none, followUps⟩ with ⟨e, he, -⟩ | ⟨u, hu, hset, hok⟩
    · simp only [he]
      exact alters_of_seats rfl
    · simp only [hok]
      exact alters_put hs (fun _ => .listen hu hset _) rfl

theorem alters_withLoader {f : Session Tree Value (Listener Value) → Host Tree Value}
    (hf : ∀ s, h.session? loader = some s → h.Alters nothing (f s)) :
    h.Alters nothing (h.withLoader loader f) := by
  simp only [withLoader]
  cases hseat : h.seats[loader]? with
  | none => exact alters_of_seats rfl
  | some seat =>
    cases hd : seat.dropped with
    | true => exact alters_of_seats (by simp [hd, Host.answer])
    | false => simpa [hd] using hf seat.session (session?_eq hseat)

theorem definesBy_define (h : Host Tree Value) (other : Nat) (name : String) (value : Value) :
    h.Alters (h.definesBy (.request other (.define name value)))
      (h.carryOut (.request other (.define name value))) := by
  simp only [Host.carryOut, withLoader]
  cases hseat : h.seats[other]? with
  | none =>
    have hnone : h.definesBy (.request other (.define name value)) = nothing := by
      funext loader
      simp [definesBy, isOpen, hseat, nothing]
    rw [hnone]
    exact alters_of_seats rfl
  | some seat =>
    cases hd : seat.dropped with
    | true =>
      have hnone : h.definesBy (.request other (.define name value)) = nothing := by
        funext loader
        simp [definesBy, isOpen, hseat, hd, nothing]
      rw [hnone]
      exact alters_of_seats (by simp [hd, Host.answer])
    | false =>
      cases hdefined : seat.session.define name value with
      | none =>
        have hheld : seat.session.held = true := by simpa [Session.define] using hdefined
        have hnone : h.definesBy (.request other (.define name value)) = nothing := by
          funext loader
          simp [definesBy, isOpen, hseat, hheld, nothing]
        rw [hnone]
        exact alters_of_seats (by simp [hd, Host.request, hdefined, Host.answer])
      | some t =>
        obtain ⟨hfree, he⟩ := Session.define_eq_some hdefined
        have hdefines : h.definesBy (.request other (.define name value)) =
            fun loader => if loader = other then [.defined name value] else [] := by
          funext loader
          simp [definesBy, isOpen, hseat, hd, hfree, eq_comm]
        rw [hdefines]
        simpa [hd, Host.request, hdefined, he] using
          alters_reseat hseat (.define hfree name value) rfl

theorem alters_carryOut (h : Host Tree Value) (step : Step Value) :
    h.Alters (h.definesBy step) (h.carryOut step) := by
  cases step with
  | request other r =>
    by_cases hd : ∃ name value, r = .define name value
    · obtain ⟨name, value, rfl⟩ := hd
      exact h.definesBy_define other name value
    · have hquiet : ∀ name value, r ≠ .define name value := fun name value he => hd ⟨name, value, he⟩
      have hnone : h.definesBy (.request other r) = nothing := by
        funext loader
        cases r <;> first | rfl | exact absurd rfl (hquiet _ _)
      rw [hnone]
      exact alters_withLoader fun s hs => alters_request hs hquiet
  | supply other r =>
    have hnone : h.definesBy (.supply other r) = nothing := rfl
    rw [hnone]
    simp only [Host.carryOut]
    cases hs : h.session? other with
    | none => exact alters_of_seats rfl
    | some s => exact alters_supply hs r
  | subscribe other subject label followUps =>
    exact alters_withLoader fun s hs => alters_subscribe hs label followUps subject
  | hold other steps =>
    have hnone : h.definesBy (.hold other steps) = nothing := rfl
    rw [hnone]
    simp only [Host.carryOut]
    refine alters_withLoader fun s hs => ?_
    exact alters_beside hs (t := { s with held := true }) (.of_same rfl rfl rfl (.inl rfl)) rfl
  | drop other =>
    refine ⟨by simp [Host.carryOut, Host.answer], fun loader seat hs => ?_⟩
    refine ⟨if loader = other then { seat with dropped := true } else seat, ?_, ?_⟩
    · simp only [Host.carryOut, Host.answer, List.getElem?_modify, hs]
      by_cases he : loader = other
      · simp [he]
      · simp [he, Ne.symm he]
    · split <;> exact ⟨rfl, .beside (.refl _)⟩
  | isAlive other => exact alters_of_seats rfl
  | unclear reason => exact alters_of_seats rfl

theorem alters_flush (h : Host Tree Value) {s : Session Tree Value (Listener Value)}
    (hs : h.session? loader = some s) : h.Alters nothing (h.flush loader s) := by
  simp only [Host.flush]
  split
  · exact alters_of_seats rfl
  · exact alters_beside hs (t := { s with outbox := [] }) (.of_same rfl rfl rfl (.inr rfl)) rfl

theorem seats_takeCount (h : Host Tree Value) : h.takeCount.2.seats = h.seats := by
  simp only [Host.takeCount]
  split <;> rfl

theorem alters_perform (h : Host Tree Value) {task : Task Value}
    (quiet : ∀ step, task ≠ .carryOut step) : h.Alters nothing (h.perform task) := by
  cases task with
  | carryOut step => exact absurd rfl (quiet step)
  | flush loader =>
    simp only [Host.perform]
    cases hs : h.session? loader with
    | none => exact alters_of_seats rfl
    | some s => exact alters_flush h hs
  | tell loader unit listener outcome => exact alters_of_seats rfl
  | reply reply => exact alters_of_seats rfl
  | settle loader id =>
    simp only [Host.perform]
    cases h.session? loader <;> exact alters_of_seats rfl
  | poll loader taken =>
    simp only [Host.perform]
    cases hr : (h.session? loader).bind (·.receive?) with
    | none => exact alters_of_seats rfl
    | some t =>
      obtain ⟨s, hs, ht⟩ := Option.bind_eq_some_iff.mp hr
      exact alters_act hs (.receive s ht) rfl
  | quiet loader wait =>
    simp only [Host.perform]
    cases h.session? loader with
    | none => exact alters_of_seats rfl
    | some s => exact alters_of_seats h.seats_takeCount
  | drain loader rounds =>
    simp only [Host.perform]
    cases hs : h.session? loader with
    | none => exact alters_of_seats rfl
    | some s => exact alters_beside hs (beside_releaseAll s) rfl
  | drained loader rounds released =>
    simp only [Host.perform]
    have hseats := h.seats_takeCount
    generalize h.takeCount = r at hseats
    obtain ⟨taken, k⟩ := r
    simp only
    split <;> exact alters_of_seats hseats
  | note =>
    simp only [Host.perform]
    split <;> exact alters_of_seats rfl
  | letGo loader before steps =>
    simp only [Host.perform]
    cases hs : h.session? loader with
    | none => exact alters_of_seats rfl
    | some s =>
      exact alters_beside hs (t := { s with held := before }) (.of_same rfl rfl rfl (.inl rfl)) rfl

theorem alters_tick (h : Host Tree Value) : h.Alters h.defines h.tick := by
  cases ha : h.agenda with
  | nil =>
    have hdefines : h.defines = nothing := by
      funext loader
      simp [defines, ha, nothing]
    rw [hdefines]
    exact alters_of_seats (by simp [Host.tick, ha])
  | cons task rest =>
    have htick : h.tick = ({ h with agenda := rest } : Host Tree Value).perform task := by
      simp only [Host.tick, ha]
    rw [htick]
    by_cases hc : ∃ step, task = .carryOut step
    · obtain ⟨step, rfl⟩ := hc
      have hdefines : h.defines = ({ h with agenda := rest } : Host Tree Value).definesBy step := by
        funext loader
        simp only [defines, ha]
        cases step <;> rfl
      rw [hdefines]
      have hstep := alters_carryOut { h with agenda := rest } step
      exact ⟨hstep.length, hstep.seat⟩
    · have hquiet : ∀ step, task ≠ .carryOut step := fun step he => hc ⟨step, he⟩
      have hdefines : h.defines = nothing := by
        funext loader
        simp only [defines, ha]
        cases task <;> first | rfl | exact absurd rfl (hquiet _)
      rw [hdefines]
      have htask := alters_perform { h with agenda := rest } hquiet
      exact ⟨htask.length, htask.seat⟩

/-! ### Chronicles -/

/-- What the next task executes for a loader. -/
def executes (h : Host Tree Value) (loader : Nat) : List (Deed Value) :=
  match h.session? loader, h.tick.session? loader with
  | some s, some t => (t.history.drop s.history.length).filterMap Event.deed?
  | _, _ => []

/-- What a loader that joins finds defined in its namespace. -/
def starts (h : Host Tree Value) (loader : Nat) (setup : Setup Tree Value) : List (Deed Value) :=
  if loader = h.seats.length then setup.globals.map fun g => .defined g.1 g.2 else []

/-- The hosts that runs lead to, with what was done to the namespace of one loader. -/
inductive Chronicle (loader : Nat) : List (Deed Value) → Host Tree Value → Prop
  | empty : Chronicle loader [] (.ofSeats [])
  | join {deeds : List (Deed Value)} {h h' : Host Tree Value} (before : Chronicle loader deeds h)
      (setup : Setup Tree Value) (sharing : Bool) (joins : h.addLoader setup sharing = .ok h') :
      Chronicle loader (deeds ++ h.starts loader setup) h'
  | ask {deeds : List (Deed Value)} {h : Host Tree Value} (before : Chronicle loader deeds h)
      (step : Step Value) : Chronicle loader deeds (h.first [.carryOut step])
  | tick {deeds : List (Deed Value)} {h : Host Tree Value} (before : Chronicle loader deeds h) :
      Chronicle loader (deeds ++ (h.defines loader ++ h.executes loader)) h.tick
  | collect {deeds : List (Deed Value)} {h : Host Tree Value} (before : Chronicle loader deeds h)
      {reply : Reply Value} {rest : List (Reply Value)} (replies : h.replies = reply :: rest) :
      Chronicle loader deeds { h with replies := rest }

variable {deeds : List (Deed Value)} {ledger : List Registration}

theorem Chronicle.run (c : Chronicle loader deeds h) : ∃ ledger, Run ledger h := by
  induction c with
  | empty => exact ⟨_, .empty⟩
  | join _ setup sharing joins ih => exact ih.imp fun _ run => run.join setup sharing joins
  | ask _ step ih => exact ih.imp fun _ run => run.ask step
  | tick _ ih =>
    obtain ⟨ledger, run⟩ := ih
    exact ⟨_, run.tick⟩
  | collect _ replies ih => exact ih.imp fun _ run => run.collect replies

/-- Every run can be told as a chronicle of any of its loaders. -/
theorem Run.chronicle (run : Run ledger h) (loader : Nat) : ∃ deeds, Chronicle loader deeds h := by
  induction run with
  | empty => exact ⟨_, .empty⟩
  | join _ setup sharing joins ih =>
    obtain ⟨deeds, c⟩ := ih
    exact ⟨_, c.join setup sharing joins⟩
  | ask _ step ih => exact ih.imp fun _ c => c.ask step
  | tick _ ih =>
    obtain ⟨deeds, c⟩ := ih
    exact ⟨_, c.tick⟩
  | collect _ replies ih => exact ih.imp fun _ c => c.collect replies

theorem Chronicle.atRest (c : Chronicle loader deeds h) {other : Nat}
    {s : Session Tree Value (Listener Value)} (hs : h.session? other = some s) : s.AtRest := by
  obtain ⟨ledger, run⟩ := c.run
  exact run.orderly.rest other s hs

/-! ### What a loader keeps -/

theorem executes_eq {s t : Session Tree Value (Listener Value)} (hs : h.session? loader = some s)
    (ht : h.tick.session? loader = some t) {events : List (Event Value)}
    (history : t.history = s.history ++ events) :
    t.deeds = s.deeds ++ h.executes loader := by
  have hdrop : (s.history ++ events).drop s.history.length = events := List.drop_left
  simp only [executes, hs, ht, history, hdrop, Session.deeds, List.filterMap_append]

/-- The session of a loader that joins with a namespace. -/
def opened (setup : Setup Tree Value) (ns : Namespace Value) :
    Session Tree Value (Listener Value) :=
  .fresh setup.tools setup.config.baseAddress setup.config.sync setup.resolver setup.translate
    setup.fetcher (setup.globals.foldl (fun ns g => ns.define g.1 g.2) ns)

theorem addLoader_eq {setup : Setup Tree Value} {sharing : Bool}
    (joins : h.addLoader setup sharing = .ok h') :
    ∃ ns : Namespace Value, (sharing = false → ns = .empty) ∧ h'.seats =
      reseat (h.seats ++ [⟨opened setup ns, sharing, false⟩]) h.seats.length (opened setup ns) := by
  simp only [addLoader, Setup.start] at joins
  cases hns : Setup.startNamespace setup.config
      (if sharing then some h.commonNamespace else none) with
  | error e =>
    rw [hns] at joins
    cases joins
  | ok ns =>
    rw [hns] at joins
    refine ⟨ns, ?_, by rw [← Except.ok.inj joins]; rfl⟩
    rintro rfl
    simp only [Setup.startNamespace, Bool.false_eq_true, if_false] at hns
    cases hscope : setup.config.scope with
    | shared => simp [hscope] at hns
    | loader => simpa [hscope, eq_comm] using hns

theorem Alters.executes (halters : h.Alters h.defines h.tick) (rest : ∀ s, h.session? loader =
    some s → s.AtRest) {seat seat' : Seat Tree Value} (hs : h.seats[loader]? = some seat)
    (hs' : h.tick.seats[loader]? = some seat') :
    seat'.sharing = seat.sharing ∧
      Session.Alters seat.sharing seat.session (h.defines loader) seat'.session ∧
      seat'.session.deeds = seat.session.deeds ++ h.executes loader := by
  obtain ⟨seat'', hs'', hsharing, hsession⟩ := halters.seat loader seat hs
  obtain rfl := Option.some.inj (hs'.symm.trans hs'')
  obtain ⟨events, hevents⟩ := hsession.history (rest _ (session?_eq hs))
  exact ⟨hsharing, hsession, executes_eq (session?_eq hs) (session?_eq hs') hevents⟩

theorem defines_of_none (hnone : h.seats[loader]? = none) : h.defines loader = [] := by
  simp only [defines]
  split
  · next step _ _ =>
    cases step with
    | request other r =>
      cases r with
      | define name value =>
        by_cases he : other = loader
        · simp [definesBy, he, isOpen, hnone]
        · simp [definesBy, he]
      | _ => rfl
    | _ => rfl
  · rfl

theorem history_of_reseat {seats : List (Seat Tree Value)} {other : Nat}
    {s : Session Tree Value (Listener Value)} {seat seat' : Seat Tree Value}
    (hself : (seats[loader]?).map (·.session) = some s)
    (hs : seats[other]? = some seat) (hs' : (reseat seats loader s)[other]? = some seat') :
    seat'.session.history = seat.session.history := by
  have hmap : ((reseat seats loader s)[other]?).map (·.session) = some seat'.session := by
    rw [hs', Option.map_some]
  rcases session?_reseat hmap with ⟨rfl, he⟩ | ⟨-, u, hu, hout⟩
  · rw [hs, Option.map_some] at hself
    rw [he, ← Option.some.inj hself]
  · rw [hs, Option.map_some] at hu
    obtain rfl := Option.some.inj hu
    rw [hout]

/-- Whoever has a seat once a loader has joined had it before, or is that loader. The others
may get to see the namespace that it brings along. -/
theorem seat_of_join {setup : Setup Tree Value} {sharing : Bool}
    (joins : h.addLoader setup sharing = .ok h') {seat' : Seat Tree Value}
    (hs' : h'.seats[loader]? = some seat') :
    (loader = h.seats.length ∧ ∃ ns, (sharing = false → ns = .empty) ∧ seat'.sharing = sharing ∧
      Session.Alters sharing (opened setup ns) [] seat'.session ∧ seat'.session.deeds = []) ∨
    loader ≠ h.seats.length ∧ ∃ seat, h.seats[loader]? = some seat ∧
      seat'.sharing = seat.sharing ∧ Session.Alters seat.sharing seat.session [] seat'.session ∧
      seat'.session.deeds = seat.session.deeds := by
  obtain ⟨ns, hempty, hseats⟩ := addLoader_eq joins
  have hlast : (h.seats ++ [Seat.mk (opened setup ns) sharing false])[h.seats.length]? =
      some ⟨opened setup ns, sharing, false⟩ := by simp
  have hjoins : Host.Alters { h with seats := h.seats ++ [⟨opened setup ns, sharing, false⟩] }
      (fun other => if other = h.seats.length then [] else []) h' :=
    alters_reseat (t := opened setup ns) hlast (.beside (.refl _)) hseats
  have hlength := hjoins.length
  simp only [List.length_append, List.length_singleton] at hlength
  have hlt := (List.getElem?_eq_some_iff.mp hs').1
  have hbefore : loader < (h.seats ++ [Seat.mk (opened setup ns) sharing false]).length := by
    simpa [hlength] using hlt
  obtain ⟨seat, hs⟩ : ∃ seat, (h.seats ++ [Seat.mk (opened setup ns) sharing false])[loader]? =
      some seat := ⟨_, List.getElem?_eq_getElem hbefore⟩
  obtain ⟨seat'', hs'', hsharing, hsession⟩ := hjoins.seat loader seat hs
  obtain rfl := Option.some.inj (hs'.symm.trans hs'')
  simp only [ite_self] at hsession
  have hdeeds : seat'.session.deeds = seat.session.deeds := by
    rw [Session.deeds, Session.deeds,
      history_of_reseat (by rw [hlast, Option.map_some]) hs (hseats ▸ hs')]
  by_cases he : loader = h.seats.length
  · subst he
    obtain rfl := Option.some.inj (hlast.symm.trans hs)
    exact .inl ⟨rfl, ns, hempty, hsharing, hsession, hdeeds⟩
  · rw [List.getElem?_append_left (by omega)] at hs
    exact .inr ⟨he, seat, hs, hsharing, hsession, hdeeds⟩

theorem length_of_join {setup : Setup Tree Value} {sharing : Bool}
    (joins : h.addLoader setup sharing = .ok h') : h'.seats.length = h.seats.length + 1 := by
  obtain ⟨ns, -, hseats⟩ := addLoader_eq joins
  rw [hseats, length_reseat]
  simp

/-- What holds of a loader when it joins, and is kept by whatever happens to it, holds
throughout. -/
theorem Chronicle.induct {P : Bool → List (Deed Value) → Session Tree Value (Listener Value) → Prop}
    (start : ∀ setup sharing ns, (sharing = false → ns = .empty) →
      P sharing (setup.globals.map fun g => .defined g.1 g.2) (opened setup ns))
    (alters : ∀ sharing deeds s defined t new, s.AtRest → P sharing deeds s →
      Session.Alters sharing s defined t → t.deeds = s.deeds ++ new →
      P sharing (deeds ++ (defined ++ new)) t)
    (c : Chronicle loader deeds h) :
    (h.seats.length ≤ loader → deeds = []) ∧
      ∀ seat, h.seats[loader]? = some seat → P seat.sharing deeds seat.session := by
  have hbeside {sharing : Bool} {deeds : List (Deed Value)}
      {s t : Session Tree Value (Listener Value)} (rest : s.AtRest) (hs : P sharing deeds s)
      (halters : Session.Alters sharing s [] t) (same : t.deeds = s.deeds) : P sharing deeds t := by
    have hnew : t.deeds = s.deeds ++ [] := by rw [same, List.append_nil]
    simpa using alters _ _ _ _ _ _ rest hs halters hnew
  induction c with
  | empty => exact ⟨fun _ => rfl, by simp [ofSeats]⟩
  | @join deeds h h' before setup sharing joins ih =>
    obtain ⟨hnone, hseat⟩ := ih
    refine ⟨fun hle => ?_, fun seat' hs' => ?_⟩
    · rw [length_of_join joins] at hle
      rw [hnone (by omega), starts, if_neg (by omega), List.append_nil]
    · rcases seat_of_join joins hs' with
        ⟨rfl, ns, hempty, hsharing, halters, hdeeds⟩ | ⟨he, seat, hs, hsharing, halters, hdeeds⟩
      · rw [hnone (Nat.le_refl _), starts, if_pos rfl, hsharing]
        exact hbeside (Session.atRest_fresh ..) (start setup sharing ns hempty) halters hdeeds
      · rw [starts, if_neg he, List.append_nil, hsharing]
        exact hbeside (before.atRest (session?_eq hs)) (hseat seat hs) halters hdeeds
  | ask _ step ih => exact ih
  | @tick deeds h before ih =>
    have halters := h.alters_tick
    refine ⟨fun hle => ?_, fun seat' hs' => ?_⟩
    · rw [halters.length] at hle
      have hnone : h.seats[loader]? = none := List.getElem?_eq_none hle
      have hdefines : h.defines loader = [] := defines_of_none hnone
      have hexecutes : h.executes loader = [] := by
        simp [executes, session?, hnone]
      rw [ih.1 hle, hdefines, hexecutes]
      rfl
    · have hlt := (List.getElem?_eq_some_iff.mp hs').1
      rw [halters.length] at hlt
      have hs : h.seats[loader]? = some _ := List.getElem?_eq_getElem hlt
      obtain ⟨hsharing, hsession, hdeeds⟩ :=
        halters.executes (fun s hs => before.atRest hs) hs hs'
      have := alters _ _ _ _ _ _ (before.atRest (session?_eq hs)) (ih.2 _ hs) hsession hdeeds
      rwa [hsharing]
  | collect _ replies ih => exact ih

end Host

end UnitLoader
