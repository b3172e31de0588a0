import UnitLoader.Host.Answer

/-! A host at work. What is left to be done stands in an agenda, the next task
first. A task changes at most one loader, and listeners are called by tasks of
their own, so whenever a listener is called all loaders are at rest. What a
listener does stands before what its call interrupted. -/

namespace UnitLoader

inductive Reply (Value : Type)
  | done
  | unit (id : UnitId)
  | subscribed (result : Except LoaderError UnitId)
  | listening (result : Except LoaderError Unit)
  | value (result : Except LoaderError Value)
  | count (number : Nat)
  | flag (value : Bool)
  /-- Waiting would not end by itself. -/
  | wouldBlock
  /-- The namespace is read by somebody else, and nothing was defined in it. -/
  | refused
  | quiet (idle : Bool) (pending : Nat)
  /-- The rounds of a drain: requests answered and answers taken. -/
  | rounds (rounds : List (Nat × Nat))
  | answer (answer : Answer Value)
  | several (replies : List (Reply Value))
  | dropped
  | unclear (reason : String)

/-- What can be seen of a host at work, apart from the reply to a step. -/
inductive Note (Value : Type)
  | worked (loader : Nat) (event : Event Value)
  | told (loader : Nat) (unit : UnitId) (label : String) (outcome : Outcome Value)
  | imported (loader : Nat) (unit : UnitId) (label address : String) (value : Value)
      (exports : List (String × Value))
  | followedUp (reply : Reply Value)

/-- The addresses of the requests that a loader called off, in order of their text. -/
def Note.calledOff {Value : Type} (loader : Nat) (notes : List (Note Value)) : List String :=
  (notes.filterMap fun
    | worked l (.cancelled _ address) => if l = loader then some address else none
    | _ => none).mergeSort (· ≤ ·)

/-- What a request that waits replies when no more answers come in. -/
inductive Wait
  /-- The number of answers that it took, if no fetch is left over. -/
  | untilIdle
  | untilQuiet
  | counting
deriving DecidableEq, Repr

inductive Task (Value : Type)
  | carryOut (step : Step Value)
  /-- Calls the listeners that wait in the outbox of a loader, until none does. -/
  | flush (loader : Nat)
  | tell (loader : Nat) (unit : UnitId) (listener : Listener Value) (outcome : Outcome Value)
  | reply (reply : Reply Value)
  | settle (loader : Nat) (unit : UnitId)
  /-- Takes the answers that have arrived, after some were taken already. -/
  | poll (loader : Nat) (taken : Nat)
  /-- Replies to a request that waited, in place of the number of answers taken. -/
  | quiet (loader : Nat) (wait : Wait)
  | drain (loader : Nat) (rounds : List (Nat × Nat))
  /-- Ends a round of a drain, or the drain. -/
  | drained (loader : Nat) (rounds : List (Nat × Nat)) (released : Nat)
  /-- Notes the last reply as that to a step of a listener. -/
  | note
  /-- Ends a hold of a namespace and gathers the replies to the steps under it. -/
  | letGo (loader : Nat) (before : Bool) (steps : Nat)

/-- The loader that a task is part of a request to, or that steps are carried out on. -/
def Task.loader? {Value : Type} : Task Value → Option Nat
  | flush loader => some loader
  | settle loader _ => some loader
  | poll loader _ => some loader
  | quiet loader _ => some loader
  | drain loader _ => some loader
  | drained loader _ _ => some loader
  | letGo loader _ _ => some loader
  | _ => none

structure Seat (Tree Value : Type) where
  session : Session Tree Value (Listener Value)
  /-- Whether it has its namespace in common with the other loaders that share. -/
  sharing : Bool
  dropped : Bool

structure Host (Tree Value : Type) where
  seats : List (Seat Tree Value)
  agenda : List (Task Value)
  /-- The replies that no task has taken yet, the last one first. -/
  replies : List (Reply Value)
  log : List (Note Value)

def Wait.reply {Tree Value : Type} (wait : Wait) (s : Session Tree Value (Listener Value))
    (taken : Nat) : Reply Value :=
  match wait with
  | untilIdle => if s.isIdle then .count taken else .wouldBlock
  | untilQuiet => .flag s.isIdle
  | counting => .quiet s.isIdle s.pending.length

namespace Host

variable {Tree Value : Type}

def ofSeats (seats : List (Seat Tree Value)) : Host Tree Value :=
  ⟨seats, [], [], []⟩

def isAtRest (h : Host Tree Value) : Bool :=
  h.agenda.isEmpty

def answer (h : Host Tree Value) (reply : Reply Value) : Host Tree Value :=
  { h with replies := reply :: h.replies }

def first (h : Host Tree Value) (tasks : List (Task Value)) : Host Tree Value :=
  { h with agenda := tasks ++ h.agenda }

def session? (h : Host Tree Value) (loader : Nat) :
    Option (Session Tree Value (Listener Value)) :=
  (h.seats[loader]?).map (·.session)

/-- A loader that was not dropped, or that a request is under way to. -/
def isAlive (h : Host Tree Value) (loader : Nat) : Bool :=
  match h.seats[loader]? with
  | none => false
  | some seat => !seat.dropped || h.agenda.any (·.loader? = some loader)

/-- Passes the namespace of a session on to a seat that shares it. -/
def share (s : Session Tree Value (Listener Value)) (seat : Seat Tree Value) :
    Seat Tree Value :=
  if seat.sharing then { seat with session := { seat.session with ns := s.ns, held := s.held } }
  else seat

/-- Seats with a changed session, whose namespace all that share it get to see. -/
def reseat (seats : List (Seat Tree Value)) (loader : Nat)
    (s : Session Tree Value (Listener Value)) : List (Seat Tree Value) :=
  match seats[loader]? with
  | none => seats
  | some seat =>
    (if seat.sharing then seats.map (share s) else seats).set loader { seat with session := s }

/-- Puts a changed session back, and what it did into the log. -/
def put (h : Host Tree Value) (loader : Nat) (s : Session Tree Value (Listener Value)) :
    Host Tree Value :=
  let before := ((h.session? loader).map (·.history.length)).getD 0
  { h with
    seats := reseat h.seats loader s
    log := h.log ++ (s.history.drop before).map (.worked loader) }

def request (h : Host Tree Value) (loader : Nat) (s : Session Tree Value (Listener Value)) :
    Request Value → Host Tree Value
  | .load address kind =>
    let r := s.load address kind
    (h.put loader r.session).first [.flush loader, .reply (.unit r.id)]
  | .loadSync address kind =>
    let r := s.loadSync address kind
    (h.put loader r.session).first [.flush loader, .settle loader r.id]
  | .eval code =>
    let r := s.eval code none
    (h.put loader r.session).first [.flush loader, .settle loader r.id]
  | .define name value =>
    match s.define name value with
    | none => h.answer .refused
    | some s => (h.put loader s).answer .done
  | .poll => h.first [.poll loader 0]
  | .runUntilIdle => h.first [.poll loader 0, .quiet loader .untilIdle]
  | .tryUntilIdle =>
    if s.isIdle || s.fetcher.prompt then h.first [.poll loader 0, .quiet loader .untilIdle]
    else h.answer .wouldBlock
  | .runUntilQuiet => h.first [.poll loader 0, .quiet loader .untilQuiet]
  | .countUntilQuiet => h.first [.poll loader 0, .quiet loader .counting]
  | .drain => h.first [.drain loader []]
  | .ask question => h.answer (.answer (s.answer question))

def supply (h : Host Tree Value) (loader : Nat) (s : Session Tree Value (Listener Value)) :
    Supply → Host Tree Value
  | .release address =>
    let (number, s) := s.release address
    (h.put loader s).answer (.count number)
  | .releaseAll =>
    let (number, s) := s.releaseAll
    (h.put loader s).answer (.count number)
  | .insert address text =>
    (h.put loader { s with fetcher := s.fetcher.insert address text }).answer .done
  | .respond address result =>
    let (found, s) := s.respond address result
    (h.put loader s).answer (.flag found)
  | .forget address =>
    let (found, s) := s.respond address (.error (.abandoned address))
    (h.put loader s).answer (.flag found)
  | .fetches address => h.answer (.answer (s.fetcher.record address))
  | .requests => h.answer (.answer (.requests s.fetcher.parked))

def subscribe (h : Host Tree Value) (loader : Nat) (s : Session Tree Value (Listener Value))
    (label : String) (followUps : List (Step Value)) : Subject → Host Tree Value
  | .load address kind =>
    match s.loadWith address kind ⟨label, none, followUps⟩ with
    | (.error e, s) => (h.put loader s).answer (.subscribed (.error e))
    | (.ok id, s) => (h.put loader s).first [.flush loader, .reply (.subscribed (.ok id))]
  | .module address =>
    let resolved := s.resolveAddress address
    match s.loadWith resolved .module ⟨label, some resolved, followUps⟩ with
    | (.error e, s) => (h.put loader s).answer (.subscribed (.error e))
    | (.ok id, s) => (h.put loader s).first [.flush loader, .reply (.subscribed (.ok id))]
  | .eval code =>
    let r := s.eval code (some ⟨label, none, followUps⟩)
    (h.put loader r.session).first [.flush loader, .reply (.unit r.id)]
  | .unit id =>
    match s.addListener id ⟨label, none, followUps⟩ with
    | .error e => h.answer (.listening (.error e))
    | .ok s => (h.put loader s).answer (.listening (.ok ()))

/-- Does something with the session of a loader that was not dropped. -/
def withLoader (h : Host Tree Value) (loader : Nat)
    (f : Session Tree Value (Listener Value) → Host Tree Value) : Host Tree Value :=
  match h.seats[loader]? with
  | none => h.answer .dropped
  | some seat => if seat.dropped then h.answer .dropped else f seat.session

def carryOut (h : Host Tree Value) : Step Value → Host Tree Value
  | .request loader r => h.withLoader loader fun s => h.request loader s r
  | .supply loader r =>
    match h.session? loader with
    | none => h.answer .dropped
    | some s => h.supply loader s r
  | .subscribe loader subject label followUps =>
    h.withLoader loader fun s => h.subscribe loader s label followUps subject
  | .hold loader steps =>
    h.withLoader loader fun s =>
      (h.put loader { s with held := true }).first
        (steps.map .carryOut ++ [.letGo loader s.held steps.length])
  | .drop loader =>
    let gone := { h with seats := h.seats.modify loader fun seat => { seat with dropped := true } }
    gone.answer (.flag (gone.isAlive loader))
  | .isAlive loader => h.answer (.flag (h.isAlive loader))
  | .unclear reason => h.answer (.unclear reason)

def flush (h : Host Tree Value) (loader : Nat) (s : Session Tree Value (Listener Value)) :
    Host Tree Value :=
  match s.outbox with
  | [] => h
  | outbox =>
    (h.put loader { s with outbox := [] }).first
      (outbox.flatMap (fun n => n.listeners.map fun l => .tell loader n.unit l n.outcome) ++
        [.flush loader])

def noteFor (h : Host Tree Value) (loader : Nat) (unit : UnitId) (listener : Listener Value)
    (outcome : Outcome Value) : Note Value :=
  match listener.importedFrom, outcome with
  | some address, .complete value =>
    .imported loader unit listener.label address value
      (((h.session? loader).map (·.exportsOf address)).getD [])
  | _, _ => .told loader unit listener.label outcome

def tell (h : Host Tree Value) (loader : Nat) (unit : UnitId) (listener : Listener Value)
    (outcome : Outcome Value) : Host Tree Value :=
  { h with log := h.log ++ [h.noteFor loader unit listener outcome] }.first
    (listener.followUps.flatMap fun step => [.carryOut step, .note])

def takeCount (h : Host Tree Value) : Nat × Host Tree Value :=
  match h.replies with
  | .count number :: rest => (number, { h with replies := rest })
  | _ => (0, h)

def perform (h : Host Tree Value) : Task Value → Host Tree Value
  | .carryOut step => h.carryOut step
  | .flush loader => ((h.session? loader).map (h.flush loader)).getD h
  | .tell loader unit listener outcome => h.tell loader unit listener outcome
  | .reply reply => h.answer reply
  | .settle loader id =>
    ((h.session? loader).map fun s => h.answer (.value (s.settledValue id))).getD h
  | .poll loader taken =>
    match (h.session? loader).bind (·.receive?) with
    | none => h.answer (.count taken)
    | some s => (h.put loader s).first [.flush loader, .poll loader (taken + 1)]
  | .quiet loader wait =>
    match h.session? loader with
    | none => h
    | some s => h.takeCount.2.answer (wait.reply s h.takeCount.1)
  | .drain loader rounds =>
    match h.session? loader with
    | none => h
    | some s =>
      let (released, s) := s.releaseAll
      (h.put loader s).first [.poll loader 0, .drained loader rounds released]
  | .drained loader rounds released =>
    let (taken, h) := h.takeCount
    if released = 0 ∧ taken = 0 then h.answer (.rounds rounds)
    else h.first [.drain loader (rounds ++ [(released, taken)])]
  | .note =>
    match h.replies with
    | [] => h
    | reply :: rest => { h with replies := rest, log := h.log ++ [.followedUp reply] }
  | .letGo loader before steps =>
    match h.session? loader with
    | none => h
    | some s =>
      { h.put loader { s with held := before } with replies := h.replies.drop steps }.answer
        (.several (h.replies.take steps).reverse)

def tick (h : Host Tree Value) : Host Tree Value :=
  match h.agenda with
  | [] => h
  | task :: rest => { h with agenda := rest }.perform task

/-- Does tasks until there are none, but not more than a given number. -/
def run : Nat → Host Tree Value → Host Tree Value
  | 0, h => h
  | ticks + 1, h => if h.isAtRest then h else run ticks h.tick

/-- Has a step carried out. There is a reply when the host comes to rest in time. -/
def take (ticks : Nat) (h : Host Tree Value) (step : Step Value) :
    Option (Reply Value) × Host Tree Value :=
  let after := run ticks (h.first [.carryOut step])
  match after.replies with
  | reply :: rest =>
    if after.isAtRest then (some reply, { after with replies := rest }) else (none, after)
  | [] => (none, after)

end Host

end UnitLoader
