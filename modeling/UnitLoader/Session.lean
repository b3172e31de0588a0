import UnitLoader.Build
import UnitLoader.EvaluationOrder
import UnitLoader.Fetcher

/-! The state of a loader and what changes it. Units are fetched, parsed and asked
for their imports, and these are loaded in turn. As soon as all units of the cache
are parsed, the whole cache is a batch: it is analysed, transformed and executed
together. Whatever fails, the whole batch fails with it.

Listeners are never called here. What they are to be told waits in the outbox, so
a listener is only called while the state is at rest, and may use the loader. -/

namespace UnitLoader

/-- Listeners of a unit and what they are to be told. -/
structure Notification (Value Listener : Type) where
  unit : UnitId
  listeners : List Listener
  outcome : Outcome Value

structure Session (Tree Value Listener : Type) extends Build Tree Value Listener where
  tools : Toolchain Tree Value
  baseAddress : String
  /-- Whether every fetch blocks until its text is there. -/
  sync : Bool
  /-- Applied to every fetched text. -/
  translate : String → String
  fetcher : Fetcher
  /-- The answers that wait to be taken, oldest first. -/
  channel : List Completion
  pending : List UnitId
  outbox : List (Notification Value Listener)
  ns : Namespace Value
  /-- Whether somebody else is reading the namespace, so that nothing can be executed. -/
  held : Bool

namespace Session

variable {Tree Value Listener : Type}

def fresh (tools : Toolchain Tree Value) (baseAddress : String) (sync : Bool)
    (resolver : Resolver) (translate : String → String) (fetcher : Fetcher)
    (ns : Namespace Value) : Session Tree Value Listener where
  toBuild := .empty (.empty baseAddress resolver)
  tools := tools
  baseAddress := baseAddress
  sync := sync
  translate := translate
  fetcher := fetcher
  channel := []
  pending := []
  outbox := []
  ns := ns
  held := false

def onBuild (s : Session Tree Value Listener)
    (f : Build Tree Value Listener → Build Tree Value Listener) : Session Tree Value Listener :=
  { s with toBuild := f s.toBuild }

def modifyUnit (s : Session Tree Value Listener) (id : UnitId)
    (f : SourceUnit Tree Value Listener → SourceUnit Tree Value Listener) :
    Session Tree Value Listener :=
  s.onBuild (·.modify id f)

def record (s : Session Tree Value Listener) (e : Event Value) : Session Tree Value Listener :=
  s.onBuild (·.record e)

def resolveAddress (s : Session Tree Value Listener) (address : String) : String :=
  s.project.resolve address s.baseAddress

/-! ### Ending a batch -/

/-- Takes a failed unit's listeners and puts what they are to be told into the outbox. -/
def notifyFailure (s : Session Tree Value Listener) (id : UnitId) : Session Tree Value Listener :=
  match s.cache.get? id with
  | none => s
  | some u =>
    if u.state = .error ∧ u.listeners ≠ [] then
      let error := u.error.getD
        (.aborted u.address (.execution u.address "batch aborted"))
      { s.modifyUnit id fun v => { v with listeners := [] } with
        outbox := s.outbox ++ [⟨id, u.listeners, .failed error⟩] }
    else s

def notifyFailures (s : Session Tree Value Listener) : Session Tree Value Listener :=
  s.cache.ids.foldl notifyFailure s

def cancelFetch (s : Session Tree Value Listener) (id : UnitId) : Session Tree Value Listener :=
  match s.cache.get? id with
  | none => s
  | some u =>
    if u.cancellable then
      let s := s.modifyUnit id fun v => { v with cancellable := false }
      { s.record (.cancelled id u.address) with fetcher := s.fetcher.cancel id }
    else s

def abortUnit (root : LoadError) (s : Session Tree Value Listener) (id : UnitId) :
    Session Tree Value Listener :=
  s.modifyUnit id fun u => u.fail (.aborted u.address root)

/-- Calls off all fetches and aborts all units that are not settled. -/
def abortAll (s : Session Tree Value Listener) (cause : LoadError) :
    Session Tree Value Listener :=
  let quiet := s.pending.foldl cancelFetch { s with pending := [] }
  (quiet.cache.ids.foldl (abortUnit cause.rootCause) quiet).notifyFailures

def failBatch (s : Session Tree Value Listener) (id : UnitId) (error : LoadError) :
    Session Tree Value Listener :=
  (s.modifyUnit id (·.fail error)).abortAll error

/-- Aborts a batch whose check failed these units. -/
def abortFailed (s : Session Tree Value Listener) (failed : List UnitId) :
    Session Tree Value Listener :=
  match failed.findSome? fun id => (s.cache.get? id).bind (·.error) with
  | some error => s.abortAll error.rootCause
  | none => s.notifyFailures

/-! ### Executing a batch -/

def completeUnit (s : Session Tree Value Listener) (id : UnitId) : Session Tree Value Listener :=
  s.modifyUnit id (·.advance .complete)

/-- Puts the value of a complete unit into the outbox for its listeners. -/
def notifySuccess (s : Session Tree Value Listener) (id : UnitId) : Session Tree Value Listener :=
  match s.cache.get? id with
  | none => s
  | some u =>
    match u.listeners, u.result with
    | _ :: _, some value =>
      { s.modifyUnit id fun v => { v with listeners := [] } with
        outbox := s.outbox ++ [⟨id, u.listeners, .complete value⟩] }
    | _, _ => s

/-- Executes the transformed units among `order`. No unit is complete before all of
them have run. -/
def runUnits (s : Session Tree Value Listener) (done : List UnitId) :
    List UnitId → Session Tree Value Listener
  | [] =>
    done.foldl notifySuccess (done.foldl completeUnit s)
  | id :: rest =>
    if s.cache.isIn .transformed id then
      let run := s.toBuild.execute s.tools id s.ns
      let s := { s with toBuild := run.build, ns := run.ns }
      match run.result with
      | .ok value => (s.modifyUnit id (·.finish value)).runUnits (done ++ [id]) rest
      | .error message =>
        let address := s.cache.addressOf id
        (s.onBuild (·.report (.ofUnit .evaluate address message))).failBatch id
          (.execution address message)
    else s.runUnits done rest

def evaluate (s : Session Tree Value Listener) : Session Tree Value Listener :=
  if s.held then
    s.abortAll (.execution s.baseAddress "execution namespace is already borrowed")
  else s.runUnits [] s.cache.evaluationOrder

/-- Whether all units are parsed and some of them wait to be executed. -/
def barrierReached (s : Session Tree Value Listener) : Bool :=
  s.cache.areAll State.isPastParsing && s.cache.hasAny (· = .parsed)

/-- Takes the cache through the later stages when the barrier is reached. -/
def checkBarrier (s : Session Tree Value Listener) : Session Tree Value Listener :=
  if s.barrierReached then
    let analysed := s.toBuild.analyze s.tools s.cache.ids
    let s := { s with toBuild := analysed.build }
    match analysed.failed with
    | some failed => s.abortFailed failed
    | none =>
      let transformed := s.toBuild.transform s.tools s.cache.ids
      let s := { s with toBuild := transformed.build }
      match transformed.failed with
      | some failed => s.abortFailed failed
      | none => s.evaluate
  else s

/-! ### Loading -/

/-- The units that specifiers lead to, in order and without repetition, and the
build with those units in its cache. -/
def importUnits (referrer : String) : List String → List UnitId → Build Tree Value Listener →
    List UnitId × Build Tree Value Listener
  | [], ids, b => (ids, b)
  | specifier :: rest, ids, b =>
    let found := b.cache.getOrInsert (b.project.resolve specifier referrer) .module
    let ids := if found.id ∈ ids then ids else ids ++ [found.id]
    importUnits referrer rest ids { b with cache := found.cache }

/-- What the specifiers of a unit are relative to. -/
def referrer (s : Session Tree Value Listener) (id : UnitId) : String :=
  match s.cache.get? id with
  | none => s.baseAddress
  | some u => if u.origin.resolvesAgainstBase then s.baseAddress else u.address

/-- Fixes the dependencies of a parsed unit. Specifiers are taken in order of their
text, so the order of the imports in a source makes no difference. -/
def discover (s : Session Tree Value Listener) (id : UnitId) : Session Tree Value Listener :=
  let specifiers := (s.toBuild.specifiers s.tools id).mergeSort (· ≤ ·)
  let found := importUnits (s.referrer id) specifiers [] s.toBuild
  { s with toBuild := found.2.modify id (·.fixDependencies found.1) }

/-- Parses a unit that has its text, and loads what it imports with `load`. -/
def handleLoaded (load : Session Tree Value Listener → UnitId → Session Tree Value Listener)
    (s : Session Tree Value Listener) (id : UnitId) : Session Tree Value Listener :=
  let address := s.cache.addressOf id
  let mark := s.reporter.mark
  let parsing := s.toBuild.parse s.tools id
  let s := { s with toBuild := parsing.build }
  if parsing.passed then
    let s := (s.modifyUnit id (·.advance .parsed)).onBuild (·.register id)
    let s := s.discover id
    let dependencies := s.cache.dependencyIds id
    match dependencies.find? (s.cache.isIn .error) with
    | some failed => s.failBatch id (.dependency address (s.cache.addressOf failed))
    | none => (dependencies.foldl load s).checkBarrier
  else
    let error := LoadError.parse address (s.reporter.messageSince mark)
    (s.modifyUnit id (·.recordError error)).abortAll error

def handleFetched (load : Session Tree Value Listener → UnitId → Session Tree Value Listener)
    (s : Session Tree Value Listener) (id : UnitId) (result : Except FetchError String) :
    Session Tree Value Listener :=
  match result with
  | .ok text =>
    handleLoaded load
      (s.modifyUnit id fun u => { u with text := some (s.translate text) }.advance .loaded) id
  | .error e =>
    let address := s.cache.addressOf id
    (s.onBuild (·.report (.ofUnit .fetch address e.text))).failBatch id (.fetch address e.text)

/-- Asks the fetcher for the text of a unit without waiting for it. -/
def request (s : Session Tree Value Listener) (id : UnitId) : Session Tree Value Listener :=
  let address := s.cache.addressOf id
  let asked := s.fetcher.note address
  let s := (s.record (.requested id address)).modifyUnit id fun u => { u with cancellable := true }
  let s := { s with pending := s.pending ++ [id] }
  if asked.prompt then
    { s with fetcher := asked, channel := s.channel ++ [⟨id, address, asked.answer address⟩] }
  else { s with fetcher := asked.park id address }

/-- Starts a unit that has not been started. When fetches block, the units that
it imports are loaded before this returns; a chain of them longer than `depth` is
given up as unanswered. -/
def loadUnit (depth : Nat) (s : Session Tree Value Listener) (id : UnitId) :
    Session Tree Value Listener :=
  if s.cache.isIn .notStarted id then
    let s := s.modifyUnit id (·.advance .loading)
    if s.sync then
      let address := s.cache.addressOf id
      match depth with
      | 0 => handleFetched (fun s _ => s) s id (.error (.abandoned address))
      | depth + 1 =>
        let s := { s.record (.fetched id address) with fetcher := s.fetcher.note address }
        handleFetched (loadUnit depth) s id (s.fetcher.answer address)
    else s.request id
  else s

/-- More than any chain of blocking fetches can take: each link but the first and
the last is a module whose address the fetcher answers with a text. -/
def depth (s : Session Tree Value Listener) : Nat :=
  s.fetcher.reach + 2

/-! ### Requests -/

structure Requested (Tree Value Listener : Type) where
  id : UnitId
  session : Session Tree Value Listener

/-- The unit of an address, which is added when it is new. -/
def find (s : Session Tree Value Listener) (address : String) (kind : Kind) :
    Requested Tree Value Listener :=
  let found := s.cache.getOrInsert (s.resolveAddress address) kind
  ⟨found.id, { s with cache := found.cache }⟩

def load (s : Session Tree Value Listener) (address : String) (kind : Kind) :
    Requested Tree Value Listener :=
  let r := s.find address kind
  ⟨r.id, r.session.loadUnit s.depth r.id⟩

def addListener (s : Session Tree Value Listener) (id : UnitId) (listener : Listener) :
    Except LoaderError (Session Tree Value Listener) :=
  match s.cache.get? id with
  | none => .error (.unknownUnit id)
  | some u =>
    match u.addListener listener with
    | .error e => .error e
    | .ok v => .ok (s.modifyUnit id fun _ => v)

/-- Loads a unit with a listener, which is registered first so that it misses nothing. -/
def loadWith (s : Session Tree Value Listener) (address : String) (kind : Kind)
    (listener : Listener) : Except LoaderError UnitId × Session Tree Value Listener :=
  let r := s.find address kind
  match r.session.addListener r.id listener with
  | .error e => (.error e, r.session)
  | .ok s' => (.ok r.id, s'.loadUnit s.depth r.id)

/-- Loads a unit with blocking fetches, whatever the session does otherwise. -/
def loadSync (s : Session Tree Value Listener) (address : String) (kind : Kind) :
    Requested Tree Value Listener :=
  let r := { s with sync := true }.find address kind
  ⟨r.id, { r.session.loadUnit s.depth r.id with sync := s.sync }⟩

/-- Adds a unit with the given text and starts on it. -/
def eval (s : Session Tree Value Listener) (code : String) (listener : Option Listener) :
    Requested Tree Value Listener :=
  let made := s.cache.insertEval s.baseAddress .script
  let s := ({ s with cache := made.cache }).modifyUnit made.id fun u =>
    { u with text := some code, listeners := u.listeners ++ listener.toList }
  ⟨made.id, handleLoaded (loadUnit s.depth) s made.id⟩

/-- Nothing can be defined while somebody else reads the namespace. -/
def define (s : Session Tree Value Listener) (name : String) (value : Value) :
    Option (Session Tree Value Listener) :=
  if s.held then none else some { s with ns := s.ns.define name value }

theorem define_eq_some {s t : Session Tree Value Listener} {name : String} {value : Value}
    (h : s.define name value = some t) :
    s.held = false ∧ t = { s with ns := s.ns.define name value } := by
  simp only [define] at h
  split at h
  · cases h
  · next held => exact ⟨Bool.eq_false_iff.mpr held, (Option.some.inj h).symm⟩

/-! ### Answers to fetches -/

/-- Takes the answer to the fetch of a unit; one that nobody waits for is dropped. -/
def complete (s : Session Tree Value Listener) (c : Completion) : Session Tree Value Listener :=
  let waited := decide (c.unit ∈ s.pending) && s.cache.isIn .loading c.unit
  let s := { s with pending := s.pending.erase c.unit }
  if waited then
    let s := (s.record (.received c.unit c.address)).modifyUnit c.unit fun u =>
      { u with cancellable := false }
    handleFetched (loadUnit s.depth) s c.unit c.result
  else s

/-- Takes the oldest answer that waits in the channel. -/
def receive? (s : Session Tree Value Listener) : Option (Session Tree Value Listener) :=
  match s.channel with
  | [] => none
  | c :: rest => some ({ s with channel := rest }.complete c)

/-- Takes the answers that wait in the channel, but not those that they lead to. -/
def takeAnswers (s : Session Tree Value Listener) : Session Tree Value Listener :=
  s.channel.foldl complete { s with channel := [] }

/-- Takes answers until none waits. With each round but the last two, a further
module of the fetcher's reach has arrived. -/
def takeRounds : Nat → Session Tree Value Listener → Session Tree Value Listener
  | 0, s => s
  | rounds + 1, s => if s.channel.isEmpty then s else takeRounds rounds s.takeAnswers

def runUntilIdle (s : Session Tree Value Listener) : Session Tree Value Listener :=
  takeRounds s.depth s

/-- Answers parked requests, each with `answer` of its address. -/
def answerParked (s : Session Tree Value Listener) (answered : List Parked)
    (answer : String → Except FetchError String) : Session Tree Value Listener :=
  { s with
    channel := s.channel ++
      answered.filterMap fun p => Fetcher.completionOf (answer p.address) p }

def release (s : Session Tree Value Listener) (address : String) :
    Nat × Session Tree Value Listener :=
  let (now, later) := s.fetcher.parked.partition (·.address = address)
  (now.length,
    { s with fetcher := { s.fetcher with parked := later } }.answerParked now s.fetcher.answer)

def releaseAll (s : Session Tree Value Listener) : Nat × Session Tree Value Listener :=
  (s.fetcher.parked.length,
    { s with fetcher := { s.fetcher with parked := [] } }.answerParked s.fetcher.parked
      s.fetcher.answer)

/-- Answers the oldest parked request for an address with a given result. -/
def respond (s : Session Tree Value Listener) (address : String)
    (result : Except FetchError String) : Bool × Session Tree Value Listener :=
  match s.fetcher.parked.find? (·.address = address) with
  | none => (false, s)
  | some p =>
    (true, { s with fetcher := { s.fetcher with parked := s.fetcher.parked.erase p } }.answerParked
      [p] fun _ => result)

/-! ### Questions -/

def unresolved (s : Session Tree Value Listener) : List String :=
  (s.cache.units.filter fun u => !u.state.isPastParsing).map (·.address)

/-- What a unit that was waited for has come to. -/
def settledValue (s : Session Tree Value Listener) (id : UnitId) : Except LoaderError Value :=
  match s.cache.get? id with
  | none => .error (.unknownUnit id)
  | some u =>
    match u.state with
    | .complete =>
      match u.result with
      | some value => .ok value
      | none => .error (.unknownUnit id)
    | .error => .error (.failed (u.error.getD (.execution u.address "unit failed")))
    | _ => .error (.unresolved u.address s.unresolved)

def lookup (s : Session Tree Value Listener) (address : String) (kind : Kind) : Option UnitId :=
  s.cache.lookup (s.resolveAddress address) kind

def isIdle (s : Session Tree Value Listener) : Bool :=
  s.pending.isEmpty

def exportsOf (s : Session Tree Value Listener) (address : String) : List (String × Value) :=
  s.toBuild.moduleExports s.tools (s.resolveAddress address) s.ns

end Session

end UnitLoader
