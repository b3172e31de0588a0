import UnitLoader.Cache
import UnitLoader.Toolchain

/-! The stages that take units from text to a value, applied to the units of a
cache. What they report, what they learn of the units' exports and what they did
is kept with the cache. When a stage reports an error, no unit of the batch gets
past it: the units with an error of their own fail with that, and the others are
aborted because of the first error. -/

namespace UnitLoader

/-- Something that was done to a unit, or asked for it. -/
inductive Event (Value : Type)
  | requested (id : UnitId) (address : String)
  | received (id : UnitId) (address : String)
  | fetched (id : UnitId) (address : String)
  | cancelled (id : UnitId) (address : String)
  | parsed (id : UnitId) (address : String) (kind : Kind)
  | analyzed (ids : List UnitId) (addresses : List String)
  | transformed (id : UnitId) (address : String) (kind : Kind)
  | executed (id : UnitId) (code : String) (result : Except String Value)

namespace Event

variable {Value : Type}

/-- The phase that an event is a call of. Asking for a text and calling that off
are no calls; its arrival is one. -/
def phase? : Event Value → Option Phase
  | requested _ _ => none
  | cancelled _ _ => none
  | received _ _ => some .fetch
  | fetched _ _ => some .fetch
  | parsed _ _ _ => some .parse
  | analyzed _ _ => some .analyze
  | transformed _ _ _ => some .transform
  | executed _ _ _ => some .evaluate

end Event

structure Build (Tree Value Listener : Type) where
  cache : Cache Tree Value Listener
  reporter : Reporter
  project : Project
  history : List (Event Value)

namespace Build

variable {Tree Value Listener : Type}

def empty (project : Project) : Build Tree Value Listener :=
  ⟨.empty, .empty, project, []⟩

def record (b : Build Tree Value Listener) (e : Event Value) : Build Tree Value Listener :=
  { b with history := b.history ++ [e] }

def modify (b : Build Tree Value Listener) (id : UnitId)
    (f : SourceUnit Tree Value Listener → SourceUnit Tree Value Listener) :
    Build Tree Value Listener :=
  { b with cache := b.cache.modify id f }

def report (b : Build Tree Value Listener) (d : Diagnostic) : Build Tree Value Listener :=
  { b with reporter := b.reporter.report d }

def calls (b : Build Tree Value Listener) (phase : Phase) : Nat :=
  b.history.countP (·.phase? = some phase)

/-- Whether a unit was parsed, and the build after it. -/
structure Parsing (Tree Value Listener : Type) where
  passed : Bool
  build : Build Tree Value Listener

/-- Parses the text of a unit. Its file is registered in any case; the tree is kept
only when the text has no error. -/
def parse (tools : Toolchain Tree Value) (b : Build Tree Value Listener) (id : UnitId) :
    Parsing Tree Value Listener :=
  match b.cache.get? id with
  | none => ⟨false, b⟩
  | some u =>
    let file : SourceFile := ⟨u.address, u.text.getD ""⟩
    let read := tools.parse file u.kind
    let told : Build Tree Value Listener :=
      { b with
        project := b.project.addFile file
        reporter := b.reporter.reportAll read.diagnostics
        history := b.history ++ [.parsed id u.address u.kind] }
    if read.diagnostics.any Diagnostic.isError then ⟨false, told⟩
    else
      ⟨true, { told with
        project := told.project.setParsed u.address
        cache := told.cache.modify id fun v => { v with tree := some read.value } }⟩

def register (b : Build Tree Value Listener) (id : UnitId) : Build Tree Value Listener :=
  match b.cache.get? id with
  | none => b
  | some u => { b with project := b.project.addModule u.address }

def specifiers (tools : Toolchain Tree Value) (b : Build Tree Value Listener) (id : UnitId) :
    List String :=
  match (b.cache.get? id).bind (·.tree) with
  | none => []
  | some tree => tools.specifiers tree

def moduleExports (tools : Toolchain Tree Value) (b : Build Tree Value Listener)
    (address : String) (ns : Namespace Value) : List (String × Value) :=
  (b.project.exportsOf address).filterMap fun name =>
    (tools.exportedValue address name ns).map fun value => (name, value)

/-- A build after a check. A batch that did not pass gives the units that it failed. -/
structure Verdict (Tree Value Listener : Type) where
  failed : Option (List UnitId)
  build : Build Tree Value Listener

/-- The error that a phase gives a unit: its own first one, or an abort because of
the first error of all. -/
def phaseError (phase : Phase) (first : Diagnostic) (errors : List Diagnostic)
    (address : String) : LoadError :=
  match errors.find? (·.address = some address) with
  | some own => .ofPhase phase address own.message
  | none => .aborted address (.ofPhase phase (first.address.getD "") first.message)

/-- Fails one unit of a batch unless it is settled, and adds it to the failed ones. -/
def failUnit (errorFor : String → LoadError) (v : List UnitId × Cache Tree Value Listener)
    (id : UnitId) : List UnitId × Cache Tree Value Listener :=
  match v.2.get? id with
  | none => v
  | some u =>
    if u.state.isSettled then v
    else (v.1 ++ [id], v.2.modify id (·.fail (errorFor u.address)))

/-- Fails a batch when errors were reported since a mark. -/
def check (b : Build Tree Value Listener) (ids : List UnitId) (phase : Phase) (mark : Mark) :
    Verdict Tree Value Listener :=
  match b.reporter.errorsSince mark with
  | [] => ⟨none, b⟩
  | first :: others =>
    let failed := ids.foldl (failUnit (phaseError phase first (first :: others))) ([], b.cache)
    ⟨some failed.1, { b with cache := failed.2 }⟩

/-- A unit as analysis sees it, when it is at the right point for it. -/
def target? (c : Cache Tree Value Listener) (id : UnitId) : Option (UnitId × Target Tree) :=
  match c.get? id with
  | none => none
  | some u =>
    if u.state = .parsed then u.tree.map fun tree => (id, ⟨u.address, u.kind, tree⟩) else none

/-- Analyses the parsed units of a batch in one call. -/
def analyze (tools : Toolchain Tree Value) (b : Build Tree Value Listener) (ids : List UnitId) :
    Verdict Tree Value Listener :=
  let mark := b.reporter.mark
  let batch := ids.filterMap (target? b.cache)
  match batch with
  | [] => b.check ids .analyze mark
  | _ :: _ =>
    let done := tools.analyze (batch.map (·.2)) b.project
    let told : Build Tree Value Listener :=
      { b with
        project := done.value
        reporter := b.reporter.reportAll done.diagnostics
        history := b.history ++ [.analyzed (batch.map (·.1)) (batch.map (·.2.address))] }
    told.check ids .analyze mark

/-- The units visited so far and the order in which they are to be transformed. -/
structure Visited where
  seen : List UnitId
  order : List UnitId
deriving DecidableEq, Repr

/-- Visits a parsed unit after its imports. A unit that is being visited is not
visited again, which also ends cycles; each level visits a further unit, so a
depth of the size of the cache is never used up. -/
def visit (c : Cache Tree Value Listener) : Nat → Visited → UnitId → Visited
  | 0, v, _ => v
  | depth + 1, v, id =>
    if c.isIn .parsed id ∧ id ∉ v.seen then
      let inner := (c.dependencyIds id).foldl (fun v next => visit c depth v next)
        ⟨id :: v.seen, v.order⟩
      ⟨inner.seen, inner.order ++ [id]⟩
    else v

/-- The parsed units that some units lead to, imports first. -/
def transformOrder (c : Cache Tree Value Listener) (ids : List UnitId) : List UnitId :=
  (ids.foldl (visit c c.size) ⟨[], []⟩).order

def transformUnit (tools : Toolchain Tree Value) (b : Build Tree Value Listener) (id : UnitId) :
    Build Tree Value Listener :=
  match b.cache.get? id with
  | none => b
  | some u =>
    match u.tree with
    | none => b
    | some tree =>
      let done := tools.transform ⟨u.address, u.kind, tree⟩ b.project
      { b with
        reporter := b.reporter.reportAll done.diagnostics
        history := b.history ++ [.transformed id u.address u.kind]
        cache := b.cache.modify id fun v =>
          { v with transformed := some done.value }.advance .transformed }

/-- Transforms the parsed units that a batch leads to. -/
def transform (tools : Toolchain Tree Value) (b : Build Tree Value Listener)
    (ids : List UnitId) : Verdict Tree Value Listener :=
  ((transformOrder b.cache ids).foldl (transformUnit tools) b).check ids .transform b.reporter.mark

def write (tools : Toolchain Tree Value) (b : Build Tree Value Listener) (id : UnitId) :
    Option String :=
  ((b.cache.get? id).bind (·.transformed)).map tools.write

/-- What executing a unit gives, and the build with that noted down. -/
structure Execution (Tree Value Listener : Type) where
  result : Except String Value
  ns : Namespace Value
  build : Build Tree Value Listener

def execute (tools : Toolchain Tree Value) (b : Build Tree Value Listener) (id : UnitId)
    (ns : Namespace Value) : Execution Tree Value Listener :=
  match b.write tools id with
  | none =>
    ⟨.error (String.join ["'", b.cache.addressOf id, "' has not been transformed"]), ns, b⟩
  | some code =>
    let done := tools.execute code ns
    ⟨done.result, done.ns, b.record (.executed id code done.result)⟩

end Build

end UnitLoader
