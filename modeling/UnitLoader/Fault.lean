import UnitLoader.Text.Lines
import UnitLoader.Toolchain

/-! Faults that are planted in a toolchain, to see what a loader makes of them. A
stage that reports does its work first and then reports the diagnostics of all
faults that it meets; a stage that gives a text or a value gives that of the first
fault in its stead. -/

namespace UnitLoader

inductive Fault
  /-- Met when the file with this name is parsed. -/
  | parse (name : String) (diagnostic : Diagnostic)
  /-- Met when a batch with this address is analysed. -/
  | analyze (address : String) (diagnostic : Diagnostic)
  /-- Met when the unit at this address is transformed. -/
  | transform (address : String) (diagnostic : Diagnostic)
  /-- Met when the written text contains a part. -/
  | write (part text : String)
  /-- Met when the code to execute contains a part. -/
  | execute (part message : String)
deriving DecidableEq, Repr

namespace Fault

def inParsing (file : SourceFile) : Fault → Option Diagnostic
  | parse name d => if file.name = name then some d else none
  | _ => none

def inAnalysis (addresses : List String) : Fault → Option Diagnostic
  | analyze address d => if address ∈ addresses then some d else none
  | _ => none

def inTransform (unit : String) : Fault → Option Diagnostic
  | transform address d => if unit = address then some d else none
  | _ => none

def inWriting (written : String) : Fault → Option String
  | write part text => if Text.contains part.toList written.toList then some text else none
  | _ => none

def inExecution (code : String) : Fault → Option String
  | execute part message => if Text.contains part.toList code.toList then some message else none
  | _ => none

end Fault

variable {Tree Value : Type}

def Toolchain.withFaults (tools : Toolchain Tree Value) (faults : List Fault) :
    Toolchain Tree Value :=
  { tools with
    parse := fun file kind =>
      let read := tools.parse file kind
      { read with diagnostics := read.diagnostics ++ faults.filterMap (Fault.inParsing file) }
    analyze := fun targets project =>
      let done := tools.analyze targets project
      { done with
        diagnostics := done.diagnostics ++
          faults.filterMap (Fault.inAnalysis (targets.map (·.address))) }
    transform := fun target project =>
      let done := tools.transform target project
      { done with
        diagnostics := done.diagnostics ++ faults.filterMap (Fault.inTransform target.address) }
    write := fun tree =>
      let written := tools.write tree
      (faults.findSome? (Fault.inWriting written)).getD written
    execute := fun code ns =>
      match faults.findSome? (Fault.inExecution code) with
      | some message => ⟨.error message, ns⟩
      | none => tools.execute code ns }

end UnitLoader
