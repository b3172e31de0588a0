import UnitLoader.Diagnostic
import UnitLoader.Kind
import UnitLoader.Namespace
import UnitLoader.Project

/-! What a loader asks of a language. A loader knows nothing of trees and values
but what these functions do with them. -/

namespace UnitLoader

structure Target (Tree : Type) where
  address : String
  kind : Kind
  tree : Tree

/-- What execution gives: a value or a message, and the namespace it leaves. -/
structure Executed (Value : Type) where
  result : Except String Value
  ns : Namespace Value

structure Toolchain (Tree Value : Type) where
  /-- A text that is not a program gives diagnostics and what could be read of it. -/
  parse : SourceFile → Kind → Reported Tree
  specifiers : Tree → List String
  analyze : List (Target Tree) → Project → Reported Project
  transform : Target Tree → Project → Reported Tree
  write : Tree → String
  execute : String → Namespace Value → Executed Value
  /-- What a unit has published under a name. -/
  exportedValue : String → String → Namespace Value → Option Value

/-- A toolchain that parses the given texts in place of those of the files. -/
def Toolchain.withTexts {Tree Value : Type} (tools : Toolchain Tree Value)
    (texts : List (String × String)) : Toolchain Tree Value :=
  { tools with
    parse := fun file => tools.parse { file with contents := (texts.lookup file.name).getD "" } }

end UnitLoader
