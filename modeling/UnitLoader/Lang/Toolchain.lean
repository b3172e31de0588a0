import UnitLoader.Lang.Execution
import UnitLoader.Lang.Linking
import UnitLoader.Lang.Lowering
import UnitLoader.Lang.Written

/-! The toolchain of the line-oriented language. -/

namespace UnitLoader

namespace Lang

variable [Text.Xid]

def parse (file : SourceFile) (kind : Kind) : Reported Program :=
  let reading := Source.read (Goal.ofKind kind) file.contents
  ⟨⟨kind, reading.lines⟩,
    reading.errors.map fun e => .ofLine .parse file.name e.line e.message⟩

def execute (code : String) (ns : Namespace Value) : Executed Value :=
  let out := Execution.runText code ns
  ⟨out.result.mapError Execution.Failure.message, out.ns⟩

def toolchain : Toolchain Program Value where
  parse := parse
  specifiers := Program.specifiers
  analyze := Linking.analyze
  transform := Lowering.transform
  write := Program.write
  execute := execute
  exportedValue address name ns := ns.get? (publishedKey address name)

end Lang

end UnitLoader
