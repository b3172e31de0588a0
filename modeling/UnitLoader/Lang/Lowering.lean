import UnitLoader.Lang.Program
import UnitLoader.Toolchain

/-! How a program becomes linked code. An import without names goes away; one with
names binds what its unit has published; an export binds its value and then
publishes it under the address of its own unit. -/

namespace UnitLoader

namespace Lowering

def lowerLine (address : String) (project : Project) (line : Line) : Reported (List Line) :=
  match line.stmt with
  | .imports [] _ => ⟨[], []⟩
  | .imports names specifier =>
    let source := project.resolve specifier address
    if project.hasModule source then
      ⟨names.map fun name => ⟨line.number, .binds name (.published source name)⟩, []⟩
    else
      ⟨[], [.ofLine .transform address line.number (ExportError.notLoaded source).message]⟩
  | .exports name value =>
    ⟨[⟨line.number, .binds name value⟩, ⟨line.number, .publishes address name⟩], []⟩
  | _ => ⟨[line], []⟩

def transform (target : Target Program) (project : Project) : Reported Program :=
  let lowered := target.tree.lines.map (lowerLine target.address project)
  ⟨⟨target.tree.kind, lowered.flatMap (·.value)⟩, lowered.flatMap (·.diagnostics)⟩

end Lowering

end UnitLoader
