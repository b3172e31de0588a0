import UnitLoader.Lang.Program
import UnitLoader.Toolchain

/-! Analysis of a batch. All exports are recorded before any import is looked up,
so units may come in any order and import each other in cycles. -/

namespace UnitLoader

namespace Linking

def declareExport (address : String) (r : Reported Project) (entry : Nat × String) :
    Reported Project :=
  if r.value.hasExport address entry.2 then
    { r with diagnostics := r.diagnostics ++
        [.ofLine .analyze address entry.1 (String.join ["duplicate export '", entry.2, "'"])] }
  else { r with value := r.value.addExport address entry.2 }

/-- Registers a target and, when it is a module, its exports. -/
def declare (r : Reported Project) (target : Target Program) : Reported Project :=
  let registered := { r with value := r.value.addModule target.address }
  match target.kind with
  | .script => registered
  | .module => target.tree.exported.foldl (declareExport target.address) registered

/-- The errors of one statement: a name that its module does not export. -/
def unboundIn (project : Project) (address : String) (line : Line) : List Diagnostic :=
  match line.stmt with
  | .imports names specifier =>
    names.filterMap fun name =>
      match project.resolveExport (project.resolve specifier address) name with
      | .ok _ => none
      | .error e => some (.ofLine .analyze address line.number e.message)
  | _ => []

def unbound (project : Project) (target : Target Program) : List Diagnostic :=
  target.tree.lines.flatMap (unboundIn project target.address)

def analyze (targets : List (Target Program)) (project : Project) : Reported Project :=
  let declared := targets.foldl declare ⟨project, []⟩
  ⟨declared.value, declared.diagnostics ++ targets.flatMap (unbound declared.value)⟩

end Linking

end UnitLoader
