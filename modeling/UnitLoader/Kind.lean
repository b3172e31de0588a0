/-! The two kinds of source unit. A script is run for its value; a module may
also export names to the units that import it. -/

namespace UnitLoader

inductive Kind
  | script
  | module
deriving DecidableEq, Repr

def Kind.text : Kind → String
  | .script => "script"
  | .module => "module"

end UnitLoader
