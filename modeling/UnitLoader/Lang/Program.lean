import UnitLoader.Kind
import UnitLoader.Lang.Integer

/-! Programs of the line-oriented language: expressions, statements, and
statements with the number of the line that they stand on. -/

namespace UnitLoader

inductive Expr
  | int (value : Integer)
  | str (text : String)
  | name (name : String)
  /-- A value that the unit at `address` has published under `name`. -/
  | published (address name : String)
  | add (left right : Expr)
deriving DecidableEq, Repr, Inhabited

inductive Stmt
  /-- Without names, the unit is loaded and nothing of it is bound. -/
  | imports (names : List String) (specifier : String)
  | exports (name : String) (value : Expr)
  | binds (name : String) (value : Expr)
  | publishes (address name : String)
  | throws (value : Expr)
  | eval (value : Expr)
deriving DecidableEq, Repr, Inhabited

structure Line where
  number : Nat
  stmt : Stmt
deriving DecidableEq, Repr

structure Program where
  kind : Kind
  lines : List Line
deriving DecidableEq, Repr

/-- Which statements a text may hold. Linked code is what execution accepts: it
publishes and reads published values, and no longer imports or exports. -/
inductive Goal
  | script
  | module
  | linked
deriving DecidableEq, Repr

def Goal.ofKind : Kind → Goal
  | .script => .script
  | .module => .module

def keywords : List String :=
  ["import", "from", "export", "let", "throw", "publish"]

namespace Program

def specifiers (p : Program) : List String :=
  p.lines.filterMap fun line =>
    match line.stmt with
    | .imports _ specifier => some specifier
    | _ => none

def exported (p : Program) : List (Nat × String) :=
  p.lines.filterMap fun line =>
    match line.stmt with
    | .exports name _ => some (line.number, name)
    | _ => none

end Program

end UnitLoader
