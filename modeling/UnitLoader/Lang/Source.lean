import UnitLoader.Lang.Grammar
import UnitLoader.Text.Lines

/-! Programs read from source text. Every line stands for itself: a line with an
error adds no statement, and reading goes on with the next one. -/

namespace UnitLoader

inductive SyntaxCause
  | lexical (error : LexError)
  | grammatical (error : GrammarError)
deriving DecidableEq, Repr

def SyntaxCause.message : SyntaxCause → String
  | .lexical e => e.message
  | .grammatical e => e.message

structure SyntaxError where
  line : Nat
  cause : SyntaxCause
deriving DecidableEq, Repr

namespace SyntaxError

def message (e : SyntaxError) : String :=
  e.cause.message

def shown (e : SyntaxError) : String :=
  String.join ["line ", toString e.line, ": ", e.message]

end SyntaxError

namespace Source

variable [Text.Xid]

def readLine (goal : Goal) (text : List Char) : Except SyntaxCause (List Stmt) :=
  match Token.scan text with
  | .error e => .error (.lexical e)
  | .ok tokens =>
    match Grammar.line goal tokens with
    | .error e => .error (.grammatical e)
    | .ok stmts => .ok stmts

/-- What was read: the statements of the good lines and the errors of the others. -/
structure Reading where
  lines : List Line
  errors : List SyntaxError

def readLines (goal : Goal) (number : Nat) : List (List Char) → Reading
  | [] => ⟨[], []⟩
  | text :: others =>
    let rest := readLines goal (number + 1) others
    match readLine goal text with
    | .error cause => { rest with errors := ⟨number, cause⟩ :: rest.errors }
    | .ok stmts => { rest with lines := stmts.map (Line.mk number) ++ rest.lines }

def read (goal : Goal) (text : String) : Reading :=
  readLines goal 1 (Text.lines text.toList)

end Source

end UnitLoader
