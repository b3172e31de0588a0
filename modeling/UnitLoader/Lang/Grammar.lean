import UnitLoader.Lang.Program
import UnitLoader.Lang.Token

/-! The statements of one line, read from its tokens. Each reader takes what it
needs from the front of the tokens and gives back the rest. -/

namespace UnitLoader

inductive Wanted
  | name
  | string
  | expression
  | keyword (word : String)
  | token (token : Token)
deriving DecidableEq, Repr

inductive GrammarError
  | reserved (word : String)
  | expected (wanted : Wanted) (found : Option Token)
  | unexpected (token : Token)
  | trailing (token : Token)
  | importInLinkedCode
  | exportOutsideModule
  | publishInSource
deriving DecidableEq, Repr

namespace Grammar

def name : List Token → Except GrammarError (String × List Token)
  | .ident word :: rest => if word ∈ keywords then .error (.reserved word) else .ok (word, rest)
  | found :: _ => .error (.expected .name (some found))
  | [] => .error (.expected .name none)

def string : List Token → Except GrammarError (String × List Token)
  | .str text :: rest => .ok (text, rest)
  | found :: _ => .error (.expected .string (some found))
  | [] => .error (.expected .string none)

def exactly (wanted : Token) : List Token → Except GrammarError (List Token)
  | found :: rest =>
    if found = wanted then .ok rest else .error (.expected (.token wanted) (some found))
  | [] => .error (.expected (.token wanted) none)

def keyword (word : String) : List Token → Except GrammarError (List Token)
  | found :: rest =>
    if found = .ident word then .ok rest else .error (.expected (.keyword word) (some found))
  | [] => .error (.expected (.keyword word) none)

/-- What follows the sign that starts the reading of a published value. -/
def published (ts : List Token) : Except GrammarError (Expr × List Token) := do
  let (address, rest) ← string ts
  let rest ← exactly .dot rest
  let (word, rest) ← name rest
  return (.published address word, rest)

/-- One operand. Reading a published value is left to linked code. -/
def term (goal : Goal) : List Token → Except GrammarError (Expr × List Token)
  | .int value :: rest => .ok (.int value, rest)
  | .str text :: rest => .ok (.str text, rest)
  | .ident word :: rest =>
    if word ∈ keywords then .error (.reserved word) else .ok (.name word, rest)
  | .atSign :: rest =>
    if goal = .linked then published rest else .error (.unexpected .atSign)
  | found :: _ => .error (.unexpected found)
  | [] => .error (.expected .expression none)

theorem name_eq {ts rest : List Token} {word : String} (h : name ts = .ok (word, rest)) :
    ts = .ident word :: rest ∧ word ∉ keywords := by
  cases ts with
  | nil => simp [name] at h
  | cons t ts =>
    cases t with
    | ident w =>
      by_cases hw : w ∈ keywords
      · simp [name, hw] at h
      · simp only [name, hw, if_false, Except.ok.injEq, Prod.mk.injEq] at h
        obtain ⟨rfl, rfl⟩ := h
        exact ⟨rfl, hw⟩
    | _ => simp [name] at h

theorem string_eq {ts rest : List Token} {text : String} (h : string ts = .ok (text, rest)) :
    ts = .str text :: rest := by
  cases ts with
  | nil => simp [string] at h
  | cons t ts =>
    cases t with
    | str s =>
      simp only [string, Except.ok.injEq, Prod.mk.injEq] at h
      rw [h.1, h.2]
    | _ => simp [string] at h

theorem exactly_eq {wanted : Token} {ts rest : List Token} (h : exactly wanted ts = .ok rest) :
    ts = wanted :: rest := by
  cases ts with
  | nil => simp [exactly] at h
  | cons t ts =>
    by_cases ht : t = wanted
    · simp only [exactly, ht, if_true, Except.ok.injEq] at h
      rw [ht, h]
    · simp [exactly, ht] at h

theorem published_length {ts rest : List Token} {e : Expr}
    (h : published ts = .ok (e, rest)) : rest.length < ts.length := by
  cases hs : string ts with
  | error => simp [published, hs, bind, Except.bind] at h
  | ok a =>
    cases ht : exactly .dot a.2 with
    | error => simp [published, hs, ht, bind, Except.bind] at h
    | ok b =>
      cases hn : name b with
      | error => simp [published, hs, ht, hn, bind, Except.bind] at h
      | ok r =>
        simp only [published, hs, ht, hn, bind, Except.bind, pure, Except.pure, Except.ok.injEq,
          Prod.mk.injEq] at h
        have h1 := string_eq hs
        have h2 := exactly_eq ht
        have h3 := (name_eq hn).1
        simp only [h1, h2, h3, List.length_cons, h.2]
        omega

theorem term_length {goal : Goal} {ts rest : List Token} {e : Expr}
    (h : term goal ts = .ok (e, rest)) : rest.length < ts.length := by
  cases ts with
  | nil => simp [term] at h
  | cons t tail =>
    cases t with
    | int value =>
      simp only [term, Except.ok.injEq, Prod.mk.injEq] at h
      simp [h.2]
    | str text =>
      simp only [term, Except.ok.injEq, Prod.mk.injEq] at h
      simp [h.2]
    | ident word =>
      by_cases hw : word ∈ keywords
      · simp [term, hw] at h
      · simp only [term, hw, if_false, Except.ok.injEq, Prod.mk.injEq] at h
        simp [h.2]
    | atSign =>
      by_cases hg : goal = .linked
      · simp only [term, hg, if_true] at h
        exact Nat.lt_succ_of_lt (published_length h)
      · simp [term, hg] at h
    | _ => simp [term] at h

/-- The further operands of a sum whose first part is `left`. -/
def sum (goal : Goal) (left : Expr) (ts : List Token) :
    Except GrammarError (Expr × List Token) :=
  match ts with
  | .plus :: rest =>
    match h : term goal rest with
    | .error e => .error e
    | .ok (right, after) =>
      have : after.length < rest.length + 1 := Nat.lt_succ_of_lt (term_length h)
      sum goal (.add left right) after
  | ts => .ok (left, ts)
termination_by ts.length

def expression (goal : Goal) (ts : List Token) : Except GrammarError (Expr × List Token) := do
  let (left, rest) ← term goal ts
  sum goal left rest

/-- The names of an import after the first, each behind a comma. -/
def moreNames (ts : List Token) : Except GrammarError (List String × List Token) :=
  match ts with
  | .comma :: rest =>
    match h : name rest with
    | .error e => .error e
    | .ok (word, after) =>
      have : after.length < rest.length + 1 := by
        rw [(name_eq h).1, List.length_cons]
        omega
      (moreNames after).map fun r => (word :: r.1, r.2)
  | ts => .ok ([], ts)
termination_by ts.length

def importing (ts : List Token) : Except GrammarError (Stmt × List Token) :=
  match ts with
  | .str specifier :: rest => .ok (.imports [] specifier, rest)
  | ts => do
    let (first, rest) ← name ts
    let (others, rest) ← moreNames rest
    let rest ← keyword "from" rest
    let (specifier, rest) ← string rest
    return (.imports (first :: others) specifier, rest)

def binding (goal : Goal) (ts : List Token) :
    Except GrammarError ((String × Expr) × List Token) := do
  let (word, rest) ← name ts
  let rest ← exactly .equals rest
  let (value, rest) ← expression goal rest
  return ((word, value), rest)

def statement (goal : Goal) (ts : List Token) : Except GrammarError (Stmt × List Token) :=
  match ts with
  | .ident "import" :: rest =>
    if goal = .linked then .error .importInLinkedCode else importing rest
  | .ident "export" :: rest =>
    if goal = .module then do
      let ((word, value), rest) ← binding goal rest
      return (.exports word value, rest)
    else .error .exportOutsideModule
  | .ident "let" :: rest => do
    let ((word, value), rest) ← binding goal rest
    return (.binds word value, rest)
  | .ident "throw" :: rest => do
    let (value, rest) ← expression goal rest
    return (.throws value, rest)
  | .ident "publish" :: rest =>
    if goal = .linked then do
      let (address, rest) ← string rest
      let (word, rest) ← name rest
      return (.publishes address word, rest)
    else .error .publishInSource
  | .ident "from" :: _ => .error (.unexpected (.ident "from"))
  | ts => do
    let (value, rest) ← expression goal ts
    return (.eval value, rest)

def clause (goal : Goal) (ts : List Token) : Except GrammarError Stmt :=
  match statement goal ts with
  | .error e => .error e
  | .ok (stmt, []) => .ok stmt
  | .ok (_, found :: _) => .error (.trailing found)

/-- The statements between the semicolons of a line. Empty ones are left out. -/
def line (goal : Goal) (ts : List Token) : Except GrammarError (List Stmt) :=
  ((ts.splitOn .semicolon).filter (· ≠ [])).mapM (clause goal)

end Grammar

def Wanted.text : Wanted → String
  | .name => "a name"
  | .string => "a string"
  | .expression => "an expression"
  | .keyword word => String.join ["'", word, "'"]
  | .token wanted => wanted.shown

def GrammarError.message : GrammarError → String
  | .reserved word => String.join ["'", word, "' is a reserved word"]
  | .expected wanted (some found) => String.join ["expected ", wanted.text, ", found ", found.shown]
  | .expected wanted none => String.join ["expected ", wanted.text, ", found end of line"]
  | .unexpected token => String.join ["unexpected ", token.shown]
  | .trailing token => String.join ["unexpected ", token.shown, " after statement"]
  | .importInLinkedCode => "'import' is not allowed in executable code"
  | .exportOutsideModule => "'export' is only allowed in modules"
  | .publishInSource => "'publish' is reserved"

end UnitLoader
