import Mathlib.Data.List.Forall2
import UnitLoader.Proofs.Writing
import UnitLoader.Text.Unicode

/-! Well-formed statements, described by the names and expressions in them. They are what
the grammar reads, each from one list of tokens only, and what is written for a program of
them is read as that program. -/

namespace UnitLoader

namespace Expr

/-- An expression and all the expressions that it is made of. -/
def parts : Expr → List Expr
  | .add left right => .add left right :: (left.parts ++ right.parts)
  | e => [e]

def names : Expr → List String
  | .name word => [word]
  | .published _ word => [word]
  | .add left right => left.names ++ right.names
  | _ => []

end Expr

namespace Stmt

def values : Stmt → List Expr
  | .exports _ value => [value]
  | .binds _ value => [value]
  | .throws value => [value]
  | .eval value => [value]
  | _ => []

def parts (s : Stmt) : List Expr :=
  s.values.flatMap Expr.parts

/-- The names in a statement besides those in its expressions. -/
def ownNames : Stmt → List String
  | .imports names _ => names
  | .exports word _ => [word]
  | .binds word _ => [word]
  | .publishes _ word => [word]
  | _ => []

def names (s : Stmt) : List String :=
  s.ownNames ++ s.values.flatMap Expr.names

structure WellFormed (goal : Goal) (s : Stmt) : Prop where
  names : ∀ word ∈ s.names, word ∉ keywords
  imports : ∀ names specifier, s = .imports names specifier → goal ≠ .linked
  exports : ∀ word value, s = .exports word value → goal = .module
  publishes : ∀ address word, s = .publishes address word → goal = .linked
  published : ∀ address word, .published address word ∈ s.parts → goal = .linked
  leans : ∀ left right, .add left right ∈ s.parts → right.IsOperand

/-- A well-formed statement with names and integers that can be read from a text. -/
structure Writable [Text.Xid] (goal : Goal) (s : Stmt) : Prop extends s.WellFormed goal where
  identifiers : ∀ word ∈ s.names, Text.IsIdentifier word.toList
  nonnegative : ∀ value, .int value ∈ s.parts → 0 ≤ value.toInt

end Stmt

variable {goal : Goal} {e : Expr} {s : Stmt}

namespace Expr

theorem fits_iff : e.Fits goal ↔
    (∀ word ∈ e.names, word ∉ keywords) ∧
      (∀ address word, .published address word ∈ e.parts → goal = .linked) ∧
      ∀ left right, .add left right ∈ e.parts → right.IsOperand := by
  induction e with
  | int value => simp [Fits, names, parts]
  | str text => simp [Fits, names, parts]
  | name word => simp [Fits, names, parts]
  | published address word => simp [Fits, names, parts, and_comm]
  | add left right ihl ihr =>
    simp only [Fits, ihl, ihr, names, parts, List.mem_append, List.mem_cons]
    constructor
    · rintro ⟨⟨namesLeft, publishedLeft, leansLeft⟩, ⟨namesRight, publishedRight, leansRight⟩, hop⟩
      refine ⟨fun word hw => hw.elim (namesLeft word) (namesRight word), ?_, ?_⟩
      · rintro address word (he | hl | hr)
        · cases he
        · exact publishedLeft address word hl
        · exact publishedRight address word hr
      · rintro l r (he | hl | hr)
        · cases he
          exact hop
        · exact leansLeft l r hl
        · exact leansRight l r hr
    · rintro ⟨hnames, hpublished, hleans⟩
      exact ⟨⟨fun word hw => hnames word (.inl hw),
          fun address word hp => hpublished address word (.inr (.inl hp)),
          fun l r hs => hleans l r (.inr (.inl hs))⟩,
        ⟨fun word hw => hnames word (.inr hw),
          fun address word hp => hpublished address word (.inr (.inr hp)),
          fun l r hs => hleans l r (.inr (.inr hs))⟩,
        hleans left right (.inl rfl)⟩

theorem sound_tokens_iff [Text.Xid] : (∀ t ∈ e.tokens, t.Sound) ↔
    (∀ word ∈ e.names, Text.IsIdentifier word.toList) ∧
      ∀ value, .int value ∈ e.parts → 0 ≤ value.toInt := by
  induction e with
  | int value => simp [tokens, names, parts, Token.Sound]
  | str text => simp [tokens, names, parts, Token.Sound]
  | name word => simp [tokens, names, parts, Token.Sound]
  | published address word => simp [tokens, names, parts, Token.Sound]
  | add left right ihl ihr =>
    have hplus : Token.plus.Sound := trivial
    rw [tokens, List.forall_mem_append, List.forall_mem_cons, ihl, ihr, and_iff_right hplus]
    simp only [names, parts, List.mem_cons, List.mem_append, reduceCtorEq, false_or, or_imp,
      forall_and]
    exact and_and_and_comm

/-- An expression in which no sum is a right operand is a chain of operands, added up from
the left, and a plus sign stands between their tokens. -/
theorem exists_chain (leans : ∀ left right, .add left right ∈ e.parts → right.IsOperand) :
    ∃ first others, (∀ operand ∈ first :: others, operand.IsOperand) ∧
      e = others.foldl .add first ∧
      e.tokens = first.tokens ++ others.flatMap fun operand => .plus :: operand.tokens := by
  induction e with
  | add left right ihl _ =>
    have hright := leans left right (by simp [parts])
    obtain ⟨first, others, hops, he, htokens⟩ :=
      ihl fun l r hs => leans l r (by simp [parts, hs])
    refine ⟨first, others ++ [right], ?_, ?_, ?_⟩
    · rw [← List.cons_append, List.forall_mem_append]
      exact ⟨hops, by simpa using hright⟩
    · rw [List.foldl_append, ← he]
      rfl
    · simp [tokens, htokens]
  | _ => exact ⟨_, [], by simp [IsOperand], rfl, by simp⟩

end Expr

namespace Stmt

theorem fits_iff : s.Fits goal ↔
    (∀ names specifier, s = .imports names specifier → goal ≠ .linked) ∧
      (∀ word value, s = .exports word value → goal = .module) ∧
      (∀ address word, s = .publishes address word → goal = .linked) ∧
      (∀ word ∈ s.ownNames, word ∉ keywords) ∧ ∀ value ∈ s.values, value.Fits goal := by
  cases s <;> simp [Fits, ownNames, values]

theorem fits_iff_wellFormed : s.Fits goal ↔ s.WellFormed goal := by
  rw [fits_iff]
  constructor
  · rintro ⟨himports, hexports, hpublishes, hown, hvalues⟩
    have hvalue := fun value hv => Expr.fits_iff.mp (hvalues value hv)
    refine ⟨?_, himports, hexports, hpublishes, ?_, ?_⟩
    · refine List.forall_mem_append.mpr ⟨hown, fun word hw => ?_⟩
      obtain ⟨value, hv, hw⟩ := List.mem_flatMap.mp hw
      exact (hvalue value hv).1 word hw
    · intro address word hp
      obtain ⟨value, hv, hp⟩ := List.mem_flatMap.mp hp
      exact (hvalue value hv).2.1 address word hp
    · intro left right hs
      obtain ⟨value, hv, hs⟩ := List.mem_flatMap.mp hs
      exact (hvalue value hv).2.2 left right hs
  · intro h
    obtain ⟨hown, hnames⟩ := List.forall_mem_append.mp h.names
    refine ⟨h.imports, h.exports, h.publishes, hown, fun value hv => Expr.fits_iff.mpr ⟨?_, ?_, ?_⟩⟩
    · exact fun word hw => hnames word (List.mem_flatMap.mpr ⟨value, hv, hw⟩)
    · exact fun address word hp => h.published address word (List.mem_flatMap.mpr ⟨value, hv, hp⟩)
    · exact fun left right hs => h.leans left right (List.mem_flatMap.mpr ⟨value, hv, hs⟩)

theorem sound_tokens_iff [Text.Xid] : (∀ t ∈ s.tokens, t.Sound) ↔
    (∀ word ∈ s.ownNames, Text.IsIdentifier word.toList) ∧
      ∀ value ∈ s.values, ∀ t ∈ value.tokens, t.Sound := by
  have hkeyword (word : String) (h : word ∈ keywords) : (Token.ident word).Sound :=
    Token.isIdentifier_of_keyword word h
  have hident (word : String) : (Token.ident word).Sound ↔ Text.IsIdentifier word.toList := Iff.rfl
  have hstr (text : String) : (Token.str text).Sound := trivial
  have hequals : Token.equals.Sound := trivial
  have hcomma : Token.comma.Sound := trivial
  cases s with
  | imports names specifier =>
    cases names with
    | nil => simp [tokens, ownNames, values, hkeyword "import" (by decide), hstr]
    | cons first others =>
      have hothers : (∀ t ∈ moreTokens others, t.Sound) ↔
          ∀ word ∈ others, Text.IsIdentifier word.toList := by
        simp only [moreTokens, List.forall_mem_flatMap]
        simp [hcomma, hident]
      rw [tokens, List.forall_mem_cons, List.forall_mem_cons, List.forall_mem_append, hothers]
      simp [ownNames, values, hkeyword "import" (by decide), hkeyword "from" (by decide), hstr,
        hident]
  | exports word value =>
    simp [tokens, ownNames, values, hkeyword "export" (by decide), hident, hequals]
  | binds word value =>
    simp [tokens, ownNames, values, hkeyword "let" (by decide), hident, hequals]
  | publishes address word =>
    simp [tokens, ownNames, values, hkeyword "publish" (by decide), hident, hstr]
  | throws value => simp [tokens, ownNames, values, hkeyword "throw" (by decide)]
  | eval value => simp [tokens, ownNames, values]

theorem legible_iff_writable [Text.Xid] : s.Legible goal ↔ s.Writable goal := by
  constructor
  · rintro ⟨hfits, hsound⟩
    obtain ⟨hown, hvalues⟩ := sound_tokens_iff.mp hsound
    have hvalue := fun value hv => Expr.sound_tokens_iff.mp (hvalues value hv)
    refine ⟨fits_iff_wellFormed.mp hfits, ?_, ?_⟩
    · refine List.forall_mem_append.mpr ⟨hown, fun word hw => ?_⟩
      obtain ⟨value, hv, hw⟩ := List.mem_flatMap.mp hw
      exact (hvalue value hv).1 word hw
    · intro number hn
      obtain ⟨value, hv, hn⟩ := List.mem_flatMap.mp hn
      exact (hvalue value hv).2 number hn
  · intro h
    obtain ⟨hown, hnames⟩ := List.forall_mem_append.mp h.identifiers
    refine ⟨fits_iff_wellFormed.mpr h.toWellFormed, sound_tokens_iff.mpr ⟨hown, fun value hv => ?_⟩⟩
    exact Expr.sound_tokens_iff.mpr
      ⟨fun word hw => hnames word (List.mem_flatMap.mpr ⟨value, hv, hw⟩),
        fun number hn => h.nonnegative number (List.mem_flatMap.mpr ⟨value, hv, hn⟩)⟩

end Stmt

/-! ### What the grammar reads -/

theorem mapM_eq_ok_iff {ε α β : Type} {f : α → Except ε β} {xs : List α} {ys : List β} :
    xs.mapM f = .ok ys ↔ List.Forall₂ (fun x y => f x = .ok y) xs ys := by
  induction xs generalizing ys with
  | nil =>
    rw [List.forall₂_nil_left_iff]
    exact ⟨fun h => (Except.ok.inj h).symm, fun h => h ▸ rfl⟩
  | cons x xs ih =>
    rw [List.mapM_cons]
    constructor
    · intro h
      obtain ⟨y, hy, h⟩ := bind_eq_ok h
      obtain ⟨more, hm, h⟩ := bind_eq_ok h
      obtain rfl := Except.ok.inj h
      exact .cons hy (ih.mp hm)
    · rintro (_ | ⟨hy, hys⟩)
      rw [hy, ih.mpr hys]
      rfl

theorem exists_forall₂ {α β : Type} {R : α → β → Prop} {xs : List α} :
    (∃ ys, List.Forall₂ R xs ys) ↔ ∀ x ∈ xs, ∃ y, R x y := by
  induction xs with
  | nil => simp
  | cons x xs ih =>
    rw [List.forall_mem_cons, ← ih]
    constructor
    · rintro ⟨_, _ | ⟨hy, hys⟩⟩
      exact ⟨⟨_, hy⟩, _, hys⟩
    · rintro ⟨⟨y, hy⟩, ys, hys⟩
      exact ⟨y :: ys, .cons hy hys⟩

namespace Grammar

variable {ts : List Token}

theorem clause_eq_ok_iff : clause goal ts = .ok s ↔ ts = s.tokens ∧ s.WellFormed goal := by
  rw [← Stmt.fits_iff_wellFormed]
  constructor
  · exact clause_eq
  · rintro ⟨rfl, h⟩
    exact clause_tokens h

theorem line_eq_ok_iff {stmts : List Stmt} : line goal ts = .ok stmts ↔
    List.Forall₂ (fun part s => part = s.tokens ∧ s.WellFormed goal)
      ((ts.splitOn .semicolon).filter (· ≠ [])) stmts := by
  simp only [line, mapM_eq_ok_iff, clause_eq_ok_iff]

/-- The grammar reads well-formed statements and nothing else, each from its own tokens. A
line is read when this is so of all its nonempty parts, and gives their statements in order. -/
theorem reads_exactly (goal : Goal) :
    (∀ ts s, ts ≠ [] → .semicolon ∉ ts →
      (clause goal ts = .ok s ↔ ts = s.tokens ∧ s.WellFormed goal)) ∧
    (∀ ts s, clause goal ts = .ok s → ∃! s' : Stmt, ts = s'.tokens ∧ s'.WellFormed goal) ∧
    (∀ s : Stmt, s.WellFormed goal → s.tokens ≠ [] ∧ .semicolon ∉ s.tokens ∧
      ∃! ts, clause goal ts = .ok s) ∧
    (∀ s : Stmt, s.WellFormed goal → ∀ e ∈ s.values,
      ∃ first others, (∀ operand ∈ first :: others, operand.IsOperand) ∧
        e = others.foldl .add first ∧
        e.tokens = first.tokens ++ others.flatMap fun operand => .plus :: operand.tokens) ∧
    (∀ ts stmts, line goal ts = .ok stmts ↔
      List.Forall₂ (fun part s => part = s.tokens ∧ s.WellFormed goal)
        ((ts.splitOn .semicolon).filter (· ≠ [])) stmts) ∧
    ∀ ts, (∃ stmts, line goal ts = .ok stmts) ↔
      ∀ part ∈ ts.splitOn .semicolon, part ≠ [] → ∃ s : Stmt, part = s.tokens ∧ s.WellFormed goal := by
  refine ⟨fun ts s _ _ => clause_eq_ok_iff, ?unique, ?spelling, ?chain,
    fun ts stmts => line_eq_ok_iff, ?line⟩
  case unique =>
    intro ts s h
    refine ⟨s, clause_eq_ok_iff.mp h, fun s' h' => ?_⟩
    have := clause_eq_ok_iff.mpr h'
    rw [h] at this
    exact (Except.ok.inj this).symm
  case spelling =>
    intro s h
    refine ⟨Source.tokens_ne_nil (Stmt.fits_iff_wellFormed.mpr h), Source.semicolon_notMem s,
      s.tokens, clause_eq_ok_iff.mpr ⟨rfl, h⟩, fun ts hts => (clause_eq_ok_iff.mp hts).1⟩
  case chain =>
    intro s h e he
    exact e.exists_chain fun left right hs =>
      h.leans left right (List.mem_flatMap.mpr ⟨e, he, hs⟩)
  case line =>
    intro ts
    simp only [line_eq_ok_iff, exists_forall₂, List.mem_filter, decide_eq_true_eq, and_imp]

/-- A sum after its name, read from seven tokens and from these only. -/
theorem reads_exactly_sum :
    clause .module [.ident "export", .ident "total", .equals, .ident "a", .plus, .str "b", .plus,
        .ident "c"] =
      .ok (.exports "total" (.add (.add (.name "a") (.str "b")) (.name "c"))) := by
  refine ((reads_exactly .module).1 _ _ (by decide) (by decide)).mpr ⟨rfl, ?_⟩
  exact Stmt.fits_iff_wellFormed.mp (by simp [Stmt.Fits, Expr.Fits, Expr.IsOperand, keywords])

end Grammar

/-! ### What is written -/

namespace Source

/-- Writing a program of writable statements and reading the text gives the statements back,
one to a line. All that is read from any text is writable, errors in it or not. -/
theorem writes_what_it_reads [Text.Xid] (goal : Goal) :
    (∀ p : Program, (∀ line ∈ p.lines, line.stmt.Writable goal) →
      (read goal p.write).errors = [] ∧
        (read goal p.write).lines = p.lines.mapIdx fun i line => ⟨1 + i, line.stmt⟩) ∧
    ∀ (kind : Kind) (text : String),
      (∀ line ∈ (read goal text).lines, line.stmt.Writable goal) ∧
        (read goal (Program.write ⟨kind, (read goal text).lines⟩)).errors = [] ∧
        (read goal (Program.write ⟨kind, (read goal text).lines⟩)).lines.map Line.stmt =
          (read goal text).lines.map Line.stmt := by
  have hwritten (p : Program) (h : ∀ line ∈ p.lines, line.stmt.Writable goal) :
      (read goal p.write).errors = [] ∧
        (read goal p.write).lines = p.lines.mapIdx fun i line => ⟨1 + i, line.stmt⟩ :=
    read_write fun line hl => Stmt.legible_iff_writable.mpr (h line hl)
  refine ⟨hwritten, fun kind text => ?_⟩
  have hread : ∀ line ∈ (read goal text).lines, line.stmt.Writable goal :=
    fun line hl => Stmt.legible_iff_writable.mp (legible_of_read line hl)
  obtain ⟨herrors, hlines⟩ := hwritten ⟨kind, (read goal text).lines⟩ hread
  exact ⟨hread, herrors, by rw [hlines]; exact List.ext_getElem (by simp) (by simp)⟩

/-- Marks that end a string, a statement or a line stay in the string that is written. -/
theorem writes_what_it_reads_marks :
    let p : Program := ⟨.script,
      [⟨5, .imports ["a", "_b"] "x;#\r"⟩, ⟨5, .throws (.add (.name "a") (.str "\"\\\n\r\n\t"))⟩]⟩
    (read .script p.write).errors = [] ∧
      (read .script p.write).lines =
        [⟨1, .imports ["a", "_b"] "x;#\r"⟩,
          ⟨2, .throws (.add (.name "a") (.str "\"\\\n\r\n\t"))⟩] := by
  have ha : Text.IsIdentifier ['a'] := .of_letters (by decide)
  have hb : Text.IsIdentifier ['_', 'b'] :=
    ⟨'_', ['b'], rfl, by decide, by decide, List.forall_mem_singleton.mpr (by decide)⟩
  refine (writes_what_it_reads .script).1 _ (List.forall_mem_cons.mpr
    ⟨Stmt.legible_iff_writable.mp ⟨?_, ?_⟩,
      List.forall_mem_singleton.mpr (Stmt.legible_iff_writable.mp ⟨?_, ?_⟩)⟩)
  · simp [Stmt.Fits, keywords]
  · exact Stmt.sound_tokens_iff.mpr ⟨by simp [Stmt.ownNames, ha, hb], by simp [Stmt.values]⟩
  · simp [Stmt.Fits, Expr.Fits, Expr.IsOperand, keywords]
  · exact Stmt.sound_tokens_iff.mpr
      ⟨by simp [Stmt.ownNames], by simp [Stmt.values, Expr.tokens, Token.Sound, ha]⟩

end Source

end UnitLoader
