import UnitLoader.Lang.Grammar

/-! The tokens that spell a statement. The grammar reads a statement from exactly its
tokens, and only statements that may stand in the text that is being read. -/

namespace UnitLoader

namespace Expr

def IsOperand : Expr → Prop
  | .add _ _ => False
  | _ => True

/-- An expression that can stand in a text: a sum leans to the left. -/
def Fits (goal : Goal) : Expr → Prop
  | .int _ => True
  | .str _ => True
  | .name word => word ∉ keywords
  | .published _ word => goal = .linked ∧ word ∉ keywords
  | .add left right => left.Fits goal ∧ right.Fits goal ∧ right.IsOperand

def tokens : Expr → List Token
  | .int value => [.int value]
  | .str text => [.str text]
  | .name word => [.ident word]
  | .published address word => [.atSign, .str address, .dot, .ident word]
  | .add left right => left.tokens ++ .plus :: right.tokens

end Expr

namespace Stmt

def Fits (goal : Goal) : Stmt → Prop
  | .imports names _ => goal ≠ .linked ∧ ∀ word ∈ names, word ∉ keywords
  | .exports word value => goal = .module ∧ word ∉ keywords ∧ value.Fits goal
  | .binds word value => word ∉ keywords ∧ value.Fits goal
  | .publishes _ word => goal = .linked ∧ word ∉ keywords
  | .throws value => value.Fits goal
  | .eval value => value.Fits goal

/-- The names of an import after the first. -/
def moreTokens (words : List String) : List Token :=
  words.flatMap fun word => [.comma, .ident word]

def tokens : Stmt → List Token
  | .imports [] specifier => [.ident "import", .str specifier]
  | .imports (first :: others) specifier =>
    .ident "import" :: .ident first :: (moreTokens others ++ [.ident "from", .str specifier])
  | .exports word value => .ident "export" :: .ident word :: .equals :: value.tokens
  | .binds word value => .ident "let" :: .ident word :: .equals :: value.tokens
  | .publishes address word => [.ident "publish", .str address, .ident word]
  | .throws value => .ident "throw" :: value.tokens
  | .eval value => value.tokens

end Stmt

theorem bind_eq_ok {ε α β : Type} {x : Except ε α} {f : α → Except ε β} {b : β}
    (h : x >>= f = .ok b) : ∃ a, x = .ok a ∧ f a = .ok b := by
  cases x with
  | error e => cases h
  | ok a => exact ⟨a, rfl, h⟩

theorem map_eq_ok {ε α β : Type} {x : Except ε α} {f : α → β} {b : β} (h : x.map f = .ok b) :
    ∃ a, x = .ok a ∧ f a = b := by
  cases x with
  | error e => cases h
  | ok a => exact ⟨a, rfl, Except.ok.inj h⟩

namespace Grammar

variable {goal : Goal} {ts rest : List Token} {e : Expr} {s : Stmt}

/-! ### What is read -/

theorem keyword_eq {word : String} (h : keyword word ts = .ok rest) :
    ts = .ident word :: rest := by
  cases ts with
  | nil => simp [keyword] at h
  | cons t ts =>
    by_cases ht : t = .ident word
    · simp only [keyword, ht, if_true, Except.ok.injEq] at h
      rw [ht, h]
    · simp [keyword, ht] at h

theorem published_eq (h : published ts = .ok (e, rest)) :
    .atSign :: ts = e.tokens ++ rest ∧ e.Fits .linked ∧ e.IsOperand := by
  obtain ⟨⟨address, ts'⟩, ha, h⟩ := bind_eq_ok h
  obtain ⟨ts'', hd, h⟩ := bind_eq_ok h
  obtain ⟨⟨word, last⟩, hw, h⟩ := bind_eq_ok h
  obtain ⟨rfl, rfl⟩ := Prod.mk.inj (Except.ok.inj h)
  obtain ⟨rfl, hkeyword⟩ := name_eq hw
  rw [string_eq ha, exactly_eq hd]
  exact ⟨rfl, ⟨rfl, hkeyword⟩, trivial⟩

theorem term_eq (h : term goal ts = .ok (e, rest)) :
    ts = e.tokens ++ rest ∧ e.Fits goal ∧ e.IsOperand := by
  cases ts with
  | nil => simp [term] at h
  | cons t tail =>
    cases t with
    | int value =>
      obtain ⟨rfl, rfl⟩ := Prod.mk.inj (Except.ok.inj h)
      exact ⟨rfl, trivial, trivial⟩
    | str text =>
      obtain ⟨rfl, rfl⟩ := Prod.mk.inj (Except.ok.inj h)
      exact ⟨rfl, trivial, trivial⟩
    | ident word =>
      by_cases hw : word ∈ keywords
      · simp [term, hw] at h
      · simp only [term, hw, if_false, Except.ok.injEq, Prod.mk.injEq] at h
        obtain ⟨rfl, rfl⟩ := h
        exact ⟨rfl, hw, trivial⟩
    | atSign =>
      by_cases hg : goal = .linked
      · simp only [term, hg, if_true] at h
        rw [hg]
        exact published_eq h
      · simp [term, hg] at h
    | _ => simp [term] at h

theorem sum_eq {left : Expr} (h : sum goal left ts = .ok (e, rest)) (hl : left.Fits goal) :
    left.tokens ++ ts = e.tokens ++ rest ∧ e.Fits goal := by
  fun_induction sum goal left ts with
  | case1 left more err ht => cases h
  | case2 left more right after ht hlt ih =>
    obtain ⟨rfl, hr, hop⟩ := term_eq ht
    have hsum := ih h ⟨hl, hr, hop⟩
    rw [Expr.tokens] at hsum
    exact ⟨by rw [← hsum.1]; simp, hsum.2⟩
  | case3 left ts hn =>
    obtain ⟨rfl, rfl⟩ := Prod.mk.inj (Except.ok.inj h)
    exact ⟨rfl, hl⟩

theorem expression_eq (h : expression goal ts = .ok (e, rest)) :
    ts = e.tokens ++ rest ∧ e.Fits goal := by
  obtain ⟨⟨left, after⟩, ht, hsum⟩ := bind_eq_ok h
  obtain ⟨rfl, hl, -⟩ := term_eq ht
  exact sum_eq hsum hl

theorem moreNames_eq {words : List String} (h : moreNames ts = .ok (words, rest)) :
    ts = Stmt.moreTokens words ++ rest ∧ ∀ word ∈ words, word ∉ keywords := by
  fun_induction moreNames ts generalizing words with
  | case1 more err hn => cases h
  | case2 more word after hn hlt ih =>
    cases hm : moreNames after with
    | error err => simp [hm, Except.map] at h
    | ok r =>
      obtain ⟨others, last⟩ := r
      simp only [hm, Except.map, Except.ok.injEq, Prod.mk.injEq] at h
      obtain ⟨rfl, rfl⟩ := h
      obtain ⟨rfl, hword⟩ := name_eq hn
      obtain ⟨rfl, hothers⟩ := ih hm
      exact ⟨rfl, List.forall_mem_cons.mpr ⟨hword, hothers⟩⟩
  | case3 ts hn =>
    obtain ⟨rfl, rfl⟩ := Prod.mk.inj (Except.ok.inj h)
    exact ⟨rfl, by simp⟩

theorem importing_eq (h : importing ts = .ok (s, rest)) :
    .ident "import" :: ts = s.tokens ++ rest ∧ (goal ≠ .linked → s.Fits goal) := by
  unfold importing at h
  split at h
  · obtain ⟨rfl, rfl⟩ := Prod.mk.inj (Except.ok.inj h)
    exact ⟨rfl, fun hg => ⟨hg, by simp⟩⟩
  · obtain ⟨⟨first, ts₁⟩, hf, h⟩ := bind_eq_ok h
    obtain ⟨⟨others, ts₂⟩, ho, h⟩ := bind_eq_ok h
    obtain ⟨ts₃, hk, h⟩ := bind_eq_ok h
    obtain ⟨⟨specifier, ts₄⟩, hs, h⟩ := bind_eq_ok h
    obtain ⟨rfl, rfl⟩ := Prod.mk.inj (Except.ok.inj h)
    obtain ⟨rfl, hfirst⟩ := name_eq hf
    obtain ⟨rfl, hothers⟩ := moreNames_eq ho
    obtain rfl := keyword_eq hk
    obtain rfl := string_eq hs
    exact ⟨by simp [Stmt.tokens], fun hg => ⟨hg, List.forall_mem_cons.mpr ⟨hfirst, hothers⟩⟩⟩

theorem binding_eq {word : String} {value : Expr}
    (h : binding goal ts = .ok ((word, value), rest)) :
    ts = .ident word :: .equals :: (value.tokens ++ rest) ∧ word ∉ keywords ∧ value.Fits goal := by
  obtain ⟨⟨w, ts₁⟩, hw, h⟩ := bind_eq_ok h
  obtain ⟨ts₂, he, h⟩ := bind_eq_ok h
  obtain ⟨⟨v, ts₃⟩, hv, h⟩ := bind_eq_ok h
  obtain ⟨⟨rfl, rfl⟩, rfl⟩ := by simpa [pure, Except.pure] using h
  obtain ⟨rfl, hword⟩ := name_eq hw
  obtain rfl := exactly_eq he
  obtain ⟨rfl, hvalue⟩ := expression_eq hv
  exact ⟨rfl, hword, hvalue⟩

theorem statement_eq (h : statement goal ts = .ok (s, rest)) :
    ts = s.tokens ++ rest ∧ s.Fits goal := by
  unfold statement at h
  split at h
  · split at h
    · cases h
    · next hg =>
      obtain ⟨he, hfits⟩ := importing_eq h
      exact ⟨he, hfits hg⟩
  · split at h
    · next hg =>
      obtain ⟨⟨⟨word, value⟩, after⟩, hb, h⟩ := bind_eq_ok h
      obtain ⟨rfl, rfl⟩ := Prod.mk.inj (Except.ok.inj h)
      obtain ⟨rfl, hword, hvalue⟩ := binding_eq hb
      exact ⟨rfl, hg, hword, hvalue⟩
    · cases h
  · obtain ⟨⟨⟨word, value⟩, after⟩, hb, h⟩ := bind_eq_ok h
    obtain ⟨rfl, rfl⟩ := Prod.mk.inj (Except.ok.inj h)
    obtain ⟨rfl, hword, hvalue⟩ := binding_eq hb
    exact ⟨rfl, hword, hvalue⟩
  · obtain ⟨⟨value, after⟩, hv, h⟩ := bind_eq_ok h
    obtain ⟨rfl, rfl⟩ := Prod.mk.inj (Except.ok.inj h)
    obtain ⟨rfl, hvalue⟩ := expression_eq hv
    exact ⟨rfl, hvalue⟩
  · split at h
    · next hg =>
      obtain ⟨⟨address, ts₁⟩, ha, h⟩ := bind_eq_ok h
      obtain ⟨⟨word, ts₂⟩, hw, h⟩ := bind_eq_ok h
      obtain ⟨rfl, rfl⟩ := Prod.mk.inj (Except.ok.inj h)
      obtain rfl := string_eq ha
      obtain ⟨rfl, hword⟩ := name_eq hw
      exact ⟨rfl, hg, hword⟩
    · cases h
  · cases h
  · obtain ⟨⟨value, after⟩, hv, h⟩ := bind_eq_ok h
    obtain ⟨rfl, rfl⟩ := Prod.mk.inj (Except.ok.inj h)
    obtain ⟨rfl, hvalue⟩ := expression_eq hv
    exact ⟨rfl, hvalue⟩

theorem clause_eq (h : clause goal ts = .ok s) : ts = s.tokens ∧ s.Fits goal := by
  unfold clause at h
  split at h
  · cases h
  · next stmt hs =>
    obtain rfl := Except.ok.inj h
    simpa using statement_eq hs
  · cases h

/-! ### Reading what was spelled -/

theorem term_tokens (h : e.Fits goal) (operand : e.IsOperand) (rest : List Token) :
    term goal (e.tokens ++ rest) = .ok (e, rest) := by
  cases e with
  | int value => rfl
  | str text => rfl
  | name word =>
    have hword : word ∉ keywords := h
    simp [Expr.tokens, term, hword]
  | published address word =>
    obtain ⟨rfl, hword⟩ := h
    simp [Expr.tokens, term, published, string, exactly, name, hword, bind, Except.bind, pure,
      Except.pure]
  | add left right => exact operand.elim

theorem expression_of_operand (h : e.Fits goal) (operand : e.IsOperand) (rest : List Token) :
    expression goal (e.tokens ++ rest) = sum goal e rest := by
  rw [expression, term_tokens h operand]
  rfl

theorem sum_plus (left : Expr) {right : Expr} (h : right.Fits goal) (operand : right.IsOperand)
    (rest : List Token) :
    sum goal left (.plus :: (right.tokens ++ rest)) = sum goal (.add left right) rest := by
  have ht := term_tokens h operand rest
  rw [sum]
  split
  · next hterm => rw [ht] at hterm; cases hterm
  · next hterm =>
    rw [ht] at hterm
    obtain ⟨rfl, rfl⟩ := Prod.mk.inj (Except.ok.inj hterm)
    rfl

theorem expression_tokens (h : e.Fits goal) (rest : List Token) :
    expression goal (e.tokens ++ rest) = sum goal e rest := by
  induction e generalizing rest with
  | int value => exact expression_of_operand h trivial rest
  | str text => exact expression_of_operand h trivial rest
  | name word => exact expression_of_operand h trivial rest
  | published address word => exact expression_of_operand h trivial rest
  | add left right ihl _ =>
    obtain ⟨hl, hr, hop⟩ := h
    rw [Expr.tokens, List.append_assoc, ihl hl, List.cons_append, sum_plus left hr hop]

theorem expression_self (h : e.Fits goal) : expression goal e.tokens = .ok (e, []) := by
  have hnil : sum goal e [] = .ok (e, []) := by
    rw [sum]
    simp
  have := expression_tokens h []
  rwa [List.append_nil, hnil] at this

theorem binding_tokens {word : String} (hw : word ∉ keywords) (h : e.Fits goal) :
    binding goal (.ident word :: .equals :: e.tokens) = .ok ((word, e), []) := by
  simp [binding, name, hw, exactly, expression_self h, bind, Except.bind, pure, Except.pure]

theorem moreNames_tokens {words : List String} (h : ∀ word ∈ words, word ∉ keywords)
    (rest : List Token) : moreNames (Stmt.moreTokens words ++ .ident "from" :: rest) =
      .ok (words, .ident "from" :: rest) := by
  induction words with
  | nil => simp [Stmt.moreTokens, moreNames]
  | cons word words ih =>
    obtain ⟨hword, hwords⟩ := List.forall_mem_cons.mp h
    have hcons : Stmt.moreTokens (word :: words) ++ .ident "from" :: rest =
        .comma :: .ident word :: (Stmt.moreTokens words ++ .ident "from" :: rest) := rfl
    rw [hcons, moreNames]
    split
    · next hn => simp [name, hword] at hn
    · next hn =>
      simp only [name, hword, if_false, Except.ok.injEq, Prod.mk.injEq] at hn
      obtain ⟨rfl, rfl⟩ := hn
      rw [ih hwords]
      rfl

theorem tokens_head (h : e.Fits goal) :
    ∃ t more, e.tokens = t :: more ∧ ∀ word, t = .ident word → word ∉ keywords := by
  induction e with
  | int value => exact ⟨_, _, rfl, by simp⟩
  | str text => exact ⟨_, _, rfl, by simp⟩
  | name word =>
    refine ⟨_, _, rfl, fun other he => ?_⟩
    obtain rfl := Token.ident.inj he
    exact h
  | published address word => exact ⟨_, _, rfl, by simp⟩
  | add left right ihl _ =>
    obtain ⟨t, more, he, ht⟩ := ihl h.1
    exact ⟨t, more ++ .plus :: right.tokens, by rw [Expr.tokens, he, List.cons_append], ht⟩

theorem statement_of_expression {t : Token} (h : ∀ word, t = .ident word → word ∉ keywords) :
    statement goal (t :: ts) = (do
      let (value, rest) ← expression goal (t :: ts)
      return (.eval value, rest)) := by
  have hne (word : String) (hw : word ∈ keywords) : t ≠ .ident word := fun he => h word he hw
  unfold statement
  split
  · next he => exact absurd (List.cons.inj he).1 (hne _ (by decide))
  · next he => exact absurd (List.cons.inj he).1 (hne _ (by decide))
  · next he => exact absurd (List.cons.inj he).1 (hne _ (by decide))
  · next he => exact absurd (List.cons.inj he).1 (hne _ (by decide))
  · next he => exact absurd (List.cons.inj he).1 (hne _ (by decide))
  · next he => exact absurd (List.cons.inj he).1 (hne _ (by decide))
  · rfl

theorem importing_tokens {names : List String} (specifier : String)
    (h : ∀ word ∈ names, word ∉ keywords) :
    ∃ ts, (Stmt.imports names specifier).tokens = .ident "import" :: ts ∧
      importing ts = .ok (.imports names specifier, []) := by
  cases names with
  | nil => exact ⟨_, rfl, rfl⟩
  | cons first others =>
    obtain ⟨hfirst, hothers⟩ := List.forall_mem_cons.mp h
    refine ⟨_, rfl, ?_⟩
    simp [importing, name, hfirst, moreNames_tokens hothers, keyword, string, bind, Except.bind,
      pure, Except.pure]

theorem statement_tokens (h : s.Fits goal) : statement goal s.tokens = .ok (s, []) := by
  cases s with
  | imports names specifier =>
    obtain ⟨ts, he, hi⟩ := importing_tokens specifier h.2
    simp [he, statement, h.1, hi]
  | exports word value =>
    obtain ⟨rfl, hword, hvalue⟩ := h
    simp [Stmt.tokens, statement, binding_tokens hword hvalue, bind, Except.bind, pure, Except.pure]
  | binds word value =>
    obtain ⟨hword, hvalue⟩ := h
    simp [Stmt.tokens, statement, binding_tokens hword hvalue, bind, Except.bind, pure, Except.pure]
  | publishes address word =>
    obtain ⟨rfl, hword⟩ := h
    simp [Stmt.tokens, statement, string, name, hword, bind, Except.bind, pure, Except.pure]
  | throws value =>
    simp [Stmt.tokens, statement, expression_self h, bind, Except.bind, pure, Except.pure]
  | eval value =>
    have hvalue := expression_self (e := value) h
    obtain ⟨t, more, he, ht⟩ := tokens_head h
    have hs : statement goal (t :: more) = _ := statement_of_expression ht
    rw [← he, hvalue] at hs
    exact hs

/-- The tokens of a statement that fits are read as that statement. -/
theorem clause_tokens (h : s.Fits goal) : clause goal s.tokens = .ok s := by
  simp [clause, statement_tokens h]

end Grammar

end UnitLoader
