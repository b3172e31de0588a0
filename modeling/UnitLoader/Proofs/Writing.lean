import Mathlib.Data.List.TakeWhile
import UnitLoader.Lang.Source
import UnitLoader.Lang.Written
import UnitLoader.Proofs.Spelling

/-! Writing a program and reading it again. What is written for a statement is scanned as
the tokens that spell it, and the lines of the written text are the statements again. -/

namespace UnitLoader

namespace Text

variable {c : Char} {cs line rest : List Char}

theorem takeWhile_append_eq {p : Char → Bool} (h : ∀ c ∈ cs, p c = true)
    (stop : ∀ c, rest.head? = some c → p c = false) : (cs ++ rest).takeWhile p = cs := by
  rw [List.takeWhile_append_of_pos h]
  cases rest with
  | nil => simp
  | cons c rest => simp [stop c rfl]

theorem dropWhile_append_eq {p : Char → Bool} (h : ∀ c ∈ cs, p c = true)
    (stop : ∀ c, rest.head? = some c → p c = false) : (cs ++ rest).dropWhile p = rest := by
  rw [List.dropWhile_append_of_pos h]
  cases rest with
  | nil => simp
  | cons c rest => simp [stop c rfl]

/-- What stands behind a word or a number and does not go on with it. -/
def Breaks (rest : List Char) : Prop :=
  ∀ c, rest.head? = some c → c ∈ separators

/-! ### Lines -/

theorem lines_append (noFeed : '\n' ∉ line) (last : line.getLast? ≠ some '\r')
    (rest : List Char) : lines (line ++ '\n' :: rest) = line :: lines rest := by
  induction line with
  | nil => rfl
  | cons c cs ih =>
    have hc : c ≠ '\n' := fun he => noFeed (he ▸ List.mem_cons_self)
    have hcs : '\n' ∉ cs := fun hm => noFeed (List.mem_cons_of_mem _ hm)
    have hlast : cs.getLast? ≠ some '\r' := by
      cases cs with
      | nil => simp
      | cons d ds => simpa [List.getLast?_cons_cons] using last
    -- a carriage return is no line end here, because no line feed follows it
    have hreturn : ∀ more, c = '\r' → cs ++ '\n' :: rest ≠ '\n' :: more := by
      rintro more rfl he
      cases cs with
      | nil => simp at last
      | cons d ds => exact hcs (List.mem_cons.mpr (.inl (List.cons.inj he).1.symm))
    rw [List.cons_append, lines, ih hcs hlast]
    · exact hc
    · exact hreturn

/-! ### Words -/

variable [Xid]

/-- A word as the scanner takes it: what starts with a digit is a number there. -/
def IsIdentifier (cs : List Char) : Prop :=
  ∃ c rest, cs = c :: rest ∧ c.isDigit = false ∧ isIdentStart c = true ∧
    ∀ d ∈ rest, isIdentContinue d = true

theorem IsIdentifier.continues (h : IsIdentifier cs) : ∀ d ∈ cs, isIdentContinue d = true := by
  obtain ⟨c, rest, rfl, -, hc, hrest⟩ := h
  exact List.forall_mem_cons.mpr ⟨isIdentContinue_of_isIdentStart hc, hrest⟩

theorem IsIdentifier.separator_notMem (h : IsIdentifier cs) (hc : c ∈ separators) : c ∉ cs := by
  intro hmem
  have hcontinue := h.continues c hmem
  rw [isIdentContinue_separator hc] at hcontinue
  cases hcontinue

theorem IsIdentifier.of_letters (h : c.isDigit = false ∧ (c :: cs).all Char.isAlpha = true) :
    IsIdentifier (c :: cs) := by
  have hstart (d : Char) (hd : d ∈ c :: cs) : isIdentStart d = true :=
    isIdentStart_letter (List.all_eq_true.mp h.2 d hd)
  exact ⟨c, cs, rfl, h.1, hstart c List.mem_cons_self, fun d hd =>
    isIdentContinue_of_isIdentStart (hstart d (List.mem_cons_of_mem _ hd))⟩

theorem IsIdentifier.ne_nil (h : IsIdentifier cs) : cs ≠ [] := by
  obtain ⟨c, rest, rfl, -⟩ := h
  exact List.cons_ne_nil c rest

theorem Breaks.ends (h : Breaks rest) : ∀ c, rest.head? = some c → isIdentContinue c = false :=
  fun c hc => isIdentContinue_separator (h c hc)

end Text

namespace Token

variable {line rest : List Char} {ts : List Token}

/-! ### Parts of a line -/

theorem scanString_escaped (text rest : List Char) :
    scanString (text.flatMap Written.escape ++ '"' :: rest) = .ok (text, rest) := by
  induction text with
  | nil => simp [scanString]
  | cons c text ih =>
    rw [List.flatMap_cons, List.append_assoc]
    by_cases hq : c = '"'
    · subst hq
      simp [Written.escape, scanString, unescape?, ih, Except.map]
    by_cases hb : c = '\\'
    · subst hb
      simp [Written.escape, scanString, unescape?, ih, Except.map]
    by_cases hn : c = '\n'
    · subst hn
      simp [Written.escape, scanString, unescape?, ih, Except.map]
    by_cases ht : c = '\t'
    · subst ht
      simp [Written.escape, scanString, unescape?, ih, Except.map]
    have hself : Written.escape c = [c] := by
      unfold Written.escape
      split
      · exact absurd rfl hq
      · exact absurd rfl hb
      · exact absurd rfl hn
      · exact absurd rfl ht
      · rfl
    rw [hself, List.singleton_append, scanString, ih]
    · rfl
    · exact hq
    · rintro rfl
      exact absurd rfl hb
    · rintro e more rfl
      exact absurd rfl hb

/-- Only a separator is read by itself. -/
theorem plain_of_notMem {c : Char} (h : c ∉ Text.separators) :
    isBlank c = false ∧ c ≠ '#' ∧ punctuation? c = none ∧ c ≠ '"' := by
  have hne (d : Char) (hd : d ∈ Text.separators) : c ≠ d := fun he => h (he ▸ hd)
  refine ⟨?_, hne '#' (by decide), ?_, hne '"' (by decide)⟩
  · simp [isBlank, hne ' ' (by decide), hne '\t' (by decide), hne '\r' (by decide)]
  · unfold punctuation?
    split
    all_goals first
      | rfl
      | exact absurd (by decide) h

theorem isDigit_of_mem_digits {value : Integer} (h : 0 ≤ value.toInt) :
    ∀ c ∈ value.digits, c.isDigit = true := by
  intro c hc
  rw [Integer.digits, if_neg (by omega)] at hc
  exact Nat.isDigit_of_mem_toDigits (by omega) (by omega) hc

theorem integer?_digits {value : Integer} (h : 0 ≤ value.toInt) :
    integer? value.digits = .ok (.int value) := by
  obtain ⟨n, hn⟩ := value
  have hnat : 0 ≤ n := h
  have hdigits : Integer.digits ⟨n, hn⟩ = Nat.toDigits 10 n.natAbs := by
    rw [Integer.digits, if_neg (Int.not_lt.mpr hnat)]
  have hle : n.natAbs ≤ 9223372036854775807 := by omega
  rw [integer?, hdigits, Nat.ofDigitChars_toDigits (by omega) (by omega), Integer.ofNat?,
    dif_pos hle]
  have : (n.natAbs : Int) = n := Int.natAbs_of_nonneg h
  simp [this]

theorem breaks_nil : Text.Breaks [] := by
  simp [Text.Breaks]

theorem breaks_cons {c : Char} (h : c ∈ Text.separators) (rest : List Char) :
    Text.Breaks (c :: rest) := by
  intro d hd
  obtain rfl := Option.some.inj hd
  exact h

theorem breaks_blank (rest : List Char) : Text.Breaks (' ' :: rest) :=
  breaks_cons (by decide) rest

theorem isIntegerChar_of_breaks (breaks : Text.Breaks rest) :
    ∀ c, rest.head? = some c → isIntegerChar c = false := by
  have hall : ∀ c ∈ Text.separators, isIntegerChar c = false := by
    simp [Text.separators, isIntegerChar]
  exact fun c hc => hall c (breaks c hc)

/-! ### What is scanned -/

variable [Text.Xid]

/-- A token that the scanner can give. -/
def Sound : Token → Prop
  | .ident name => Text.IsIdentifier name.toList
  | .int value => 0 ≤ value.toInt
  | _ => True

theorem sound_of_integer? {digits : List Char} {t : Token} (h : integer? digits = .ok t) :
    t.Sound := by
  simp only [integer?, Integer.ofNat?] at h
  split at h
  · next hv =>
    obtain rfl := Except.ok.inj h
    split at hv
    · obtain rfl := Option.some.inj hv
      exact Int.natCast_nonneg _
    · cases hv
  · cases h

theorem sound_of_punctuation? {c : Char} {t : Token} (h : punctuation? c = some t) :
    t.Sound := by
  simp only [punctuation?] at h
  split at h
  all_goals first
    | (obtain rfl := Option.some.inj h; exact trivial)
    | cases h

theorem sound_of_scan (h : scan line = .ok ts) : ∀ t ∈ ts, t.Sound := by
  fun_induction scan line generalizing ts with
  | case1 =>
    obtain rfl := Except.ok.inj h
    simp
  | case2 c rest hblank ih => exact ih h
  | case3 rest hblank =>
    obtain rfl := Except.ok.inj h
    simp
  | case4 c rest _ _ token hp ih =>
    obtain ⟨more, hm, rfl⟩ := map_eq_ok h
    exact List.forall_mem_cons.mpr ⟨sound_of_punctuation? hp, ih hm⟩
  | case5 => cases h
  | case6 rest _ _ _ text after hs _ ih =>
    obtain ⟨more, hm, rfl⟩ := map_eq_ok h
    exact List.forall_mem_cons.mpr ⟨trivial, ih hm⟩
  | case7 c rest _ _ _ _ _ _ ih =>
    obtain ⟨t, ht, h⟩ := bind_eq_ok h
    obtain ⟨more, hm, rfl⟩ := map_eq_ok h
    exact List.forall_mem_cons.mpr ⟨sound_of_integer? ht, ih hm⟩
  | case8 c rest _ _ _ _ hdigit hstart _ ih =>
    obtain ⟨more, hm, rfl⟩ := map_eq_ok h
    refine List.forall_mem_cons.mpr ⟨?_, ih hm⟩
    rw [Sound, String.toList_ofList]
    exact ⟨c, _, rfl, Bool.eq_false_iff.mpr hdigit, hstart, fun d hd => by
      simpa using List.mem_takeWhile_imp hd⟩
  | case9 => cases h

/-! ### Scanning what was written -/

theorem scan_blank (rest : List Char) : scan (' ' :: rest) = scan rest := by
  rw [scan]
  simp [isBlank]

theorem scan_string (text : String) (hr : scan rest = .ok ts) :
    scan (Written.string text ++ rest) = .ok (.str text :: ts) := by
  have hs := scanString_escaped text.toList rest
  have hplain : isBlank '"' = false ∧ '"' ≠ '#' ∧ punctuation? '"' = none := by decide
  obtain ⟨hblank, hsign, hnone⟩ := hplain
  rw [Written.string, List.cons_append, List.append_assoc, List.singleton_append, scan]
  simp only [hblank, Bool.false_eq_true, if_false, hsign]
  split
  · next hsome => rw [hnone] at hsome; cases hsome
  · simp only [if_true]
    · split
      · next he => rw [hs] at he; cases he
      · next he =>
        rw [hs] at he
        obtain ⟨rfl, rfl⟩ := Prod.mk.inj (Except.ok.inj he)
        rw [hr, String.ofList_toList]
        rfl

theorem scan_ident {word : String} (h : Text.IsIdentifier word.toList) (breaks : Text.Breaks rest)
    (hr : scan rest = .ok ts) : scan (word.toList ++ rest) = .ok (.ident word :: ts) := by
  have hseparator (c : Char) (hc : c ∈ Text.separators) := h.separator_notMem hc
  obtain ⟨c, cs, hw, hdigit, hc, hcs⟩ := h
  have hplain : c ∉ Text.separators := fun hm => hseparator c hm (hw ▸ List.mem_cons_self)
  obtain ⟨hblank, hsign, hnone, hquote⟩ := plain_of_notMem hplain
  rw [hw, List.cons_append, scan]
  simp only [hblank, Bool.false_eq_true, if_false, hsign]
  split
  · next hsome => rw [hnone] at hsome; cases hsome
  · simp only [hquote, if_false, hdigit, Bool.false_eq_true, hc, if_true,
      Text.takeWhile_append_eq hcs breaks.ends, Text.dropWhile_append_eq hcs breaks.ends, hr,
      Except.map]
    rw [← hw, String.ofList_toList]

theorem scan_int {value : Integer} (h : 0 ≤ value.toInt) (breaks : Text.Breaks rest)
    (hr : scan rest = .ok ts) : scan (value.digits ++ rest) = .ok (.int value :: ts) := by
  have hdigits := isDigit_of_mem_digits h
  have hinteger := integer?_digits h
  have hne : value.digits ≠ [] := by
    rw [Integer.digits, if_neg (by omega)]
    exact Nat.toDigits_ne_nil
  obtain ⟨c, cs, hw⟩ := List.exists_cons_of_ne_nil hne
  rw [hw] at hdigits hinteger ⊢
  obtain ⟨hc, hcs⟩ := List.forall_mem_cons.mp hdigits
  have hplain : c ∉ Text.separators := fun hm => by
    have hnone : ∀ d ∈ Text.separators, d.isDigit = false := by simp [Text.separators]
    rw [hnone c hm] at hc
    cases hc
  obtain ⟨hblank, hsign, hnone, hquote⟩ := plain_of_notMem hplain
  have hall : ∀ d ∈ cs, isIntegerChar d = true := fun d hd => by simp [isIntegerChar, hcs d hd]
  have hstop := isIntegerChar_of_breaks breaks
  have hfilter : (c :: cs).filter (· ≠ '_') = c :: cs := by
    refine List.filter_eq_self.mpr fun d hd => ?_
    have := hdigits d hd
    simpa using fun he : d = '_' => by simp [he] at this
  rw [List.cons_append, scan]
  simp only [hblank, Bool.false_eq_true, if_false, hsign]
  split
  · next hsome => rw [hnone] at hsome; cases hsome
  · simp only [hquote, if_false, hc, if_true, Text.takeWhile_append_eq hall hstop,
      Text.dropWhile_append_eq hall hstop, hfilter, hinteger, hr]
    rfl

theorem scan_punctuation {c : Char} {t : Token} (h : punctuation? c = some t)
    (hr : scan rest = .ok ts) : scan (c :: rest) = .ok (t :: ts) := by
  have hplain : isBlank c = false ∧ c ≠ '#' := by
    simp only [punctuation?] at h
    split at h
    all_goals first
      | decide
      | cases h
  rw [scan]
  simp only [hplain.1, Bool.false_eq_true, if_false, hplain.2]
  split
  · next hs =>
    rw [h] at hs
    obtain rfl := Option.some.inj hs
    rw [hr]
    rfl
  · next hn => rw [h] at hn; cases hn

theorem scan_expr {e : Expr} (sound : ∀ t ∈ e.tokens, t.Sound) (breaks : Text.Breaks rest)
    (hr : scan rest = .ok ts) : scan (Written.expr e ++ rest) = .ok (e.tokens ++ ts) := by
  induction e generalizing rest ts with
  | int value => exact scan_int (sound (.int value) (by simp [Expr.tokens])) breaks hr
  | str text => exact scan_string text hr
  | name word => exact scan_ident (sound (.ident word) (by simp [Expr.tokens])) breaks hr
  | published address word =>
    have hword := scan_ident (sound (.ident word) (by simp [Expr.tokens])) breaks hr
    have hdot := scan_punctuation (c := '.') rfl hword
    have haddress := scan_string address hdot
    have hsign := scan_punctuation (c := '@') rfl haddress
    simpa [Written.expr, Expr.tokens] using hsign
  | add left right ihl ihr =>
    have hleft : ∀ t ∈ left.tokens, t.Sound := fun t ht => sound t (by simp [Expr.tokens, ht])
    have hright : ∀ t ∈ right.tokens, t.Sound := fun t ht => sound t (by simp [Expr.tokens, ht])
    have hplus := scan_punctuation (c := '+') rfl ((scan_blank _).trans (ihr hright breaks hr))
    have hsum := ihl hleft (breaks_blank _) ((scan_blank _).trans hplus)
    simpa [Written.expr, Written.plusSign, Expr.tokens] using hsum

theorem isIdentifier_of_keyword : ∀ word ∈ keywords, Text.IsIdentifier word.toList := by
  simp only [keywords, List.forall_mem_cons, List.not_mem_nil, false_implies, implies_true,
    and_true]
  exact ⟨.of_letters (by decide), .of_letters (by decide), .of_letters (by decide),
    .of_letters (by decide), .of_letters (by decide), .of_letters (by decide)⟩

theorem scan_keyword {word : String} (h : word ∈ keywords) (hr : scan rest = .ok ts) :
    scan (word.toList ++ ' ' :: rest) = .ok (.ident word :: ts) :=
  scan_ident (isIdentifier_of_keyword word h) (breaks_blank rest) ((scan_blank rest).trans hr)

end Token

namespace Written

variable {rest : List Char} {ts : List Token}

def moreNames (words : List String) : List Char :=
  words.flatMap fun word => ',' :: ' ' :: word.toList

theorem names_cons (first : String) (others : List String) :
    names (first :: others) = first.toList ++ moreNames others := by
  induction others generalizing first with
  | nil => simp [names, moreNames]
  | cons second others ih =>
    have hcons : names (first :: second :: others) =
        first.toList ++ [',', ' '] ++ names (second :: others) := by
      simp only [names, List.map_cons]
      rw [List.intercalate_cons_cons]
    rw [hcons, ih second]
    simp [moreNames]

theorem breaks_moreNames (words : List String) (breaks : Text.Breaks rest) :
    Text.Breaks (moreNames words ++ rest) := by
  cases words with
  | nil => exact breaks
  | cons word words => exact Token.breaks_cons (by decide) _

/-! ### Texts of one line -/

/-- A text that stays one line when a line feed is put behind it. -/
structure OneLine (cs : List Char) : Prop where
  noFeed : '\n' ∉ cs
  last : ∃ c, cs.getLast? = some c ∧ c ≠ '\r'

theorem OneLine.append {cs : List Char} (h : OneLine cs) {before : List Char}
    (noFeed : '\n' ∉ before) :
    OneLine (before ++ cs) where
  noFeed := by simp [noFeed, h.noFeed]
  last := by
    obtain ⟨c, hc, hne⟩ := h.last
    exact ⟨c, by simp [List.getLast?_append, hc], hne⟩

theorem OneLine.of_forall {cs : List Char} (ne : cs ≠ []) (h : ∀ c ∈ cs, c ≠ '\n' ∧ c ≠ '\r') :
    OneLine cs where
  noFeed := fun hm => (h _ hm).1 rfl
  last := ⟨cs.getLast ne, List.getLast?_eq_some_getLast ne, (h _ (List.getLast_mem ne)).2⟩

theorem oneLine_digits {value : Integer} (h : 0 ≤ value.toInt) : OneLine value.digits := by
  have hdigits := Token.isDigit_of_mem_digits h
  refine .of_forall ?_ fun c hc => ?_
  · rw [Integer.digits, if_neg (by omega)]
    exact Nat.toDigits_ne_nil
  · have hdigit := hdigits c hc
    exact ⟨fun he => by simp [he] at hdigit, fun he => by simp [he] at hdigit⟩

theorem oneLine_string (text : String) : OneLine (string text) := by
  have hescape (c : Char) : '\n' ∉ escape c := by
    unfold escape
    split
    · decide
    · decide
    · decide
    · decide
    · next hn _ => simpa using fun he : '\n' = c => hn he.symm
  have hnone : '\n' ∉ text.toList.flatMap escape := by
    rw [List.mem_flatMap]
    rintro ⟨c, -, hc⟩
    exact hescape c hc
  have hquote : OneLine ['"'] := ⟨by decide, '"', rfl, by decide⟩
  have hbefore : '\n' ∉ '"' :: text.toList.flatMap escape := by simp [hnone]
  exact hquote.append hbefore

/-! ### Scanning a statement -/

variable [Text.Xid]

theorem scan_moreNames {words : List String}
    (h : ∀ word ∈ words, Text.IsIdentifier word.toList) (breaks : Text.Breaks rest)
    (hr : Token.scan rest = .ok ts) :
    Token.scan (moreNames words ++ rest) = .ok (Stmt.moreTokens words ++ ts) := by
  induction words with
  | nil => exact hr
  | cons word words ih =>
    obtain ⟨hword, hwords⟩ := List.forall_mem_cons.mp h
    have hnext := Token.scan_ident hword (breaks_moreNames words breaks) (ih hwords)
    have hcomma := Token.scan_punctuation (c := ',') rfl ((Token.scan_blank _).trans hnext)
    simpa [moreNames, Stmt.moreTokens] using hcomma

theorem scan_binding {word : String} {value : Expr} (hw : Text.IsIdentifier word.toList)
    (hv : ∀ t ∈ value.tokens, t.Sound) :
    Token.scan (word.toList ++ equalsSign ++ expr value) =
      .ok (.ident word :: .equals :: value.tokens) := by
  have hvalue := Token.scan_expr hv Token.breaks_nil (Token.scan.eq_1)
  have hequals := Token.scan_punctuation (c := '=') rfl ((Token.scan_blank _).trans hvalue)
  have hword := Token.scan_ident hw (Token.breaks_blank _) ((Token.scan_blank _).trans hequals)
  simpa [equalsSign] using hword

theorem scan_stmt {s : Stmt} (sound : ∀ t ∈ s.tokens, t.Sound) :
    Token.scan (stmt s) = .ok s.tokens := by
  have hend : Token.scan [] = .ok [] := Token.scan.eq_1
  have hkeyword (word : String) (h : word ∈ keywords) {cs : List Char} {more : List Token}
      (hs : Token.scan cs = .ok more) :
      Token.scan ((word.toList ++ [' ']) ++ cs) = .ok (.ident word :: more) := by
    rw [List.append_assoc]
    exact Token.scan_keyword h hs
  cases s with
  | imports names specifier =>
    have hspecifier := Token.scan_string specifier hend
    cases names with
    | nil =>
      have := hkeyword "import" (by decide) hspecifier
      simpa [stmt, Stmt.tokens, importWord] using this
    | cons first others =>
      have hfirst : Text.IsIdentifier first.toList :=
        sound (.ident first) (by simp [Stmt.tokens])
      have hothers : ∀ word ∈ others, Text.IsIdentifier word.toList := fun word hw =>
        sound (.ident word) (by simp [Stmt.tokens, Stmt.moreTokens, hw])
      have hfrom := (Token.scan_blank _).trans (hkeyword "from" (by decide) hspecifier)
      have hmore := scan_moreNames hothers (Token.breaks_blank _) hfrom
      have hnames := Token.scan_ident hfirst
        (breaks_moreNames others (Token.breaks_blank _)) hmore
      have := hkeyword "import" (by decide) hnames
      simpa [stmt, Stmt.tokens, names_cons, importWord, fromWord] using this
  | exports word value =>
    have hvalue : ∀ t ∈ value.tokens, t.Sound := fun t ht => sound t (by simp [Stmt.tokens, ht])
    have hbinding := scan_binding (sound (.ident word) (by simp [Stmt.tokens])) hvalue
    simpa [stmt, Stmt.tokens, exportWord] using hkeyword "export" (by decide) hbinding
  | binds word value =>
    have hvalue : ∀ t ∈ value.tokens, t.Sound := fun t ht => sound t (by simp [Stmt.tokens, ht])
    have hbinding := scan_binding (sound (.ident word) (by simp [Stmt.tokens])) hvalue
    simpa [stmt, Stmt.tokens, letWord] using hkeyword "let" (by decide) hbinding
  | publishes address word =>
    have hword := Token.scan_ident (sound (.ident word) (by simp [Stmt.tokens]))
      Token.breaks_nil hend
    have haddress := Token.scan_string address ((Token.scan_blank _).trans hword)
    simpa [stmt, Stmt.tokens, publishWord] using hkeyword "publish" (by decide) haddress
  | throws value =>
    have hsound : ∀ t ∈ value.tokens, t.Sound := fun t ht => sound t (by simp [Stmt.tokens, ht])
    have hvalue := Token.scan_expr hsound Token.breaks_nil hend
    simpa [stmt, Stmt.tokens, throwWord] using hkeyword "throw" (by decide) hvalue
  | eval value =>
    have hvalue := Token.scan_expr (e := value) sound Token.breaks_nil hend
    simpa [stmt, Stmt.tokens] using hvalue

/-! ### The lines of a written text -/

theorem oneLine_word {word : String} (h : Text.IsIdentifier word.toList) : OneLine word.toList := by
  refine .of_forall h.ne_nil fun c hc => ?_
  have hne (d : Char) (hd : d ∈ Text.separators) : c ≠ d := fun he =>
    h.separator_notMem hd (he ▸ hc)
  exact ⟨hne '\n' (by decide), hne '\r' (by decide)⟩

theorem oneLine_expr {e : Expr} (sound : ∀ t ∈ e.tokens, t.Sound) : OneLine (expr e) := by
  induction e with
  | int value => exact oneLine_digits (sound (.int value) (by simp [Expr.tokens]))
  | str text => exact oneLine_string text
  | name word => exact oneLine_word (sound (.ident word) (by simp [Expr.tokens]))
  | published address word =>
    have hword := oneLine_word (sound (.ident word) (by simp [Expr.tokens]))
    have hbefore : '\n' ∉ '@' :: (string address ++ ['.']) := by
      simp [(oneLine_string address).noFeed]
    simpa [expr] using hword.append hbefore
  | add left right ihl ihr =>
    have hleft := ihl fun t ht => sound t (by simp [Expr.tokens, ht])
    have hright := ihr fun t ht => sound t (by simp [Expr.tokens, ht])
    exact hright.append (by simp [hleft.noFeed, plusSign])

theorem noFeed_moreNames {words : List String}
    (h : ∀ word ∈ words, Text.IsIdentifier word.toList) : '\n' ∉ moreNames words := by
  simp only [moreNames, List.mem_flatMap, not_exists, not_and]
  intro word hw
  simp [(oneLine_word (h word hw)).noFeed]

theorem oneLine_stmt {s : Stmt} (sound : ∀ t ∈ s.tokens, t.Sound) : OneLine (stmt s) := by
  cases s with
  | imports names specifier =>
    have hspecifier := oneLine_string specifier
    cases names with
    | nil => exact hspecifier.append (by decide)
    | cons first others =>
      have hfirst : OneLine first.toList :=
        oneLine_word (sound (.ident first) (by simp [Stmt.tokens]))
      have hothers : '\n' ∉ moreNames others := noFeed_moreNames fun word hw =>
        sound (.ident word) (by simp [Stmt.tokens, Stmt.moreTokens, hw])
      refine hspecifier.append ?_
      simp [names_cons, importWord, fromWord, hfirst.noFeed, hothers]
  | exports word value =>
    have hword : OneLine word.toList := oneLine_word (sound (.ident word) (by simp [Stmt.tokens]))
    have hvalue := oneLine_expr (e := value) fun t ht => sound t (by simp [Stmt.tokens, ht])
    exact hvalue.append (by simp [exportWord, equalsSign, hword.noFeed])
  | binds word value =>
    have hword : OneLine word.toList := oneLine_word (sound (.ident word) (by simp [Stmt.tokens]))
    have hvalue := oneLine_expr (e := value) fun t ht => sound t (by simp [Stmt.tokens, ht])
    exact hvalue.append (by simp [letWord, equalsSign, hword.noFeed])
  | publishes address word =>
    have hword : OneLine word.toList := oneLine_word (sound (.ident word) (by simp [Stmt.tokens]))
    have hbefore : '\n' ∉ publishWord ++ string address ++ [' '] := by
      simp [publishWord, (oneLine_string address).noFeed]
    simpa [stmt] using hword.append hbefore
  | throws value =>
    have hvalue := oneLine_expr (e := value) fun t ht => sound t (by simp [Stmt.tokens, ht])
    exact hvalue.append (by decide)
  | eval value => exact oneLine_expr sound

theorem lines_written {lines : List Line}
    (sound : ∀ line ∈ lines, ∀ t ∈ line.stmt.tokens, t.Sound) :
    Text.lines (lines.flatMap fun line => stmt line.stmt ++ ['\n']) =
      lines.map fun line => stmt line.stmt := by
  induction lines with
  | nil => rfl
  | cons line lines ih =>
    obtain ⟨hline, hlines⟩ := List.forall_mem_cons.mp sound
    have hone := oneLine_stmt hline
    have hlast : (stmt line.stmt).getLast? ≠ some '\r' := by
      obtain ⟨c, hc, hne⟩ := hone.last
      rw [hc]
      simpa using hne
    rw [List.flatMap_cons, List.append_assoc, List.singleton_append,
      Text.lines_append hone.noFeed hlast, ih hlines, List.map_cons]

end Written

namespace Stmt

/-- A statement that can be read from a text. -/
structure Legible [Text.Xid] (goal : Goal) (s : Stmt) : Prop where
  fits : s.Fits goal
  sound : ∀ t ∈ s.tokens, t.Sound

end Stmt

namespace Source

variable {goal : Goal}

theorem tokens_ne_nil {s : Stmt} (h : s.Fits goal) : s.tokens ≠ [] := by
  intro he
  have := Grammar.statement_tokens h
  rw [he] at this
  cases goal <;> simp [Grammar.statement, Grammar.expression, Grammar.term, bind, Except.bind] at this

theorem semicolon_notMem_expr (e : Expr) : .semicolon ∉ e.tokens := by
  induction e with
  | add left right ihl ihr => simp [Expr.tokens, ihl, ihr]
  | _ => simp [Expr.tokens]

theorem semicolon_notMem (s : Stmt) : .semicolon ∉ s.tokens := by
  cases s with
  | imports names specifier =>
    cases names with
    | nil => simp [Stmt.tokens]
    | cons first others => simp [Stmt.tokens, Stmt.moreTokens]
  | _ => simp [Stmt.tokens, semicolon_notMem_expr]

theorem mem_of_mem_splitOn {ts piece : List Token} {t : Token}
    (hp : piece ∈ ts.splitOn .semicolon) (ht : t ∈ piece) : t ∈ ts := by
  have hjoin (pieces : List (List Token)) (hp : piece ∈ pieces) :
      t ∈ [Token.semicolon].intercalate pieces := by
    induction pieces with
    | nil => cases hp
    | cons first pieces ih =>
      cases pieces with
      | nil =>
        obtain rfl := List.mem_singleton.mp hp
        simpa using ht
      | cons second pieces =>
        rw [List.intercalate_cons_cons]
        rcases List.mem_cons.mp hp with rfl | hp
        · simp [ht]
        · simp [ih hp]
  have := hjoin _ hp
  rwa [List.intercalate_splitOn] at this

theorem mem_of_mapM_eq_ok {ε α β : Type} {f : α → Except ε β} {xs : List α} {ys : List β}
    (h : xs.mapM f = .ok ys) : ∀ y ∈ ys, ∃ x ∈ xs, f x = .ok y := by
  induction xs generalizing ys with
  | nil =>
    obtain rfl := Except.ok.inj h
    simp
  | cons x xs ih =>
    rw [List.mapM_cons] at h
    obtain ⟨y, hy, h⟩ := bind_eq_ok h
    obtain ⟨more, hm, h⟩ := bind_eq_ok h
    obtain rfl := Except.ok.inj h
    refine List.forall_mem_cons.mpr ⟨⟨x, List.mem_cons_self, hy⟩, fun z hz => ?_⟩
    obtain ⟨w, hw, he⟩ := ih hm z hz
    exact ⟨w, List.mem_cons_of_mem _ hw, he⟩

variable [Text.Xid]

theorem readLine_stmt {s : Stmt} (h : s.Legible goal) :
    readLine goal (Written.stmt s) = .ok [s] := by
  have hsplit : s.tokens.splitOn .semicolon = [s.tokens] :=
    List.splitOn_eq_singleton (semicolon_notMem s)
  have hline : Grammar.line goal s.tokens = .ok [s] := by
    have hne := tokens_ne_nil h.fits
    simp [Grammar.line, hsplit, hne, Grammar.clause_tokens h.fits, bind, Except.bind, pure,
      Except.pure]
  simp [readLine, Written.scan_stmt h.sound, hline]

theorem readLines_stmts {lines : List Line} (h : ∀ line ∈ lines, line.stmt.Legible goal)
    (number : Nat) :
    (readLines goal number (lines.map fun line => Written.stmt line.stmt)).errors = [] ∧
      (readLines goal number (lines.map fun line => Written.stmt line.stmt)).lines =
        lines.mapIdx fun i line => ⟨number + i, line.stmt⟩ := by
  induction lines generalizing number with
  | nil => exact ⟨rfl, rfl⟩
  | cons line lines ih =>
    obtain ⟨hline, hlines⟩ := List.forall_mem_cons.mp h
    obtain ⟨herrors, hrest⟩ := ih hlines (number + 1)
    have hread := readLine_stmt hline
    simp only [List.map_cons, readLines, hread, herrors, hrest, List.mapIdx_cons, true_and]
    simp [Nat.add_assoc, Nat.add_comm 1]

/-- A program that is written and read again has the same statements, one to a line. -/
theorem read_write {p : Program} (h : ∀ line ∈ p.lines, line.stmt.Legible goal) :
    (read goal p.write).errors = [] ∧
      (read goal p.write).lines = p.lines.mapIdx fun i line => ⟨1 + i, line.stmt⟩ := by
  have hlines := Written.lines_written fun line hl => (h line hl).sound
  rw [read, Program.write, String.toList_ofList, hlines]
  exact readLines_stmts h 1

/-! ### What is read can be written -/

theorem legible_of_readLine {text : List Char} {stmts : List Stmt}
    (h : readLine goal text = .ok stmts) : ∀ s ∈ stmts, s.Legible goal := by
  intro s hs
  simp only [readLine] at h
  cases hscan : Token.scan text with
  | error e => simp [hscan] at h
  | ok ts =>
    cases hline : Grammar.line goal ts with
    | error e => simp [hscan, hline] at h
    | ok found =>
      simp only [hscan, hline, Except.ok.injEq] at h
      subst h
      obtain ⟨piece, hpiece, hclause⟩ := mem_of_mapM_eq_ok hline s hs
      obtain ⟨rfl, hfits⟩ := Grammar.clause_eq hclause
      have hmem := (List.mem_filter.mp hpiece).1
      exact ⟨hfits, fun t ht => Token.sound_of_scan hscan t (mem_of_mem_splitOn hmem ht)⟩

theorem legible_of_readLines {number : Nat} {texts : List (List Char)} :
    ∀ line ∈ (readLines goal number texts).lines, line.stmt.Legible goal := by
  induction texts generalizing number with
  | nil => simp [readLines]
  | cons text texts ih =>
    intro line hl
    simp only [readLines] at hl
    cases hr : readLine goal text with
    | error cause =>
      rw [hr] at hl
      exact ih line hl
    | ok stmts =>
      simp only [hr, List.mem_append, List.mem_map] at hl
      rcases hl with ⟨s, hs, rfl⟩ | hl
      · exact legible_of_readLine hr s hs
      · exact ih line hl

/-- Whatever is read from a text can be written. -/
theorem legible_of_read {text : String} :
    ∀ line ∈ (read goal text).lines, line.stmt.Legible goal :=
  legible_of_readLines

end Source

end UnitLoader
