/-! The characters of identifiers. Which characters start an identifier and which go on
with one is left open here, but for what reading a written text relies on. -/

namespace UnitLoader.Text

/-- The white space of source text and the marks that are tokens, or begin one, by
themselves. -/
def separators : List Char :=
  [' ', '\t', '\r', '\n', '#', '"', '=', '+', ',', '@', '.', ';']

/-- The two classes of characters that identifiers are made of. -/
class Xid where
  isStart : Char → Bool
  isContinue : Char → Bool
  isContinue_of_isStart : ∀ c, isStart c = true → isContinue c = true
  isContinue_underscore : isContinue '_' = true
  isContinue_separator : ∀ c ∈ separators, isContinue c = false
  /-- Without its letters a keyword would not be a word. -/
  isStart_letter : ∀ c, c.isAlpha = true → isStart c = true

/-- Classes without the colon, which ends the address in a published key. -/
class KeyedXid extends Xid where
  isContinue_colon : isContinue ':' = false

section

variable [Xid] {c : Char}

/-- An identifier may also start with an underscore or a dollar sign. -/
def isIdentStart (c : Char) : Bool :=
  c == '_' || c == '$' || Xid.isStart c

def isIdentContinue (c : Char) : Bool :=
  c == '$' || Xid.isContinue c

theorem isIdentContinue_of_isIdentStart (h : isIdentStart c = true) :
    isIdentContinue c = true := by
  simp only [isIdentStart, Bool.or_eq_true, beq_iff_eq] at h
  rcases h with (rfl | rfl) | h
  · simp [isIdentContinue, Xid.isContinue_underscore]
  · simp [isIdentContinue]
  · simp [isIdentContinue, Xid.isContinue_of_isStart c h]

theorem isIdentContinue_separator (h : c ∈ separators) : isIdentContinue c = false := by
  have hne : c ≠ '$' := by
    rintro rfl
    revert h
    decide
  simp [isIdentContinue, hne, Xid.isContinue_separator c h]

theorem isIdentStart_letter (h : c.isAlpha = true) : isIdentStart c = true := by
  simp [isIdentStart, Xid.isStart_letter c h]

end

end UnitLoader.Text
