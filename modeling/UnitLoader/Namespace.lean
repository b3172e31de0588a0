/-! The bindings that executed code shares, in the order of their first
definition. Defining a name again changes its value and not its place. -/

namespace UnitLoader

/-- Puts a value under a key, in place of the one that was there or behind all others. -/
def insertKey {Key Value : Type} [BEq Key] (key : Key) (value : Value) :
    List (Key × Value) → List (Key × Value)
  | [] => [(key, value)]
  | (other, old) :: rest =>
    if other == key then (other, value) :: rest else (other, old) :: insertKey key value rest

theorem lookup_insertKey {Key Value : Type} [BEq Key] [LawfulBEq Key] (key other : Key)
    (value : Value) (entries : List (Key × Value)) :
    (insertKey key value entries).lookup other =
      if other == key then some value else entries.lookup other := by
  induction entries with
  | nil => grind [insertKey]
  | cons entry rest ih => grind [insertKey]

structure Namespace (Value : Type) where
  bindings : List (String × Value)
deriving DecidableEq, Repr

namespace Namespace

variable {Value : Type}

def empty : Namespace Value := ⟨[]⟩

def get? (ns : Namespace Value) (name : String) : Option Value :=
  ns.bindings.lookup name

def define (ns : Namespace Value) (name : String) (value : Value) : Namespace Value :=
  ⟨insertKey name value ns.bindings⟩

def contains (ns : Namespace Value) (name : String) : Bool :=
  (ns.get? name).isSome

def size (ns : Namespace Value) : Nat :=
  ns.bindings.length

def isEmpty (ns : Namespace Value) : Bool :=
  ns.bindings.isEmpty

theorem get?_define (ns : Namespace Value) (name other : String) (value : Value) :
    (ns.define name value).get? other = if other = name then some value else ns.get? other := by
  simp only [define, get?, lookup_insertKey, beq_iff_eq]

end Namespace

end UnitLoader
