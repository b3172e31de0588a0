import UnitLoader.Cache

/-! The order in which the units of a cache are executed: each after the units that
it imports, as far as cycles allow. The units are walked depth first from the
oldest on, and each is written down when all its imports have been looked at. -/

namespace UnitLoader

namespace Cache

variable {Tree Value Listener : Type}

/-- A unit that the walk has entered, with its imports not looked at yet. -/
structure Frame where
  id : UnitId
  rest : List UnitId
deriving DecidableEq, Repr

/-- The units entered so far and the units written down. -/
structure Walked where
  seen : List UnitId
  order : List UnitId
deriving DecidableEq, Repr

/-- The steps that the units not entered yet can still cause, with one to spare for each. -/
def unseenWeight (c : Cache Tree Value Listener) (seen : List UnitId) : Nat :=
  c.ids.foldr
    (fun id weight => (if id ∈ seen then 0 else (c.dependencyIds id).length + 2) + weight) 0

def stackWeight (stack : List Frame) : Nat :=
  stack.foldr (fun f weight => f.rest.length + 1 + weight) 0

theorem mem_ids_iff (c : Cache Tree Value Listener) (id : UnitId) :
    id ∈ c.ids ↔ id.index < c.size := by
  obtain ⟨n⟩ := id
  simp [ids]

theorem unseenWeight_cons_le {c : Cache Tree Value Listener} {seen : List UnitId} {id : UnitId}
    (hid : id.index < c.size) (hs : id ∉ seen) :
    c.unseenWeight (id :: seen) + ((c.dependencyIds id).length + 2) ≤ c.unseenWeight seen := by
  have hmem : id ∈ c.ids := (c.mem_ids_iff id).2 hid
  unfold unseenWeight
  generalize c.ids = l at hmem
  have hle (x : UnitId) : (if x ∈ id :: seen then 0 else (c.dependencyIds x).length + 2) ≤
      if x ∈ seen then 0 else (c.dependencyIds x).length + 2 := by
    by_cases hx : x ∈ seen
    · simp [hx]
    · by_cases he : x = id <;> simp [hx, he]
  have hsum (l : List UnitId) :
      l.foldr (fun x weight =>
          (if x ∈ id :: seen then 0 else (c.dependencyIds x).length + 2) + weight) 0 ≤
        l.foldr (fun x weight =>
          (if x ∈ seen then 0 else (c.dependencyIds x).length + 2) + weight) 0 := by
    induction l with
    | nil => exact Nat.le_refl _
    | cons x l ih => exact Nat.add_le_add (hle x) ih
  induction l with
  | nil => simp at hmem
  | cons x l ih =>
    simp only [List.foldr_cons]
    rcases List.mem_cons.1 hmem with rfl | hl
    · have := hsum l
      rw [if_pos List.mem_cons_self, if_neg hs]
      omega
    · have := ih hl
      have := hle x
      omega

/-- Walks on from a stack of entered units, the innermost first. -/
def walk (c : Cache Tree Value Listener) (seen : List UnitId) (stack : List Frame)
    (order : List UnitId) : Walked :=
  match stack with
  | [] => ⟨seen, order⟩
  | ⟨id, []⟩ :: below => c.walk seen below (order ++ [id])
  | ⟨id, next :: rest⟩ :: below =>
    if _ : next.index < c.size ∧ next ∉ seen then
      c.walk (next :: seen) (⟨next, c.dependencyIds next⟩ :: ⟨id, rest⟩ :: below) order
    else c.walk seen (⟨id, rest⟩ :: below) order
termination_by c.unseenWeight seen + stackWeight stack
decreasing_by
  · simp [stackWeight]
  · next h =>
    have := unseenWeight_cons_le h.1 h.2
    simp only [stackWeight, List.foldr_cons, List.length_cons]
    omega
  · simp [stackWeight]

def walkFrom (c : Cache Tree Value Listener) (w : Walked) (root : UnitId) : Walked :=
  if root ∈ w.seen then w
  else c.walk (root :: w.seen) [⟨root, c.dependencyIds root⟩] w.order

def evaluationOrder (c : Cache Tree Value Listener) : List UnitId :=
  (c.ids.foldl c.walkFrom ⟨[], []⟩).order

end Cache

end UnitLoader
