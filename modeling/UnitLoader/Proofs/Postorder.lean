import Mathlib.Logic.Relation
import UnitLoader.Proofs.ExecutionOrder

/-! In which order the depth-first walk writes down units that import each other. A unit
comes after each of its imports, except for those that lead back to it. -/

namespace UnitLoader

/-! ### Places in a list -/

section Places

variable {α : Type} {l : List α} {x y : α}

/-- What holds of each member of a list and those before it goes on to hold when a last
member is added of which it holds. -/
theorem forall_split_snoc {P : List α → α → Prop}
    (h : ∀ before x after, l = before ++ x :: after → P before x) (last : P l y) :
    ∀ before x after, l ++ [y] = before ++ x :: after → P before x := by
  intro before x after he
  rcases List.eq_nil_or_concat after with rfl | ⟨front, z, rfl⟩
  · obtain ⟨rfl, hx⟩ := List.append_inj' he rfl
    obtain rfl := List.singleton_inj.mp hx
    exact last
  · have he' : l ++ [y] = (before ++ x :: front) ++ [z] := by simpa using he
    obtain ⟨rfl, -⟩ := List.append_inj' he' rfl
    exact h before x front rfl

theorem idxOf_lt_of_mem_before [DecidableEq α] (nodup : l.Nodup) (hx : x ∈ l)
    (h : ∀ before after, l = before ++ x :: after → y ∈ before) : l.idxOf y < l.idxOf x := by
  obtain ⟨before, after, rfl⟩ := List.append_of_mem hx
  have hy := h before after rfl
  have hnot : x ∉ before := fun hm =>
    (List.nodup_append.mp nodup).2.2 x hm x List.mem_cons_self rfl
  rw [List.idxOf_append_of_mem hy, List.idxOf_append_of_notMem hnot]
  exact Nat.lt_add_right _ (List.idxOf_lt_length_of_mem hy)

end Places

namespace Cache

variable {Tree Value Listener : Type}

/-- One unit has the other among its imports. -/
def Imports (c : Cache Tree Value Listener) (id d : UnitId) : Prop :=
  d ∈ c.dependencyIds id

/-- One unit gets to the other by its imports. -/
abbrev LeadsTo (c : Cache Tree Value Listener) : UnitId → UnitId → Prop :=
  Relation.ReflTransGen c.Imports

variable {c d : Cache Tree Value Listener}

theorem LeadsTo.mono (h : ∀ i j, c.Imports i j → d.Imports i j) {i j : UnitId}
    (hij : c.LeadsTo i j) : d.LeadsTo i j :=
  Relation.ReflTransGen.mono h i j hij

/-- In a list of units, the imports of each are before it or lead back to it. -/
def InOrder (c : Cache Tree Value Listener) (order : List UnitId) : Prop :=
  ∀ before id after, order = before ++ id :: after →
    ∀ d ∈ c.dependencyIds id, d.index < c.size → d ∈ before ∨ c.LeadsTo d id

theorem InOrder.snoc {order : List UnitId} {id : UnitId} (h : c.InOrder order)
    (last : ∀ d ∈ c.dependencyIds id, d.index < c.size → d ∈ order ∨ c.LeadsTo d id) :
    c.InOrder (order ++ [id]) :=
  forall_split_snoc h last

/-- A moment of the walk: each unit on the stack leads to those above it, and only imports
of it are ahead of it. -/
structure Climbing (c : Cache Tree Value Listener) (stack : List Frame) (order : List UnitId) :
    Prop where
  chain : stack.Pairwise fun above below => c.LeadsTo below.id above.id
  rest : ∀ f ∈ stack, ∀ d ∈ f.rest, c.Imports f.id d
  written : c.InOrder order

variable {seen order rest : List UnitId} {id next : UnitId} {below : List Frame}

theorem Climbing.leave (h : c.Climbing (⟨id, []⟩ :: below) order)
    (hw : c.Walking seen (⟨id, []⟩ :: below) order) : c.Climbing below (order ++ [id]) where
  chain := (List.pairwise_cons.mp h.chain).2
  rest := fun f hf => h.rest f (List.mem_cons_of_mem _ hf)
  written := by
    refine h.written.snoc fun d hd hlt => ?_
    -- all imports have been entered, and what is not written down is on the stack
    have hseen := (hw.ahead ⟨id, []⟩ List.mem_cons_self d hd hlt).resolve_right List.not_mem_nil
    rcases List.mem_append.mp (hw.entered.mem_iff.mpr hseen) with hs | ho
    · obtain ⟨f, hf, rfl⟩ := List.mem_map.mp hs
      rcases List.mem_cons.mp hf with rfl | hf
      · exact .inr .refl
      · exact .inr ((List.pairwise_cons.mp h.chain).1 f hf)
    · exact .inl ho

theorem Climbing.enter (h : c.Climbing (⟨id, next :: rest⟩ :: below) order) :
    c.Climbing (⟨next, c.dependencyIds next⟩ :: ⟨id, rest⟩ :: below) order where
  chain := by
    have hedge : c.Imports id next := h.rest _ List.mem_cons_self next List.mem_cons_self
    obtain ⟨htop, hbelow⟩ := List.pairwise_cons.mp h.chain
    refine List.pairwise_cons.mpr ⟨fun f hf => ?_, List.pairwise_cons.mpr ⟨htop, hbelow⟩⟩
    rcases List.mem_cons.mp hf with rfl | hf
    · exact .single hedge
    · exact (htop f hf).tail hedge
  rest := by
    intro f hf d hd
    rcases List.mem_cons.mp hf with rfl | hf
    · exact hd
    rcases List.mem_cons.mp hf with rfl | hf
    · exact h.rest _ List.mem_cons_self d (List.mem_cons_of_mem _ hd)
    · exact h.rest f (List.mem_cons_of_mem _ hf) d hd
  written := h.written

theorem Climbing.skip (h : c.Climbing (⟨id, next :: rest⟩ :: below) order) :
    c.Climbing (⟨id, rest⟩ :: below) order where
  chain := List.pairwise_cons.mpr (List.pairwise_cons.mp h.chain)
  rest := by
    intro f hf d hd
    rcases List.mem_cons.mp hf with rfl | hf
    · exact h.rest _ List.mem_cons_self d (List.mem_cons_of_mem _ hd)
    · exact h.rest f (List.mem_cons_of_mem _ hf) d hd
  written := h.written

theorem climbing_walk {stack : List Frame} (h : c.Climbing stack order)
    (hw : c.Walking seen stack order) : c.InOrder (c.walk seen stack order).order := by
  fun_induction walk c seen stack order with
  | case1 seen order => exact h.written
  | case2 seen order id below ih => exact ih (h.leave hw) hw.leave
  | case3 seen order id next rest below hn ih => exact ih h.enter (hw.enter hn.1 hn.2)
  | case4 seen order id next rest below hn ih => exact ih h.skip (hw.skip hn)

theorem inOrder_walkFrom {w : Walked} {root : UnitId} (h : c.InOrder w.order)
    (hw : c.Walking w.seen [] w.order) (hr : root.index < c.size) :
    c.InOrder (c.walkFrom w root).order := by
  simp only [walkFrom]
  split
  · exact h
  · next hm =>
    refine climbing_walk ⟨List.pairwise_singleton _ _, fun f hf d hd => ?_, h⟩ (hw.start hm hr)
    obtain rfl := List.mem_singleton.mp hf
    exact hd

theorem inOrder_foldl (roots : List UnitId) (hr : ∀ id ∈ roots, id.index < c.size) {w : Walked}
    (h : c.InOrder w.order) (hw : c.Walking w.seen [] w.order) :
    c.InOrder (roots.foldl c.walkFrom w).order := by
  induction roots generalizing w with
  | nil => exact h
  | cons root roots ih =>
    have hroot := hr root List.mem_cons_self
    exact ih (fun id hid => hr id (List.mem_cons_of_mem _ hid)) (inOrder_walkFrom h hw hroot)
      (walking_walkFrom hw hroot).1

/-- Every unit comes after its imports, except for those that lead back to it. -/
theorem inOrder_evaluationOrder (c : Cache Tree Value Listener) : c.InOrder c.evaluationOrder := by
  refine inOrder_foldl c.ids (fun id => (c.mem_ids_iff id).1) (w := ⟨[], []⟩) ?_ c.walking_start
  intro before id after he
  simp at he

end Cache

end UnitLoader
