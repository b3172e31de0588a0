import UnitLoader.Proofs.ExecutionOrder

/-! Two caches walked in step. Where the units of one correspond to those of the other,
with what they import, the walks enter and leave corresponding units at the same time.
Units that older ones lead to are entered before it is their turn as roots, so the order
of their numbers makes no difference. -/

namespace UnitLoader

namespace Cache

variable {Tree Value Listener : Type}

/-- Units of two caches that correspond one to one, as do their imports. -/
structure Matching (R : UnitId → UnitId → Prop) (c d : Cache Tree Value Listener) : Prop where
  left : ∀ i j, R i j → i.index < c.size
  right : ∀ i j, R i j → j.index < d.size
  unique : ∀ i j i' j', R i j → R i' j' → (i = i' ↔ j = j')
  dependencies : ∀ i j, R i j → List.Forall₂ R (c.dependencyIds i) (d.dependencyIds j)

def FramesMatch (R : UnitId → UnitId → Prop) : List Frame → List Frame → Prop :=
  List.Forall₂ fun f g => R f.id g.id ∧ List.Forall₂ R f.rest g.rest

variable {R : UnitId → UnitId → Prop} {c d : Cache Tree Value Listener}

theorem Matching.mem_iff (m : Matching R c d) {is js : List UnitId} (h : List.Forall₂ R is js)
    {i j : UnitId} (hij : R i j) : i ∈ is ↔ j ∈ js := by
  induction h with
  | nil => simp
  | cons hab _ ih => rw [List.mem_cons, List.mem_cons, m.unique _ _ _ _ hij hab, ih]

theorem Matching.walk (m : Matching R c d) {seen order seen' order' : List UnitId}
    {stack stack' : List Frame} (hseen : List.Forall₂ R seen seen')
    (hstack : FramesMatch R stack stack') (horder : List.Forall₂ R order order') :
    List.Forall₂ R (c.walk seen stack order).seen (d.walk seen' stack' order').seen ∧
      List.Forall₂ R (c.walk seen stack order).order (d.walk seen' stack' order').order := by
  fun_induction Cache.walk c seen stack order generalizing seen' stack' order' with
  | case1 seen order =>
    cases hstack
    rw [Cache.walk]
    exact ⟨hseen, horder⟩
  | case2 seen order id below ih =>
    cases hstack with
    | @cons _ g _ below' hframe hbelow =>
      obtain ⟨id', rest'⟩ := g
      obtain ⟨hid, hrest⟩ := hframe
      cases hrest
      rw [Cache.walk]
      exact ih hseen hbelow (List.rel_append horder (.cons hid .nil))
  | case3 seen order id next rest below hn ih =>
    cases hstack with
    | @cons _ g _ below' hframe hbelow =>
      obtain ⟨id', rest'⟩ := g
      obtain ⟨hid, hrest⟩ := hframe
      cases hrest with
      | @cons _ next' _ rest' hnext hrest =>
        have hnew : next'.index < d.size ∧ next' ∉ seen' :=
          ⟨m.right _ _ hnext, fun hm => hn.2 ((m.mem_iff hseen hnext).mpr hm)⟩
        rw [Cache.walk, dif_pos hnew]
        exact ih (.cons hnext hseen)
          (.cons ⟨hnext, m.dependencies _ _ hnext⟩ (.cons ⟨hid, hrest⟩ hbelow)) horder
  | case4 seen order id next rest below hn ih =>
    cases hstack with
    | @cons _ g _ below' hframe hbelow =>
      obtain ⟨id', rest'⟩ := g
      obtain ⟨hid, hrest⟩ := hframe
      cases hrest with
      | @cons _ next' _ rest' hnext hrest =>
        have hold : ¬ (next'.index < d.size ∧ next' ∉ seen') := fun hnew =>
          hn ⟨m.left _ _ hnext, fun hm => hnew.2 ((m.mem_iff hseen hnext).mp hm)⟩
        rw [Cache.walk, dif_neg hold]
        exact ih hseen (.cons ⟨hid, hrest⟩ hbelow) horder

theorem Matching.walkFrom (m : Matching R c d) {w w' : Walked}
    (hseen : List.Forall₂ R w.seen w'.seen) (horder : List.Forall₂ R w.order w'.order)
    {root root' : UnitId} (hroot : R root root') :
    List.Forall₂ R (c.walkFrom w root).seen (d.walkFrom w' root').seen ∧
      List.Forall₂ R (c.walkFrom w root).order (d.walkFrom w' root').order := by
  simp only [Cache.walkFrom]
  by_cases hm : root ∈ w.seen
  · rw [if_pos hm, if_pos ((m.mem_iff hseen hroot).mp hm)]
    exact ⟨hseen, horder⟩
  · rw [if_neg hm, if_neg fun hm' => hm ((m.mem_iff hseen hroot).mpr hm')]
    exact m.walk (.cons hroot hseen) (.cons ⟨hroot, m.dependencies _ _ hroot⟩ .nil) horder

theorem Matching.foldl (m : Matching R c d) {roots roots' : List UnitId}
    (hroots : List.Forall₂ R roots roots') {w w' : Walked}
    (hseen : List.Forall₂ R w.seen w'.seen) (horder : List.Forall₂ R w.order w'.order) :
    List.Forall₂ R (roots.foldl c.walkFrom w).order (roots'.foldl d.walkFrom w').order := by
  induction hroots generalizing w w' with
  | nil => exact horder
  | cons hroot _ ih =>
    obtain ⟨hseen', horder'⟩ := m.walkFrom hseen horder hroot
    exact ih hseen' horder'

/-! ### Roots that are reached before their turn -/

def firstIds (n : Nat) : List UnitId :=
  (List.range n).map UnitId.mk

theorem mem_firstIds {n : Nat} {id : UnitId} : id ∈ firstIds n ↔ id.index < n := by
  obtain ⟨i⟩ := id
  simp [firstIds]

/-- Every unit but the first ones is imported by one before it. -/
def LedTo (c : Cache Tree Value Listener) (n : Nat) : Prop :=
  ∀ id, n ≤ id.index → id.index < c.size → ∃ p, p.index < id.index ∧ id ∈ c.dependencyIds p

theorem seen_of_ledTo {n : Nat} (h : c.LedTo n) {w : Walked} (hw : c.Walking w.seen [] w.order)
    (hfirst : ∀ id ∈ firstIds n, id ∈ w.seen) {id : UnitId} (hid : id.index < c.size) :
    id ∈ w.seen := by
  obtain ⟨i⟩ := id
  -- The walk leaves no unit without having entered what it imports.
  induction i using Nat.strongRecOn with
  | _ i ih =>
    by_cases hi : i < n
    · exact hfirst ⟨i⟩ (mem_firstIds.mpr hi)
    · obtain ⟨p, hp, hd⟩ := h ⟨i⟩ (Nat.le_of_not_lt hi) hid
      have hseen : p ∈ w.seen := ih p.index hp (Nat.lt_trans hp hid)
      have horder : p ∈ w.order := hw.entered.mem_iff.mpr hseen
      exact hw.behind p horder ⟨i⟩ hd hid

theorem walkFrom_foldl_of_seen {roots : List UnitId} {w : Walked} (h : ∀ id ∈ roots, id ∈ w.seen) :
    roots.foldl c.walkFrom w = w := by
  induction roots with
  | nil => rfl
  | cons root roots ih =>
    have hroot : c.walkFrom w root = w := if_pos (h root List.mem_cons_self)
    rw [List.foldl_cons, hroot]
    exact ih fun id hid => h id (List.mem_cons_of_mem _ hid)

def laterIds (c : Cache Tree Value Listener) (n : Nat) : List UnitId :=
  (List.range' n (c.size - n)).map UnitId.mk

theorem mem_laterIds {n : Nat} (hn : n ≤ c.size) {id : UnitId} :
    id ∈ c.laterIds n ↔ n ≤ id.index ∧ id.index < c.size := by
  obtain ⟨i⟩ := id
  simp only [laterIds, List.mem_map, List.mem_range'_1, UnitId.mk.injEq, exists_eq_right]
  omega

theorem nodup_laterIds (c : Cache Tree Value Listener) (n : Nat) : (c.laterIds n).Nodup :=
  List.Nodup.map (fun i j h => by simpa using h) List.nodup_range'

theorem ids_eq_append {n : Nat} (hn : n ≤ c.size) : c.ids = firstIds n ++ c.laterIds n := by
  have hrange : List.range c.size = List.range n ++ List.range' n (c.size - n) := by
    have happend := List.range'_append_1 (s := 0) (m := n) (n := c.size - n)
    rw [Nat.zero_add, Nat.add_sub_cancel' hn] at happend
    rw [List.range_eq_range', List.range_eq_range', happend]
  rw [ids, hrange, List.map_append, firstIds, laterIds]

/-- The walk is over when it has been through the first units. -/
theorem evaluationOrder_of_ledTo {n : Nat} (hn : n ≤ c.size) (h : c.LedTo n) :
    c.evaluationOrder = ((firstIds n).foldl c.walkFrom ⟨[], []⟩).order := by
  obtain ⟨hw, -, hfirst⟩ := walking_foldl (w := ⟨[], []⟩) (firstIds n)
    (fun id hid => Nat.lt_of_lt_of_le (mem_firstIds.mp hid) hn) c.walking_start
  rw [evaluationOrder, ids_eq_append hn, List.foldl_append, walkFrom_foldl_of_seen]
  intro id hid
  exact seen_of_ledTo h hw hfirst ((mem_laterIds hn).mp hid).2

/-- Corresponding units are executed in the same order. -/
theorem Matching.evaluationOrder (m : Matching R c d) {n : Nat} (first : ∀ id, id.index < n → R id id)
    (hc : c.LedTo n) (hd : d.LedTo n) (hn : n ≤ c.size) (hn' : n ≤ d.size) :
    List.Forall₂ R c.evaluationOrder d.evaluationOrder := by
  rw [evaluationOrder_of_ledTo hn hc, evaluationOrder_of_ledTo hn' hd]
  refine m.foldl ?_ .nil .nil
  rw [List.forall₂_same]
  exact fun id hid => first id (mem_firstIds.mp hid)

end Cache

end UnitLoader
