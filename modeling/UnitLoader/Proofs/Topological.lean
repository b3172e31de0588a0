import UnitLoader.Proofs.Links
import UnitLoader.Proofs.Postorder

/-! The evaluation order of a cache sorts its units. Each of them is in it once, behind all
its imports but those that lead back to it; where nothing leads back to itself, it is behind
all that it leads to. -/

namespace UnitLoader

namespace Cache

variable {Tree Value Listener : Type} {c : Cache Tree Value Listener} {id d : UnitId}

instance (c : Cache Tree Value Listener) : Decidable c.Linked :=
  decidable_of_iff (∀ u ∈ c.units, ∀ d ∈ u.dependencyIds, d.index < c.size)
    ⟨fun h _ u hu => h u (List.mem_of_getElem? hu), fun h u hu => by
      obtain ⟨i, hi⟩ := List.getElem?_of_mem hu
      exact h ⟨i⟩ u hi⟩

theorem Imports.index_lt (h : c.Imports id d) : id.index < c.size := by
  by_contra hlt
  have hnone : c.get? id = none := get?_eq_none_iff.mpr (Nat.le_of_not_lt hlt)
  simp [Imports, dependencyIds, hnone] at h

theorem Linked.index_lt (linked : c.Linked) (h : c.Imports id d) : d.index < c.size := by
  obtain ⟨u, hu⟩ := get?_of_index_lt h.index_lt
  exact linked id u hu d (dependencyIds_eq hu ▸ h)

theorem perm_evaluationOrder (c : Cache Tree Value Listener) : c.evaluationOrder.Perm c.ids :=
  (List.perm_ext_iff_of_nodup c.nodup_evaluationOrder c.nodup_ids).mpr fun id =>
    (c.mem_evaluationOrder id).trans (c.mem_ids_iff id).symm

theorem idxOf_evaluationOrder_lt (linked : c.Linked) (h : c.Imports id d)
    (back : ¬ c.LeadsTo d id) : c.evaluationOrder.idxOf d < c.evaluationOrder.idxOf id :=
  idxOf_lt_of_mem_before c.nodup_evaluationOrder ((c.mem_evaluationOrder id).mpr h.index_lt)
    fun before after he =>
      (c.inOrder_evaluationOrder before id after he d h (linked.index_lt h)).resolve_right back

/-- The order in which the units of a cache are executed has each of them once. A unit comes
behind each of its imports that does not lead back to it; where no unit leads back to
itself, it comes behind all that it leads to. -/
theorem evaluationOrder_sorts (linked : c.Linked) :
    c.evaluationOrder.Perm c.ids ∧
      (∀ id d, c.Imports id d → ¬ c.LeadsTo d id →
        c.evaluationOrder.idxOf d < c.evaluationOrder.idxOf id) ∧
      ((∀ id, ¬ Relation.TransGen c.Imports id id) → ∀ id d, Relation.TransGen c.Imports id d →
        c.evaluationOrder.idxOf d < c.evaluationOrder.idxOf id) := by
  refine ⟨c.perm_evaluationOrder, fun id d h back => idxOf_evaluationOrder_lt linked h back,
    fun acyclic id d hleads => ?_⟩
  have hstep {i j : UnitId} (h : c.Imports i j) :
      c.evaluationOrder.idxOf j < c.evaluationOrder.idxOf i :=
    idxOf_evaluationOrder_lt linked h fun back => acyclic i (.head' h back)
  induction hleads with
  | single h => exact hstep h
  | tail _ h ih => exact Nat.lt_trans (hstep h) ih

/-- Two units that import each other, the first of them one unit twice and the second itself
too, and two more that lead to neither of them. -/
def circle : Cache Unit Unit Unit where
  units :=
    [{ SourceUnit.new "/a" .module .load with dependencies := some [⟨1⟩, ⟨1⟩] },
      { SourceUnit.new "/b" .module .load with dependencies := some [⟨0⟩, ⟨1⟩, ⟨3⟩] },
      SourceUnit.new "/c" .module .load,
      { SourceUnit.new "/d" .module .load with dependencies := some [⟨2⟩] }]
  hits := 0

/-- A unit with two imports that import the same unit. -/
def diamond : Cache Unit Unit Unit where
  units :=
    [{ SourceUnit.new "/a" .script .load with dependencies := some [⟨1⟩, ⟨2⟩] },
      { SourceUnit.new "/b" .module .load with dependencies := some [⟨3⟩] },
      { SourceUnit.new "/c" .module .load with dependencies := some [⟨3⟩] },
      SourceUnit.new "/d" .module .load]
  hits := 0

theorem evaluationOrder_sorts_circle :
    (circle.Linked ∧ circle.LeadsTo ⟨0⟩ ⟨1⟩ ∧ circle.LeadsTo ⟨1⟩ ⟨0⟩ ∧
      circle.evaluationOrder.Perm [⟨0⟩, ⟨1⟩, ⟨2⟩, ⟨3⟩] ∧
      circle.evaluationOrder.idxOf ⟨3⟩ < circle.evaluationOrder.idxOf ⟨1⟩) ∧
    diamond.Linked ∧ diamond.evaluationOrder.idxOf ⟨3⟩ < diamond.evaluationOrder.idxOf ⟨0⟩ := by
  have linked : circle.Linked := by decide
  have hcircle (i j : UnitId) (h : j ∈ circle.dependencyIds i) : circle.Imports i j := h
  have hdiamond (i j : UnitId) (h : j ∈ diamond.dependencyIds i) : diamond.Imports i j := h
  obtain ⟨hperm, hsorts, -⟩ := evaluationOrder_sorts linked
  refine ⟨⟨linked, .single (hcircle _ _ (by decide)), .single (hcircle _ _ (by decide)), hperm,
    hsorts ⟨1⟩ ⟨3⟩ (hcircle _ _ (by decide)) fun back => ?_⟩, by decide, ?_⟩
  · -- from the last unit there is one way, and it ends at once
    obtain h | ⟨j, hj, hback⟩ := back.cases_head
    · cases h
    obtain rfl : j = ⟨2⟩ := List.mem_singleton.mp hj
    obtain h | ⟨k, hk, -⟩ := hback.cases_head <;> contradiction
  · refine (evaluationOrder_sorts (c := diamond) (by decide)).2.2 (fun id hid => ?_) ⟨0⟩ ⟨3⟩
      (.tail (.single (hdiamond ⟨0⟩ ⟨1⟩ (by decide))) (hdiamond ⟨1⟩ ⟨3⟩ (by decide)))
    -- imports have greater numbers
    have hgreater {i j : UnitId} (h : Relation.TransGen diamond.Imports i j) :
        i.index < j.index := by
      have hedge {i j : UnitId} (h : diamond.Imports i j) : i.index < j.index := by
        have hall : ∀ i ∈ diamond.ids, ∀ j ∈ diamond.dependencyIds i, i.index < j.index := by
          decide
        exact hall i ((diamond.mem_ids_iff i).mpr h.index_lt) j h
      induction h with
      | single h => exact hedge h
      | tail _ h ih => exact Nat.lt_trans ih (hedge h)
    exact Nat.lt_irrefl _ (hgreater hid)

end Cache

end UnitLoader
