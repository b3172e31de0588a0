import Mathlib.Data.List.Dedup
import Mathlib.Data.List.Forall2
import UnitLoader.Proofs.Discovery

/-! Importing from the same specifiers in another order, or more than once. Specifiers are
sorted before they are looked up, and looking one up again finds what is there, so that the same
units are found in the same order. -/

namespace UnitLoader

variable {Tree Value Listener : Type}

/-! ### Specifiers in order -/

theorem pairwise_mergeSort (specifiers : List String) :
    (specifiers.mergeSort (· ≤ ·)).Pairwise (· ≤ ·) := by
  have htrans : ∀ a b c : String, decide (a ≤ b) = true → decide (b ≤ c) = true →
      decide (a ≤ c) = true := by
    intro a b c hab hbc
    exact decide_eq_true (String.le_trans (of_decide_eq_true hab) (of_decide_eq_true hbc))
  have htotal : ∀ a b : String, (decide (a ≤ b) || decide (b ≤ a)) = true := by
    intro a b
    simpa using String.le_total a b
  exact (List.pairwise_mergeSort htrans htotal specifiers).imp of_decide_eq_true

theorem dedup_mergeSort_congr {specifiers specifiers' : List String}
    (same : ∀ x, x ∈ specifiers ↔ x ∈ specifiers') :
    (specifiers.mergeSort (· ≤ ·)).dedup = (specifiers'.mergeSort (· ≤ ·)).dedup := by
  have hsorted (l : List String) : (l.mergeSort (· ≤ ·)).dedup.Pairwise (· ≤ ·) :=
    (pairwise_mergeSort l).sublist (List.dedup_sublist _)
  refine List.Perm.eq_of_pairwise (fun _ _ _ _ => String.le_antisymm) (hsorted specifiers)
    (hsorted specifiers') ?_
  rw [List.perm_ext_iff_of_nodup (List.nodup_dedup _) (List.nodup_dedup _)]
  intro x
  rw [List.mem_dedup, List.mem_dedup, List.mem_mergeSort, List.mem_mergeSort, same]

/-! ### Units found alike -/

/-- A relation between units which looking them up cannot tell apart. -/
structure SourceUnit.Likens
    (U : SourceUnit Tree Value Listener → SourceUnit Tree Value Listener → Prop) : Prop where
  isAt : ∀ u v, U u v → ∀ address kind, Cache.isAt address kind u = Cache.isAt address kind v
  new : ∀ address kind, U (.new address kind .load) (.new address kind .load)

theorem SourceUnit.likens_eq :
    Likens (Eq : SourceUnit Tree Value Listener → SourceUnit Tree Value Listener → Prop) where
  isAt := fun _ _ h _ _ => by rw [h]
  new := fun _ _ => rfl

variable {U : SourceUnit Tree Value Listener → SourceUnit Tree Value Listener → Prop}

namespace Cache

variable {c d : Cache Tree Value Listener}

theorem lookup_rel (likens : SourceUnit.Likens U) (h : List.Forall₂ U c.units d.units)
    (address : String) (kind : Kind) : c.lookup address kind = d.lookup address kind := by
  have hfind {us vs : List (SourceUnit Tree Value Listener)} (h : List.Forall₂ U us vs) :
      us.findIdx? (isAt address kind) = vs.findIdx? (isAt address kind) := by
    induction h with
    | nil => rfl
    | cons hu _ ih => rw [List.findIdx?_cons, List.findIdx?_cons, likens.isAt _ _ hu, ih]
  rw [lookup, lookup, hfind h]

theorem getOrInsert_rel (likens : SourceUnit.Likens U) (h : List.Forall₂ U c.units d.units)
    (address : String) (kind : Kind) :
    (c.getOrInsert address kind).id = (d.getOrInsert address kind).id ∧
      List.Forall₂ U (c.getOrInsert address kind).cache.units
        (d.getOrInsert address kind).cache.units := by
  simp only [getOrInsert, lookup_rel likens h address kind]
  cases d.lookup address kind with
  | some id => exact ⟨rfl, h⟩
  | none =>
    have hsize : c.size = d.size := h.length_eq
    exact ⟨by rw [hsize], List.rel_append h (.cons (likens.new address kind) .nil)⟩

end Cache

namespace Session

variable {b b' : Build Tree Value Listener}

/-- The same specifiers lead to corresponding units. -/
theorem importUnits_rel (likens : SourceUnit.Likens U)
    (resolver : b'.project.resolver = b.project.resolver) (referrer : String)
    (specifiers : List String) (ids : List UnitId)
    (h : List.Forall₂ U b.cache.units b'.cache.units) :
    (importUnits referrer specifiers ids b).1 = (importUnits referrer specifiers ids b').1 ∧
      List.Forall₂ U (importUnits referrer specifiers ids b).2.cache.units
        (importUnits referrer specifiers ids b').2.cache.units := by
  induction specifiers generalizing ids b b' with
  | nil => exact ⟨rfl, h⟩
  | cons specifier rest ih =>
    have hresolve : b'.project.resolve specifier referrer = b.project.resolve specifier referrer := by
      rw [Project.resolve, resolver, Project.resolve]
    obtain ⟨hid, hunits⟩ := Cache.getOrInsert_rel likens h
      (b.project.resolve specifier referrer) .module
    simp only [importUnits, hresolve, hid]
    refine ih ?_ _ ?_
    · exact resolver
    · exact hunits

theorem importUnits_congr (resolver : b'.project.resolver = b.project.resolver)
    (units : b.cache.units = b'.cache.units) (referrer : String) (specifiers : List String)
    (ids : List UnitId) :
    (importUnits referrer specifiers ids b).1 = (importUnits referrer specifiers ids b').1 ∧
      (importUnits referrer specifiers ids b).2.cache.units =
        (importUnits referrer specifiers ids b').2.cache.units := by
  obtain ⟨hids, hunits⟩ := importUnits_rel SourceUnit.likens_eq resolver referrer specifiers ids
    (List.forall₂_eq_eq_eq ▸ units)
  exact ⟨hids, List.forall₂_eq_eq_eq ▸ hunits⟩

/-- Looking a specifier up once more changes nothing. -/
theorem importUnits_again (referrer specifier : String) (rest : List String) (ids : List UnitId)
    (b : Build Tree Value Listener) :
    (importUnits referrer (specifier :: specifier :: rest) ids b).1 =
        (importUnits referrer (specifier :: rest) ids b).1 ∧
      (importUnits referrer (specifier :: specifier :: rest) ids b).2.cache.units =
        (importUnits referrer (specifier :: rest) ids b).2.cache.units := by
  have hfound := b.cache.lookup_getOrInsert (b.project.resolve specifier referrer) .module
  simp only [importUnits]
  generalize b.cache.getOrInsert (b.project.resolve specifier referrer) .module = found at hfound ⊢
  have hids : found.id ∈ if found.id ∈ ids then ids else ids ++ [found.id] := by
    split
    · assumption
    · exact List.mem_append_right _ List.mem_cons_self
  simp only [Cache.getOrInsert, hfound, if_pos hids]
  refine importUnits_congr ?_ ?_ referrer rest _
  · rfl
  · rfl

theorem importUnits_dedup {specifiers : List String} (sorted : specifiers.Pairwise (· ≤ ·))
    (referrer : String) (ids : List UnitId) (b : Build Tree Value Listener) :
    (importUnits referrer specifiers ids b).1 = (importUnits referrer specifiers.dedup ids b).1 ∧
      (importUnits referrer specifiers ids b).2.cache.units =
        (importUnits referrer specifiers.dedup ids b).2.cache.units := by
  induction specifiers generalizing ids b with
  | nil => exact ⟨rfl, rfl⟩
  | cons specifier rest ih =>
    obtain ⟨hle, hrest⟩ := List.pairwise_cons.mp sorted
    by_cases hagain : specifier ∈ rest
    · cases rest with
      | nil => cases hagain
      | cons next rest =>
        -- Among sorted specifiers the same ones stand next to each other.
        have hnext : next = specifier := by
          refine String.le_antisymm ?_ (hle next List.mem_cons_self)
          rcases List.mem_cons.mp hagain with rfl | hmem
          · exact String.le_refl _
          · exact (List.pairwise_cons.mp hrest).1 specifier hmem
        subst hnext
        obtain ⟨hids, hunits⟩ := importUnits_again referrer next rest ids b
        rw [List.dedup_cons_of_mem hagain, hids, hunits]
        exact ih hrest ids b
    · rw [List.dedup_cons_of_notMem hagain]
      exact ih hrest _ _

/-- Specifiers that are the same but for their order and repetitions lead to corresponding
units. -/
theorem importUnits_sorted (likens : SourceUnit.Likens U)
    (resolver : b'.project.resolver = b.project.resolver) (referrer : String)
    {specifiers specifiers' : List String} (same : ∀ x, x ∈ specifiers ↔ x ∈ specifiers')
    (ids : List UnitId) (h : List.Forall₂ U b.cache.units b'.cache.units) :
    (importUnits referrer (specifiers.mergeSort (· ≤ ·)) ids b).1 =
        (importUnits referrer (specifiers'.mergeSort (· ≤ ·)) ids b').1 ∧
      List.Forall₂ U (importUnits referrer (specifiers.mergeSort (· ≤ ·)) ids b).2.cache.units
        (importUnits referrer (specifiers'.mergeSort (· ≤ ·)) ids b').2.cache.units := by
  obtain ⟨hids, hunits⟩ :=
    importUnits_dedup (pairwise_mergeSort specifiers) referrer ids b
  obtain ⟨hids', hunits'⟩ :=
    importUnits_dedup (pairwise_mergeSort specifiers') referrer ids b'
  rw [hids, hunits, hids', hunits', dedup_mergeSort_congr same]
  exact importUnits_rel likens resolver referrer _ ids h

end Session

end UnitLoader
