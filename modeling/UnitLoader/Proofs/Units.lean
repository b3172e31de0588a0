import Mathlib.Data.List.Nodup
import UnitLoader.EvaluationOrder

/-! Looking units up in a cache that was changed. A change concerns one unit, and a
new unit gets the next number, so every other number leads where it led before. -/

namespace UnitLoader

theorem UnitId.ext_iff {i j : UnitId} : i = j ↔ i.index = j.index := by
  cases i; cases j; simp

namespace Cache

variable {Tree Value Listener : Type}

theorem get?_eq_none_iff {c : Cache Tree Value Listener} {id : UnitId} :
    c.get? id = none ↔ c.size ≤ id.index := by
  simp [get?, size]

theorem index_lt_of_get? {c : Cache Tree Value Listener} {id : UnitId}
    {u : SourceUnit Tree Value Listener} (h : c.get? id = some u) : id.index < c.size :=
  (List.getElem?_eq_some_iff.mp h).1

theorem get?_of_index_lt {c : Cache Tree Value Listener} {id : UnitId} (h : id.index < c.size) :
    ∃ u, c.get? id = some u :=
  ⟨c.units.get ⟨id.index, h⟩, List.getElem?_eq_getElem h⟩

theorem ext_get? {c d : Cache Tree Value Listener} (hits : c.hits = d.hits)
    (units : ∀ id, c.get? id = d.get? id) : c = d := by
  obtain ⟨us, n⟩ := c
  obtain ⟨vs, m⟩ := d
  have he : us = vs := List.ext_getElem? fun i => units ⟨i⟩
  simp only at hits
  rw [he, hits]

theorem nodup_ids (c : Cache Tree Value Listener) : c.ids.Nodup :=
  List.Nodup.map (fun i j h => by simpa using h) List.nodup_range

theorem ids_eq_of_size_eq {c d : Cache Tree Value Listener} (h : c.size = d.size) :
    c.ids = d.ids := by
  simp [ids, h]

theorem mem_ids_of_get? {c : Cache Tree Value Listener} {id : UnitId}
    {u : SourceUnit Tree Value Listener} (h : c.get? id = some u) : id ∈ c.ids :=
  (c.mem_ids_iff id).2 (index_lt_of_get? h)

theorem isIn_iff {c : Cache Tree Value Listener} {state : State} {id : UnitId} :
    c.isIn state id = true ↔ ∃ u, c.get? id = some u ∧ u.state = state := by
  simp [isIn, state?]

theorem isIn_eq {c : Cache Tree Value Listener} {state : State} {id : UnitId}
    {u : SourceUnit Tree Value Listener} (h : c.get? id = some u) :
    c.isIn state id = decide (u.state = state) := by
  simp [isIn, state?, h]

theorem isIn_eq_false_of_settled {c : Cache Tree Value Listener} {id : UnitId} {state : State}
    (unsettled : state.isSettled = false)
    (settled : ∀ u, c.get? id = some u → u.state.isSettled = true) : c.isIn state id = false := by
  refine Bool.eq_false_iff.mpr fun hn => ?_
  obtain ⟨u, hu, rfl⟩ := isIn_iff.mp hn
  cases (settled u hu).symm.trans unsettled

theorem addressOf_eq {c : Cache Tree Value Listener} {id : UnitId}
    {u : SourceUnit Tree Value Listener} (h : c.get? id = some u) : c.addressOf id = u.address := by
  simp [addressOf, h]

theorem dependencyIds_eq {c : Cache Tree Value Listener} {id : UnitId}
    {u : SourceUnit Tree Value Listener} (h : c.get? id = some u) :
    c.dependencyIds id = u.dependencyIds := by
  simp [dependencyIds, h]

theorem areAll_iff {c : Cache Tree Value Listener} {p : State → Bool} :
    c.areAll p = true ↔ ∀ id u, c.get? id = some u → p u.state = true := by
  simp only [areAll, List.all_eq_true]
  constructor
  · intro h id u hu
    exact h u (List.mem_of_getElem? hu)
  · intro h u hu
    obtain ⟨i, hi⟩ := List.getElem?_of_mem hu
    exact h ⟨i⟩ u hi

theorem hasAny_iff {c : Cache Tree Value Listener} {p : State → Bool} :
    c.hasAny p = true ↔ ∃ id u, c.get? id = some u ∧ p u.state = true := by
  simp only [hasAny, List.any_eq_true]
  constructor
  · rintro ⟨u, hu, hp⟩
    obtain ⟨i, hi⟩ := List.getElem?_of_mem hu
    exact ⟨⟨i⟩, u, hi, hp⟩
  · rintro ⟨id, u, hu, hp⟩
    exact ⟨u, List.mem_of_getElem? hu, hp⟩

theorem get?_modify (c : Cache Tree Value Listener) (id j : UnitId)
    (f : SourceUnit Tree Value Listener → SourceUnit Tree Value Listener) :
    (c.modify id f).get? j = if id = j then (c.get? j).map f else c.get? j := by
  simp only [get?, modify, List.getElem?_modify, UnitId.ext_iff]
  split <;> simp

theorem get?_modify_of_ne {c : Cache Tree Value Listener} {id j : UnitId}
    {f : SourceUnit Tree Value Listener → SourceUnit Tree Value Listener} (h : id ≠ j) :
    (c.modify id f).get? j = c.get? j := by
  simp [get?_modify, h]

@[simp] theorem size_modify (c : Cache Tree Value Listener) (id : UnitId)
    (f : SourceUnit Tree Value Listener → SourceUnit Tree Value Listener) :
    (c.modify id f).size = c.size := by
  simp [size, modify]

@[simp] theorem hits_modify (c : Cache Tree Value Listener) (id : UnitId)
    (f : SourceUnit Tree Value Listener → SourceUnit Tree Value Listener) :
    (c.modify id f).hits = c.hits := rfl

theorem modify_congr {c : Cache Tree Value Listener} {id : UnitId}
    {f g : SourceUnit Tree Value Listener → SourceUnit Tree Value Listener}
    (h : ∀ u, c.get? id = some u → f u = g u) : c.modify id f = c.modify id g := by
  refine ext_get? rfl fun j => ?_
  rw [get?_modify, get?_modify]
  split
  · next hj =>
    subst hj
    cases hu : c.get? id with
    | none => rfl
    | some u => simp [h u hu]
  · rfl

theorem modify_eq_self {c : Cache Tree Value Listener} {id : UnitId}
    {f : SourceUnit Tree Value Listener → SourceUnit Tree Value Listener}
    (h : ∀ u, c.get? id = some u → f u = u) : c.modify id f = c := by
  refine ext_get? rfl fun j => ?_
  rw [get?_modify]
  split
  · next hj =>
    subst hj
    cases hu : c.get? id with
    | none => rfl
    | some u => simp [h u hu]
  · rfl

theorem modify_modify (c : Cache Tree Value Listener) (id : UnitId)
    (f g : SourceUnit Tree Value Listener → SourceUnit Tree Value Listener) :
    (c.modify id f).modify id g = c.modify id fun u => g (f u) := by
  refine ext_get? rfl fun j => ?_
  simp only [get?_modify]
  split
  · cases c.get? j <;> rfl
  · rfl

theorem get?_foldl_modify {f : SourceUnit Tree Value Listener → SourceUnit Tree Value Listener}
    {ids : List UnitId} (hn : ids.Nodup) (c : Cache Tree Value Listener) (j : UnitId) :
    (ids.foldl (fun c id => c.modify id f) c).get? j =
      if j ∈ ids then (c.get? j).map f else c.get? j := by
  induction ids generalizing c with
  | nil => simp
  | cons id ids ih =>
    have hid := (List.nodup_cons.mp hn).1
    rw [List.foldl_cons, ih (List.nodup_cons.mp hn).2, get?_modify]
    by_cases hj : id = j
    · subst hj
      simp [hid]
    · have hne : j ≠ id := fun h => hj h.symm
      simp [hj, hne]

@[simp] theorem size_foldl_modify
    (f : SourceUnit Tree Value Listener → SourceUnit Tree Value Listener) (ids : List UnitId)
    (c : Cache Tree Value Listener) : (ids.foldl (fun c id => c.modify id f) c).size = c.size := by
  induction ids generalizing c with
  | nil => rfl
  | cons id ids ih => rw [List.foldl_cons, ih, size_modify]

theorem get?_push (c : Cache Tree Value Listener) (u : SourceUnit Tree Value Listener)
    (j : UnitId) :
    (c.push u).get? j = if j.index = c.size then some u else c.get? j := by
  by_cases h : j.index = c.size
  · rw [if_pos h]
    simp only [get?, push, h, size, List.getElem?_concat_length]
  · rw [if_neg h]
    simp only [get?, push, size, List.getElem?_append] at h ⊢
    split
    · rfl
    · rw [List.getElem?_eq_none (l := c.units) (by omega),
        List.getElem?_eq_none (by simp only [List.length_singleton]; omega)]

theorem get?_push_of_get? {c : Cache Tree Value Listener} {j : UnitId}
    {u v : SourceUnit Tree Value Listener} (h : c.get? j = some u) :
    (c.push v).get? j = some u := by
  have := index_lt_of_get? h
  rw [get?_push, if_neg (by omega), h]

@[simp] theorem size_push (c : Cache Tree Value Listener) (u : SourceUnit Tree Value Listener) :
    (c.push u).size = c.size + 1 := by
  simp [size, push]

theorem lookup_eq_some {c : Cache Tree Value Listener} {address : String} {kind : Kind}
    {id : UnitId} (h : c.lookup address kind = some id) :
    ∃ u, c.get? id = some u ∧ u.origin = .load ∧ u.address = address ∧ u.kind = kind := by
  obtain ⟨i, hi, rfl⟩ := Option.map_eq_some_iff.mp h
  obtain ⟨hlt, hat, -⟩ := List.findIdx?_eq_some_iff_getElem.mp hi
  simp only [isAt, Bool.and_eq_true, decide_eq_true_eq] at hat
  exact ⟨c.units[i], List.getElem?_eq_getElem hlt, hat.1.1, hat.1.2, hat.2⟩

/-- Asking for a unit finds it, or adds it as one that was not started. -/
theorem getOrInsert_cases (c : Cache Tree Value Listener) (address : String) (kind : Kind) :
    (∃ u, c.get? (c.getOrInsert address kind).id = some u ∧ u.origin = .load ∧
        u.address = address ∧ u.kind = kind ∧
        (c.getOrInsert address kind).cache.units = c.units) ∨
      (c.lookup address kind = none ∧ (c.getOrInsert address kind).id = ⟨c.size⟩ ∧
        (c.getOrInsert address kind).cache = c.push (.new address kind .load)) := by
  simp only [getOrInsert]
  cases h : c.lookup address kind with
  | none => exact .inr ⟨rfl, rfl, rfl⟩
  | some id =>
    obtain ⟨u, hu, ho, ha, hk⟩ := lookup_eq_some h
    exact .inl ⟨u, hu, ho, ha, hk, rfl⟩

end Cache

end UnitLoader
