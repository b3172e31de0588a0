import UnitLoader.Build
import UnitLoader.Proofs.Units

/-! The units that a batch is transformed in. Each visit adds parsed units only, none
twice, and whatever it has entered it also writes down. -/

namespace UnitLoader

namespace Build

variable {Tree Value Listener : Type} {c : Cache Tree Value Listener}

/-- What visiting does to the units visited before. -/
structure Visits (c : Cache Tree Value Listener) (v w : Visited) : Prop where
  seen : ∀ id ∈ v.seen, id ∈ w.seen
  order : ∀ id ∈ v.order, id ∈ w.order
  added : ∀ id ∈ w.order, id ∈ v.order ∨ id ∉ v.seen ∧ c.isIn .parsed id = true
  written : ∀ id ∈ w.seen, id ∈ v.seen ∨ id ∈ w.order
  entered : (∀ id ∈ v.order, id ∈ v.seen) → ∀ id ∈ w.order, id ∈ w.seen
  nodup : (∀ id ∈ v.order, id ∈ v.seen) → v.order.Nodup → w.order.Nodup

theorem Visits.refl (v : Visited) : Visits c v v :=
  ⟨fun _ h => h, fun _ h => h, fun _ h => .inl h, fun _ h => .inl h, fun h => h, fun _ h => h⟩

theorem Visits.trans {v w x : Visited} (h : Visits c v w) (h' : Visits c w x) : Visits c v x where
  seen := fun id hid => h'.seen id (h.seen id hid)
  order := fun id hid => h'.order id (h.order id hid)
  added := by
    intro id hid
    rcases h'.added id hid with hw | ⟨hn, hp⟩
    · exact h.added id hw
    · exact .inr ⟨fun hs => hn (h.seen id hs), hp⟩
  written := by
    intro id hid
    rcases h'.written id hid with hw | hx
    · exact (h.written id hw).imp_right (h'.order id)
    · exact .inr hx
  entered := fun hv => h'.entered (h.entered hv)
  nodup := fun hv hn => h'.nodup (h.entered hv) (h.nodup hv hn)

theorem visits_foldl {f : Visited → UnitId → Visited} (hf : ∀ v id, Visits c v (f v id))
    (ids : List UnitId) (v : Visited) : Visits c v (ids.foldl f v) := by
  induction ids generalizing v with
  | nil => exact .refl v
  | cons id ids ih => exact (hf v id).trans (ih (f v id))

/-- A unit is written down after the visits that its imports lead to, and none of
these can write it down first, because it counts as seen during them. -/
theorem Visits.finish {v inner : Visited} {id : UnitId} (hp : c.isIn .parsed id = true)
    (hn : id ∉ v.seen) (h : Visits c ⟨id :: v.seen, v.order⟩ inner) :
    Visits c v ⟨inner.seen, inner.order ++ [id]⟩ where
  seen := fun x hx => h.seen x (List.mem_cons_of_mem _ hx)
  order := fun x hx => List.mem_append_left _ (h.order x hx)
  added := by
    intro x hx
    rcases List.mem_append.mp hx with hx | hx
    · rcases h.added x hx with hx | ⟨hs, hp'⟩
      · exact .inl hx
      · exact .inr ⟨fun hv => hs (List.mem_cons_of_mem _ hv), hp'⟩
    · obtain rfl := List.mem_singleton.mp hx
      exact .inr ⟨hn, hp⟩
  written := by
    intro x hx
    rcases h.written x hx with hs | ho
    · rcases List.mem_cons.mp hs with rfl | hs
      · exact .inr (List.mem_append_right _ (List.mem_singleton.mpr rfl))
      · exact .inl hs
    · exact .inr (List.mem_append_left _ ho)
  entered := by
    intro hv x hx
    rcases List.mem_append.mp hx with hx | hx
    · exact h.entered (fun y hy => List.mem_cons_of_mem _ (hv y hy)) x hx
    · obtain rfl := List.mem_singleton.mp hx
      exact h.seen x List.mem_cons_self
  nodup := by
    intro hv hnd
    have hinner := h.nodup (fun y hy => List.mem_cons_of_mem _ (hv y hy)) hnd
    refine List.nodup_append.mpr ⟨hinner, List.nodup_singleton id, ?_⟩
    rintro x hx y hy rfl
    obtain rfl := List.mem_singleton.mp hy
    rcases h.added x hx with ho | ⟨hs, -⟩
    · exact hn (hv x ho)
    · exact hs List.mem_cons_self

theorem visits_visit (depth : Nat) (v : Visited) (id : UnitId) : Visits c v (visit c depth v id) := by
  induction depth generalizing v id with
  | zero => exact .refl v
  | succ depth ih =>
    simp only [visit]
    split
    · next h => exact (visits_foldl (fun v next => ih v next) _ _).finish h.1 h.2
    · exact .refl v

theorem mem_seen_visit {depth : Nat} {v : Visited} {id : UnitId} (hp : c.isIn .parsed id = true) :
    id ∈ (visit c (depth + 1) v id).seen := by
  simp only [visit]
  split
  · exact (visits_foldl (fun v next => visits_visit depth v next) _ _).seen id List.mem_cons_self
  · next h => exact by_contra fun hn => h ⟨hp, hn⟩

theorem mem_seen_visits {ids : List UnitId} {depth : Nat} {v : Visited} {id : UnitId}
    (hid : id ∈ ids) (hp : c.isIn .parsed id = true) :
    id ∈ (ids.foldl (visit c (depth + 1)) v).seen := by
  induction ids generalizing v with
  | nil => simp at hid
  | cons first ids ih =>
    rw [List.foldl_cons]
    rcases List.mem_cons.mp hid with rfl | hid
    · exact (visits_foldl (fun v next => visits_visit _ v next) ids _).seen id (mem_seen_visit hp)
    · exact ih hid

theorem nodup_transformOrder (c : Cache Tree Value Listener) (ids : List UnitId) :
    (transformOrder c ids).Nodup :=
  (visits_foldl (fun v id => visits_visit c.size v id) ids ⟨[], []⟩).nodup (by simp) List.nodup_nil

theorem isIn_parsed_of_mem_transformOrder {ids : List UnitId} {id : UnitId}
    (h : id ∈ transformOrder c ids) : c.isIn .parsed id = true :=
  (((visits_foldl (fun v id => visits_visit c.size v id) ids ⟨[], []⟩).added id h).resolve_left
    List.not_mem_nil).2

/-- From all units of the cache, exactly the parsed ones are transformed. -/
theorem mem_transformOrder_ids {id : UnitId} :
    id ∈ transformOrder c c.ids ↔ c.isIn .parsed id = true := by
  refine ⟨isIn_parsed_of_mem_transformOrder, fun hp => ?_⟩
  obtain ⟨u, hu, -⟩ := Cache.isIn_iff.mp hp
  have hlt := Cache.index_lt_of_get? hu
  obtain ⟨depth, hd⟩ : ∃ depth, c.size = depth + 1 := ⟨c.size - 1, by omega⟩
  have hv := visits_foldl (fun v id => visits_visit (c := c) c.size v id) c.ids ⟨[], []⟩
  refine (hv.written id ?_).resolve_left List.not_mem_nil
  rw [hd]
  exact mem_seen_visits (Cache.mem_ids_of_get? hu) hp

end Build

end UnitLoader
