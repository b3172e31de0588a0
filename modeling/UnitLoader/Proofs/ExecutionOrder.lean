import UnitLoader.Proofs.Units

/-! The depth-first walk writes down every unit of the cache, and each one once. When
it has come to an end, the units that it has entered lead to no others. -/

namespace UnitLoader

namespace Cache

variable {Tree Value Listener : Type}

/-- A moment of the walk: the units entered are those on the stack and those written
down, and the imports of each have been entered or are still ahead. -/
structure Walking (c : Cache Tree Value Listener) (seen : List UnitId) (stack : List Frame)
    (order : List UnitId) : Prop where
  entered : (stack.map Frame.id ++ order).Perm seen
  nodup : seen.Nodup
  inside : ∀ id ∈ seen, id.index < c.size
  behind : ∀ id ∈ order, ∀ d ∈ c.dependencyIds id, d.index < c.size → d ∈ seen
  ahead : ∀ f ∈ stack, ∀ d ∈ c.dependencyIds f.id, d.index < c.size → d ∈ seen ∨ d ∈ f.rest

variable {c : Cache Tree Value Listener}

theorem Walking.leave {seen order : List UnitId} {id : UnitId} {below : List Frame}
    (h : c.Walking seen (⟨id, []⟩ :: below) order) : c.Walking seen below (order ++ [id]) where
  entered := by
    have hp : (below.map Frame.id ++ (order ++ [id])).Perm (id :: (below.map Frame.id ++ order)) := by
      rw [← List.append_assoc]
      exact List.perm_append_singleton _ _
    exact hp.trans h.entered
  nodup := h.nodup
  inside := h.inside
  behind := by
    intro x hx d hd hlt
    rcases List.mem_append.mp hx with hx | hx
    · exact h.behind x hx d hd hlt
    · obtain rfl := List.mem_singleton.mp hx
      exact (h.ahead ⟨x, []⟩ List.mem_cons_self d hd hlt).resolve_right List.not_mem_nil
  ahead := fun f hf => h.ahead f (List.mem_cons_of_mem _ hf)

theorem Walking.enter {seen order rest : List UnitId} {id next : UnitId} {below : List Frame}
    (h : c.Walking seen (⟨id, next :: rest⟩ :: below) order) (hlt : next.index < c.size)
    (hnew : next ∉ seen) :
    c.Walking (next :: seen) (⟨next, c.dependencyIds next⟩ :: ⟨id, rest⟩ :: below) order where
  entered := h.entered.cons next
  nodup := List.nodup_cons.mpr ⟨hnew, h.nodup⟩
  inside := by
    intro x hx
    rcases List.mem_cons.mp hx with rfl | hx
    · exact hlt
    · exact h.inside x hx
  behind := fun x hx d hd hd' => List.mem_cons_of_mem _ (h.behind x hx d hd hd')
  ahead := by
    intro f hf d hd hd'
    rcases List.mem_cons.mp hf with rfl | hf
    · exact .inr hd
    rcases List.mem_cons.mp hf with rfl | hf
    · rcases h.ahead ⟨id, next :: rest⟩ List.mem_cons_self d hd hd' with hs | hs
      · exact .inl (List.mem_cons_of_mem _ hs)
      · rcases List.mem_cons.mp hs with rfl | hs
        · exact .inl List.mem_cons_self
        · exact .inr hs
    · exact (h.ahead f (List.mem_cons_of_mem _ hf) d hd hd').imp_left (List.mem_cons_of_mem _)

theorem Walking.skip {seen order rest : List UnitId} {id next : UnitId} {below : List Frame}
    (h : c.Walking seen (⟨id, next :: rest⟩ :: below) order)
    (hold : ¬ (next.index < c.size ∧ next ∉ seen)) :
    c.Walking seen (⟨id, rest⟩ :: below) order where
  entered := h.entered
  nodup := h.nodup
  inside := h.inside
  behind := h.behind
  ahead := by
    intro f hf d hd hd'
    rcases List.mem_cons.mp hf with rfl | hf
    · rcases h.ahead ⟨id, next :: rest⟩ List.mem_cons_self d hd hd' with hs | hs
      · exact .inl hs
      · rcases List.mem_cons.mp hs with rfl | hs
        · exact .inl (by_contra fun hn => hold ⟨hd', hn⟩)
        · exact .inr hs
    · exact h.ahead f (List.mem_cons_of_mem _ hf) d hd hd'

theorem walking_walk {seen order : List UnitId} {stack : List Frame}
    (h : c.Walking seen stack order) :
    c.Walking (c.walk seen stack order).seen [] (c.walk seen stack order).order ∧
      ∀ id ∈ seen, id ∈ (c.walk seen stack order).seen := by
  fun_induction walk c seen stack order with
  | case1 seen order => exact ⟨h, fun _ hid => hid⟩
  | case2 seen order id below ih => exact ih h.leave
  | case3 seen order id next rest below hn ih =>
    obtain ⟨hw, hs⟩ := ih (h.enter hn.1 hn.2)
    exact ⟨hw, fun x hx => hs x (List.mem_cons_of_mem _ hx)⟩
  | case4 seen order id next rest below hn ih => exact ih (h.skip hn)

theorem Walking.start {seen order : List UnitId} {root : UnitId} (h : c.Walking seen [] order)
    (hm : root ∉ seen) (hr : root.index < c.size) :
    c.Walking (root :: seen) [⟨root, c.dependencyIds root⟩] order where
  entered := h.entered.cons root
  nodup := List.nodup_cons.mpr ⟨hm, h.nodup⟩
  inside := by
    intro x hx
    rcases List.mem_cons.mp hx with rfl | hx
    · exact hr
    · exact h.inside x hx
  behind := fun x hx d hd hd' => List.mem_cons_of_mem _ (h.behind x hx d hd hd')
  ahead := by
    intro f hf d hd _
    obtain rfl := List.mem_singleton.mp hf
    exact .inr hd

theorem walking_walkFrom {w : Walked} {root : UnitId} (h : c.Walking w.seen [] w.order)
    (hr : root.index < c.size) :
    c.Walking (c.walkFrom w root).seen [] (c.walkFrom w root).order ∧
      (∀ id ∈ w.seen, id ∈ (c.walkFrom w root).seen) ∧ root ∈ (c.walkFrom w root).seen := by
  simp only [walkFrom]
  split
  · next hm => exact ⟨h, fun _ hid => hid, hm⟩
  · next hm =>
    obtain ⟨hw, hs⟩ := walking_walk (h.start hm hr)
    exact ⟨hw, fun x hx => hs x (List.mem_cons_of_mem _ hx), hs root List.mem_cons_self⟩

theorem walking_foldl (roots : List UnitId) (hr : ∀ id ∈ roots, id.index < c.size) {w : Walked}
    (h : c.Walking w.seen [] w.order) :
    c.Walking (roots.foldl c.walkFrom w).seen [] (roots.foldl c.walkFrom w).order ∧
      (∀ id ∈ w.seen, id ∈ (roots.foldl c.walkFrom w).seen) ∧
      ∀ id ∈ roots, id ∈ (roots.foldl c.walkFrom w).seen := by
  induction roots generalizing w with
  | nil => exact ⟨h, fun _ hid => hid, by simp⟩
  | cons root roots ih =>
    obtain ⟨hw, hs, hroot⟩ := walking_walkFrom h (hr root List.mem_cons_self)
    obtain ⟨hw', hs', hall⟩ := ih (fun id hid => hr id (List.mem_cons_of_mem _ hid)) hw
    refine ⟨hw', fun id hid => hs' id (hs id hid), fun id hid => ?_⟩
    rcases List.mem_cons.mp hid with rfl | hid
    · exact hs' id hroot
    · exact hall id hid

theorem walking_start (c : Cache Tree Value Listener) : c.Walking [] [] [] :=
  ⟨.refl _, List.nodup_nil, by simp, by simp, by simp⟩

theorem nodup_evaluationOrder (c : Cache Tree Value Listener) : c.evaluationOrder.Nodup := by
  have h := (walking_foldl (w := ⟨[], []⟩) c.ids (fun id => (c.mem_ids_iff id).1)
    c.walking_start).1
  exact h.entered.nodup_iff.mpr h.nodup

theorem mem_evaluationOrder (c : Cache Tree Value Listener) (id : UnitId) :
    id ∈ c.evaluationOrder ↔ id.index < c.size := by
  obtain ⟨h, -, hall⟩ :=
    walking_foldl (w := ⟨[], []⟩) c.ids (fun id => (c.mem_ids_iff id).1) c.walking_start
  constructor
  · exact fun hid => h.inside id (h.entered.mem_iff.mp hid)
  · exact fun hid => h.entered.mem_iff.mpr (hall id ((c.mem_ids_iff id).2 hid))

end Cache

end UnitLoader
