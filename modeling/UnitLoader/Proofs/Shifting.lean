import UnitLoader.Proofs.Links
import UnitLoader.Proofs.Lockstep
import UnitLoader.Proofs.Visiting

/-! A cache on top of another. Its units keep their order and are counted on from the units
below, and so are the units that they import. Where the units below are settled, nothing that
goes through the whole cache has anything to do with them. -/

namespace UnitLoader

/-- The number that a unit has when `n` units come before all those it was counted with. -/
def UnitId.after (n : Nat) (id : UnitId) : UnitId := ⟨n + id.index⟩

theorem UnitId.after_inj {n : Nat} {i j : UnitId} : i.after n = j.after n ↔ i = j := by
  simp [after, UnitId.ext_iff]

theorem UnitId.after_injective (n : Nat) : Function.Injective (UnitId.after n) :=
  fun _ _ => after_inj.mp

theorem UnitId.ne_after_of_lt {n : Nat} {i j : UnitId} (h : i.index < n) : i ≠ j.after n := by
  rintro rfl
  simp only [after] at h
  omega

theorem UnitId.mem_map_after {n : Nat} {ids : List UnitId} {id : UnitId} :
    id.after n ∈ ids.map (·.after n) ↔ id ∈ ids :=
  List.mem_map_of_injective (after_injective n)

namespace SourceUnit

variable {Tree Value Listener : Type}

/-- A unit with its imports counted on from `n`. -/
def after (n : Nat) (u : SourceUnit Tree Value Listener) : SourceUnit Tree Value Listener :=
  { u with dependencies := u.dependencies.map (·.map (·.after n)) }

variable (n : Nat) (u : SourceUnit Tree Value Listener)

theorem dependencyIds_after : (u.after n).dependencyIds = u.dependencyIds.map (·.after n) := by
  cases h : u.dependencies <;> simp [after, dependencyIds, h]

theorem advance_after (state : State) : (u.after n).advance state = (u.advance state).after n := by
  cases h : u.state.mayBecome state <;> simp [advance, after, h]

theorem fail_after (e : LoadError) : (u.after n).fail e = (u.fail e).after n := by
  cases h : u.state.isSettled <;> simp [fail, recordError, after, h]

theorem fixDependencies_after (ids : List UnitId) :
    (u.after n).fixDependencies (ids.map (·.after n)) = (u.fixDependencies ids).after n := by
  cases h : u.dependencies <;> simp [after, fixDependencies, h]

end SourceUnit

namespace Cache

variable {Tree Value Listener : Type}

/-- The third cache holds the units of the first and, after them, those of the second. -/
def OnTop (o c d : Cache Tree Value Listener) : Prop :=
  d.units = o.units ++ c.units.map (·.after o.size)

/-- No unit is on its way. -/
def Settled (o : Cache Tree Value Listener) : Prop :=
  ∀ id u, o.get? id = some u → u.state.isSettled = true

/-- No unit has this address. -/
def Lacks (o : Cache Tree Value Listener) (address : String) : Prop :=
  ∀ id u, o.get? id = some u → u.address ≠ address

variable {o c d : Cache Tree Value Listener} {id : UnitId}

/-! ### Looking units up -/

theorem OnTop.size (h : OnTop o c d) : d.size = o.size + c.size := by
  rw [OnTop] at h
  simp [Cache.size, h]

theorem OnTop.get?_old (h : OnTop o c d) (old : id.index < o.size) : d.get? id = o.get? id := by
  rw [get?, h, List.getElem?_append_left old]
  rfl

theorem OnTop.get?_after (h : OnTop o c d) (id : UnitId) :
    d.get? (id.after o.size) = (c.get? id).map (·.after o.size) := by
  have hle : o.units.length ≤ (id.after o.size).index := Nat.le_add_right _ _
  have hindex : (id.after o.size).index - o.units.length = id.index := Nat.add_sub_cancel_left _ _
  rw [get?, h, List.getElem?_append_right hle, hindex, List.getElem?_map]
  rfl

theorem OnTop.ids (h : OnTop o c d) : d.ids = o.ids ++ c.ids.map (·.after o.size) := by
  simp [Cache.ids, h.size, List.range_add, UnitId.after, Function.comp_def]

theorem OnTop.isIn_after (h : OnTop o c d) (state : State) (id : UnitId) :
    d.isIn state (id.after o.size) = c.isIn state id := by
  cases hu : c.get? id <;> simp [isIn, state?, h.get?_after, hu, SourceUnit.after]

theorem OnTop.isIn_old (h : OnTop o c d) (settled : o.Settled) (state : State)
    (unsettled : state.isSettled = false) (old : id.index < o.size) : d.isIn state id = false := by
  refine isIn_eq_false_of_settled unsettled fun u hu => ?_
  rw [h.get?_old old] at hu
  exact settled id u hu

theorem OnTop.addressOf_after (h : OnTop o c d) (id : UnitId) :
    d.addressOf (id.after o.size) = c.addressOf id := by
  cases hu : c.get? id <;> simp [addressOf, h.get?_after, hu, SourceUnit.after]

theorem OnTop.dependencyIds_after (h : OnTop o c d) (id : UnitId) :
    d.dependencyIds (id.after o.size) = (c.dependencyIds id).map (·.after o.size) := by
  cases hu : c.get? id with
  | none => simp [dependencyIds, h.get?_after, hu]
  | some u => simp [dependencyIds, h.get?_after, hu, SourceUnit.dependencyIds_after]

theorem OnTop.dependencyIds_old (h : OnTop o c d) (old : id.index < o.size) :
    d.dependencyIds id = o.dependencyIds id := by
  rw [dependencyIds, h.get?_old old]
  rfl

theorem findIdx?_append_of_none {α : Type} {p : α → Bool} {xs : List α} (h : ∀ x ∈ xs, p x = false)
    (ys : List α) : (xs ++ ys).findIdx? p = (ys.findIdx? p).map (· + xs.length) := by
  simp [List.findIdx?_append, List.findIdx?_eq_none_iff.mpr h]

theorem OnTop.lookup (h : OnTop o c d) {address : String} (lacks : o.Lacks address) (kind : Kind) :
    d.lookup address kind = (c.lookup address kind).map (·.after o.size) := by
  have hold (u : SourceUnit Tree Value Listener) (hu : u ∈ o.units) :
      isAt address kind u = false := by
    obtain ⟨i, hi⟩ := List.getElem?_of_mem hu
    simp [isAt, lacks ⟨i⟩ u hi]
  have hmap : isAt address kind ∘ SourceUnit.after o.size =
      (isAt address kind : SourceUnit Tree Value Listener → Bool) := rfl
  rw [Cache.lookup, h, findIdx?_append_of_none hold, List.findIdx?_map, hmap, Cache.lookup,
    Option.map_map, Option.map_map]
  refine congrArg (Option.map · _) (funext fun i => ?_)
  exact UnitId.ext_iff.mpr (Nat.add_comm i o.units.length)

theorem OnTop.areAll_isPastParsing (h : OnTop o c d) (settled : o.Settled) :
    d.areAll State.isPastParsing = c.areAll State.isPastParsing := by
  have hold : o.units.all (fun u => u.state.isPastParsing) = true := by
    refine List.all_eq_true.mpr fun u hu => ?_
    obtain ⟨i, hi⟩ := List.getElem?_of_mem hu
    have hset := settled ⟨i⟩ u hi
    revert hset
    cases u.state <;> decide
  rw [areAll, h, List.all_append, hold, Bool.true_and, List.all_map]
  rfl

theorem OnTop.hasAny_parsed (h : OnTop o c d) (settled : o.Settled) :
    d.hasAny (· = .parsed) = c.hasAny (· = .parsed) := by
  have hold : o.units.any (fun u => decide (u.state = .parsed)) = false := by
    refine List.any_eq_false.mpr fun u hu => ?_
    obtain ⟨i, hi⟩ := List.getElem?_of_mem hu
    have hset := settled ⟨i⟩ u hi
    revert hset
    cases u.state <;> decide
  rw [hasAny, h, List.any_append, hold, Bool.false_or, List.any_map]
  rfl

/-! ### Changing units -/

theorem OnTop.modify (h : OnTop o c d)
    {f g : SourceUnit Tree Value Listener → SourceUnit Tree Value Listener}
    (same : ∀ u, c.get? id = some u → f (u.after o.size) = (g u).after o.size) :
    OnTop o (c.modify id g) (d.modify (id.after o.size) f) := by
  refine List.ext_getElem? fun i => ?_
  show (d.units.modify (o.size + id.index) f)[i]? =
    (o.units ++ (c.units.modify id.index g).map (·.after o.size))[i]?
  rw [h, List.getElem?_modify]
  rcases Nat.lt_or_ge i o.size with hi | hi
  · have hne : o.size + id.index ≠ i := by omega
    rw [List.getElem?_append_left hi, List.getElem?_append_left hi]
    simp [hne]
  · obtain ⟨j, rfl⟩ := Nat.exists_eq_add_of_le hi
    have hsub : o.size + j - o.units.length = j := Nat.add_sub_cancel_left _ _
    rw [List.getElem?_append_right hi, List.getElem?_append_right hi, hsub, List.getElem?_map,
      List.getElem?_map, List.getElem?_modify]
    simp only [Nat.add_left_cancel_iff]
    by_cases hid : id.index = j
    · subst hid
      cases hu : c.units[id.index]? with
      | none => simp
      | some u => simpa using same u hu
    · simp [hid]

theorem OnTop.modify_old (h : OnTop o c d) (old : id.index < o.size)
    {f : SourceUnit Tree Value Listener → SourceUnit Tree Value Listener}
    (same : ∀ u, o.get? id = some u → f u = u) : OnTop o c (d.modify id f) := by
  rwa [modify_eq_self fun u hu => same u (h.get?_old old ▸ hu)]

theorem OnTop.push (h : OnTop o c d) (u : SourceUnit Tree Value Listener) :
    OnTop o (c.push u) (d.push (u.after o.size)) := by
  rw [OnTop] at h
  simp [OnTop, Cache.push, h]

/-- A unit is found on top, or else is new for both. -/
theorem OnTop.getOrInsert (h : OnTop o c d) {address : String} (lacks : o.Lacks address)
    (kind : Kind) :
    (d.getOrInsert address kind).id = (c.getOrInsert address kind).id.after o.size ∧
      OnTop o (c.getOrInsert address kind).cache (d.getOrInsert address kind).cache := by
  simp only [Cache.getOrInsert, h.lookup lacks]
  cases c.lookup address kind with
  | some id => exact ⟨rfl, h⟩
  | none => exact ⟨by simp [h.size, UnitId.after], h.push _⟩

/-- What is done to the units one by one, and is nothing to those below. -/
theorem foldl_on_top {α β : Type} {R : α → β → Prop} {f : α → UnitId → α} {g : β → UnitId → β}
    (old : ∀ x y id, id.index < o.size → R x y → R (f x id) y)
    (new : ∀ x y id, R x y → R (f x (id.after o.size)) (g y id)) (ids : List UnitId) {x : α} {y : β}
    (hxy : R x y) : R ((o.ids ++ ids.map (·.after o.size)).foldl f x) (ids.foldl g y) := by
  have hold (ids : List UnitId) (hids : ∀ id ∈ ids, id.index < o.size) (x : α) (hxy : R x y) :
      R (ids.foldl f x) y := by
    induction ids generalizing x with
    | nil => exact hxy
    | cons id ids ih =>
      refine ih (fun i hi => hids i (List.mem_cons_of_mem _ hi)) _ ?_
      exact old x y id (hids id List.mem_cons_self) hxy
  have hnew (x : α) (y : β) (hxy : R x y) :
      R ((ids.map (·.after o.size)).foldl f x) (ids.foldl g y) := by
    induction ids generalizing x y with
    | nil => exact hxy
    | cons id ids ih => exact ih _ _ (new x y id hxy)
  rw [List.foldl_append]
  exact hnew _ y (hold o.ids (fun id => (o.mem_ids_iff id).1) x hxy)

/-! ### The order of execution -/

theorem OnTop.matching (h : OnTop o c d) (linked : o.Linked) :
    Matching (fun i j => i = j ∧ i.index < o.size) d o where
  left := by
    rintro i j ⟨-, hi⟩
    have hsize := h.size
    omega
  right := by
    rintro i j ⟨rfl, hi⟩
    exact hi
  unique := by
    rintro i j i' j' ⟨rfl, -⟩ ⟨rfl, -⟩
    exact Iff.rfl
  dependencies := by
    rintro i j ⟨rfl, hi⟩
    obtain ⟨u, hu⟩ := get?_of_index_lt hi
    rw [h.dependencyIds_old hi, List.forall₂_same, dependencyIds_eq hu]
    exact fun x hx => ⟨rfl, linked i u hu x hx⟩

/-- Starting below, the walk stays below. -/
theorem OnTop.walked_old (h : OnTop o c d) (linked : o.Linked) :
    (∀ id ∈ (o.ids.foldl d.walkFrom ⟨[], []⟩).seen, id.index < o.size) ∧
      ∀ id ∈ (o.ids.foldl d.walkFrom ⟨[], []⟩).order, id.index < o.size := by
  have hids (id : UnitId) (hid : id ∈ o.ids) : id.index < o.size := (o.mem_ids_iff id).1 hid
  have hroots : List.Forall₂ (fun i j => i = j ∧ i.index < o.size) o.ids o.ids :=
    List.forall₂_same.mpr fun id hid => ⟨rfl, hids id hid⟩
  have horder : List.Forall₂ (fun i j => i = j ∧ i.index < o.size)
      (o.ids.foldl d.walkFrom ⟨[], []⟩).order (o.ids.foldl o.walkFrom ⟨[], []⟩).order :=
    (h.matching linked).foldl hroots .nil .nil
  have hbelow : ∀ id ∈ (o.ids.foldl d.walkFrom ⟨[], []⟩).order, id.index < o.size := by
    intro id hid
    obtain ⟨i, hi, rfl⟩ := List.getElem_of_mem hid
    exact ((List.forall₂_iff_get.mp horder).2 i hi (horder.length_eq ▸ hi)).2
  have hsize := h.size
  have hwalk := (walking_foldl (w := ⟨[], []⟩) o.ids
    (fun id hid => by have := hids id hid; omega) d.walking_start).1
  exact ⟨fun id hid => hbelow id (hwalk.entered.mem_iff.mpr hid), hbelow⟩

def Frame.after (n : Nat) (f : Frame) : Frame :=
  ⟨f.id.after n, f.rest.map (·.after n)⟩

/-- Starting on top, the walk stays on top, whatever it has entered below. -/
theorem OnTop.walk (h : OnTop o c d) {old before : List UnitId}
    (below : ∀ id ∈ old, id.index < o.size) (seen : List UnitId) (stack : List Frame)
    (order : List UnitId) :
    d.walk (seen.map (·.after o.size) ++ old) (stack.map (·.after o.size))
        (before ++ order.map (·.after o.size)) =
      ⟨(c.walk seen stack order).seen.map (·.after o.size) ++ old,
        before ++ (c.walk seen stack order).order.map (·.after o.size)⟩ := by
  have hseen (id : UnitId) (seen : List UnitId) :
      id.after o.size ∈ seen.map (·.after o.size) ++ old ↔ id ∈ seen := by
    rw [List.mem_append, UnitId.mem_map_after]
    exact or_iff_left fun hold => UnitId.ne_after_of_lt (below _ hold) rfl
  have hindex (id : UnitId) : (id.after o.size).index < d.size ↔ id.index < c.size := by
    rw [h.size]
    exact Nat.add_lt_add_iff_left
  fun_induction Cache.walk c seen stack order with
  | case1 seen order => rw [List.map_nil, Cache.walk]
  | case2 seen order id rest ih =>
    rw [List.map_cons, Frame.after, List.map_nil, Cache.walk, List.append_assoc]
    simpa using ih
  | case3 seen order id next rest below hn ih =>
    rw [List.map_cons, Frame.after, List.map_cons, Cache.walk,
      dif_pos ⟨(hindex next).mpr hn.1, fun hm => hn.2 ((hseen next seen).mp hm)⟩,
      h.dependencyIds_after]
    exact ih
  | case4 seen order id next rest below hn ih =>
    rw [List.map_cons, Frame.after, List.map_cons, Cache.walk, dif_neg fun hm =>
      hn ⟨(hindex next).mp hm.1, fun hs => hm.2 ((hseen next seen).mpr hs)⟩]
    exact ih

/-- The units below come first in the order of execution, and then those on top in their own. -/
theorem OnTop.evaluationOrder (h : OnTop o c d) (linked : o.Linked) :
    ∃ before, (∀ id ∈ before, id.index < o.size) ∧
      d.evaluationOrder = before ++ c.evaluationOrder.map (·.after o.size) := by
  obtain ⟨hseen, horder⟩ := h.walked_old linked
  refine ⟨_, horder, ?_⟩
  generalize hw : o.ids.foldl d.walkFrom ⟨[], []⟩ = w at hseen horder
  have hfold (ids : List UnitId) (v : Walked) :
      (ids.map (·.after o.size)).foldl d.walkFrom
          ⟨v.seen.map (·.after o.size) ++ w.seen, w.order ++ v.order.map (·.after o.size)⟩ =
        ⟨(ids.foldl c.walkFrom v).seen.map (·.after o.size) ++ w.seen,
          w.order ++ (ids.foldl c.walkFrom v).order.map (·.after o.size)⟩ := by
    induction ids generalizing v with
    | nil => rfl
    | cons root ids ih =>
      have hmem : root.after o.size ∈ v.seen.map (·.after o.size) ++ w.seen ↔ root ∈ v.seen := by
        rw [List.mem_append, UnitId.mem_map_after]
        exact or_iff_left fun hold => UnitId.ne_after_of_lt (hseen _ hold) rfl
      have hroot : d.walkFrom ⟨v.seen.map (·.after o.size) ++ w.seen,
            w.order ++ v.order.map (·.after o.size)⟩ (root.after o.size) =
          ⟨(c.walkFrom v root).seen.map (·.after o.size) ++ w.seen,
            w.order ++ (c.walkFrom v root).order.map (·.after o.size)⟩ := by
        simp only [walkFrom, hmem]
        split
        · rfl
        · rw [h.dependencyIds_after]
          exact h.walk hseen (root :: v.seen) [⟨root, c.dependencyIds root⟩] v.order
      rw [List.map_cons, List.foldl_cons, List.foldl_cons, hroot]
      exact ih _
  rw [Cache.evaluationOrder, h.ids, List.foldl_append, hw]
  have hall := hfold c.ids ⟨[], []⟩
  rw [List.map_nil, List.nil_append, List.append_nil] at hall
  rw [hall]
  rfl

end Cache

/-! ### The order of transforming -/

namespace Build

variable {Tree Value Listener : Type} {o c d : Cache Tree Value Listener} {id : UnitId}

def Visited.after (n : Nat) (v : Visited) : Visited :=
  ⟨v.seen.map (·.after n), v.order.map (·.after n)⟩

theorem visit_after (h : Cache.OnTop o c d) (depth : Nat) (v : Visited) (id : UnitId) :
    visit d depth (v.after o.size) (id.after o.size) = (visit c depth v id).after o.size := by
  have hnew (v : Visited) (id : UnitId) :
      d.isIn .parsed (id.after o.size) = true ∧ id.after o.size ∉ (v.after o.size).seen ↔
        c.isIn .parsed id = true ∧ id ∉ v.seen := by
    rw [h.isIn_after]
    exact and_congr_right fun _ => not_congr UnitId.mem_map_after
  induction depth generalizing v id with
  | zero => rfl
  | succ depth ih =>
    by_cases hid : c.isIn .parsed id = true ∧ id ∉ v.seen
    · have hfold : (c.dependencyIds id).foldl (fun v next => visit d depth v (next.after o.size))
            (Visited.after o.size ⟨id :: v.seen, v.order⟩) =
          Visited.after o.size
            ((c.dependencyIds id).foldl (fun v next => visit c depth v next)
              ⟨id :: v.seen, v.order⟩) :=
        List.foldl_hom (Visited.after o.size) fun v next => ih v next
      have hfirst : (⟨id.after o.size :: (v.after o.size).seen, (v.after o.size).order⟩ : Visited) =
          Visited.after o.size ⟨id :: v.seen, v.order⟩ := rfl
      rw [visit, visit, if_pos hid, if_pos ((hnew v id).mpr hid), h.dependencyIds_after,
        List.foldl_map, hfirst, hfold]
      simp [Visited.after]
    · rw [visit_of_old hid, visit_of_old (fun hid' => hid ((hnew v id).mp hid'))]

theorem transformOrder_on_top (h : Cache.OnTop o c d) (settled : o.Settled) :
    transformOrder d d.ids = (transformOrder c c.ids).map (·.after o.size) := by
  have hdepth (v : Visited) (id : UnitId) : visit c d.size v id = visit c c.size v id := by
    have hle := card_unseen_le c v.seen
    have hsize := h.size
    exact visit_of_le _ _ (by omega) hle id
  have hvisits := Cache.foldl_on_top (R := fun v w => v = w.after o.size) (f := visit d d.size)
    (g := visit c c.size) (x := ⟨[], []⟩) (y := ⟨[], []⟩)
    (by
      rintro _ w id hid rfl
      have hold := h.isIn_old settled .parsed rfl hid
      exact visit_of_old (fun hnew => by simp [hold] at hnew) _)
    (by
      rintro _ w id rfl
      rw [visit_after h, hdepth])
    c.ids rfl
  rw [← h.ids] at hvisits
  exact congrArg Visited.order hvisits

end Build

end UnitLoader
