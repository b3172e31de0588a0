import Mathlib.Data.Finset.Card
import UnitLoader.Proofs.ExecutionOrder
import UnitLoader.Proofs.TransformOrder

/-! Depth-first visits without a bound on their depth and without a stack. Both ways to go
through a cache are such visits: units are executed in the order of one through all units,
and transformed in that of one through the parsed units. Where no other unit imports a
parsed one, the second is the first, less the units that are not parsed. -/

namespace UnitLoader

namespace Build

variable {Tree Value Listener : Type} {c : Cache Tree Value Listener}

/-- Visiting units one after another, each behind the units next to it. Only units that may
be entered are, and each of them once. -/
inductive Visiting (may : UnitId → Prop) (next : UnitId → List UnitId) :
    Visited → List UnitId → Visited → Prop
  | done (v : Visited) : Visiting may next v [] v
  | pass {v w : Visited} {id : UnitId} {rest : List UnitId} (old : ¬ (may id ∧ id ∉ v.seen))
      (further : Visiting may next v rest w) : Visiting may next v (id :: rest) w
  | enter {v inner w : Visited} {id : UnitId} {rest : List UnitId} (new : may id ∧ id ∉ v.seen)
      (inside : Visiting may next ⟨id :: v.seen, v.order⟩ (next id) inner)
      (further : Visiting may next ⟨inner.seen, inner.order ++ [id]⟩ rest w) :
      Visiting may next v (id :: rest) w

/-- What was visited, as far as it is of some kind. -/
def Visited.only (kind : UnitId → Bool) (v : Visited) : Visited :=
  ⟨v.seen.filter kind, v.order.filter kind⟩

namespace Visiting

variable {may : UnitId → Prop} {next : UnitId → List UnitId} {v w x : Visited}
  {ids more : List UnitId}

/-- There is one way to visit units. -/
theorem unique (h : Visiting may next v ids w) (h' : Visiting may next v ids x) : x = w := by
  induction h generalizing x with
  | done v =>
    cases h'
    rfl
  | pass old _ ih =>
    cases h' with
    | pass _ further => exact ih further
    | enter new => exact absurd new old
  | enter new _ _ ihinside ihfurther =>
    cases h' with
    | pass old => exact absurd new old
    | enter _ inside further =>
      obtain rfl := ihinside inside
      exact ihfurther further

theorem append (h : Visiting may next v ids w) (h' : Visiting may next w more x) :
    Visiting may next v (ids ++ more) x := by
  induction h with
  | done => exact h'
  | pass old _ ih => exact .pass old (ih h')
  | enter new inside _ _ ih => exact .enter new inside (ih h')

theorem eq_of_barred (h : Visiting may next v ids w) (barred : ∀ id ∈ ids, ¬ may id) : w = v := by
  induction h with
  | done => rfl
  | pass _ _ ih => exact ih fun id hid => barred id (List.mem_cons_of_mem _ hid)
  | enter new => exact absurd new.1 (barred _ List.mem_cons_self)

/-- Visiting the units of one kind only. Where the others do not lead to any of it, they can
be left out of a visit to all. -/
theorem only {kind : UnitId → Bool} (may_of_kind : ∀ id, kind id = true → may id)
    (apart : ∀ id, may id → kind id = false → ∀ d ∈ next id, kind d = false)
    (h : Visiting may next v ids w) :
    Visiting (fun id => kind id = true) next (v.only kind) ids (w.only kind) := by
  induction h with
  | done v => exact .done _
  | @pass v w id rest old _ ih =>
    refine .pass (fun hnew => old ⟨may_of_kind id hnew.1, fun hid => hnew.2 ?_⟩) ih
    exact List.mem_filter.mpr ⟨hid, hnew.1⟩
  | @enter v inner w id rest new _ _ ihinside ihfurther =>
    cases hkind : kind id with
    | true =>
      have hinside : Visiting (fun id => kind id = true) next
          ⟨id :: (v.only kind).seen, (v.only kind).order⟩ (next id) (inner.only kind) := by
        simpa [Visited.only, hkind] using ihinside
      have hfurther : Visiting (fun id => kind id = true) next
          ⟨(inner.only kind).seen, (inner.only kind).order ++ [id]⟩ rest (w.only kind) := by
        simpa [Visited.only, hkind] using ihfurther
      exact .enter ⟨hkind, fun hid => new.2 (List.mem_filter.mp hid).1⟩ hinside hfurther
    | false =>
      -- what is visited inside is of no more interest than the unit itself
      have hinside : inner.only kind = Visited.only kind ⟨id :: v.seen, v.order⟩ :=
        ihinside.eq_of_barred fun d hd => by simp [apart id new.1 hkind d hd]
      have hsame : Visited.only kind ⟨inner.seen, inner.order ++ [id]⟩ = v.only kind := by
        simp only [Visited.only, Visited.mk.injEq] at hinside ⊢
        simp [hinside, hkind]
      rw [hsame] at ihfurther
      exact .pass (by simp [hkind]) ihfurther

end Visiting

/-! ### Visits of a bounded depth -/

/-- The units that a visit can still enter. -/
def unseen (c : Cache Tree Value Listener) (seen : List UnitId) : Finset UnitId :=
  c.ids.toFinset \ seen.toFinset

theorem card_unseen_le (c : Cache Tree Value Listener) (seen : List UnitId) :
    (unseen c seen).card ≤ c.size := by
  have hids : c.ids.length = c.size := by simp [Cache.ids]
  calc (unseen c seen).card ≤ c.ids.toFinset.card := Finset.card_le_card Finset.sdiff_subset
    _ ≤ c.ids.length := List.toFinset_card_le _
    _ = c.size := hids

theorem card_unseen_mono {seen seen' : List UnitId} (h : ∀ id ∈ seen, id ∈ seen') :
    (unseen c seen').card ≤ (unseen c seen).card := by
  refine Finset.card_le_card (Finset.sdiff_subset_sdiff (Finset.Subset.refl _) fun id hid => ?_)
  exact List.mem_toFinset.mpr (h id (List.mem_toFinset.mp hid))

theorem card_unseen_cons {id : UnitId} (known : id ∈ c.ids) {seen : List UnitId}
    (new : id ∉ seen) : (unseen c (id :: seen)).card < (unseen c seen).card := by
  refine Finset.card_lt_card ((Finset.ssubset_iff_of_subset ?_).mpr ⟨id, ?_, ?_⟩)
  · exact Finset.sdiff_subset_sdiff (Finset.Subset.refl _) (by simp)
  · simp [unseen, known, new]
  · simp [unseen]

theorem visit_of_old {v : Visited} {id : UnitId} (old : ¬ (c.isIn .parsed id = true ∧ id ∉ v.seen))
    (depth : Nat) : visit c depth v id = v := by
  cases depth with
  | zero => rfl
  | succ depth => rw [visit, if_neg old]

/-- A visit that is deep enough for all the units that it can enter needs no bound. -/
theorem visiting_foldl {depth : Nat} {v : Visited} (ids : List UnitId)
    (deep : (unseen c v.seen).card ≤ depth) :
    Visiting (fun id => c.isIn .parsed id = true) c.dependencyIds v ids
      (ids.foldl (visit c depth) v) := by
  induction depth generalizing v ids with
  | zero =>
    induction ids with
    | nil => exact .done v
    | cons id ids ih =>
      refine .pass (fun hnew => ?_) ih
      obtain ⟨u, hu, -⟩ := Cache.isIn_iff.mp hnew.1
      have hless := card_unseen_cons (Cache.mem_ids_of_get? hu) hnew.2
      omega
  | succ depth ihdepth =>
    induction ids generalizing v with
    | nil => exact .done v
    | cons id ids ih =>
      rw [List.foldl_cons]
      have hlater : (unseen c (visit c (depth + 1) v id).seen).card ≤ depth + 1 :=
        Nat.le_trans (card_unseen_mono (visits_visit _ v id).seen) deep
      by_cases hnew : c.isIn .parsed id = true ∧ id ∉ v.seen
      · obtain ⟨u, hu, -⟩ := Cache.isIn_iff.mp hnew.1
        have hless := card_unseen_cons (Cache.mem_ids_of_get? hu) hnew.2
        have hinside := ihdepth (v := ⟨id :: v.seen, v.order⟩) (c.dependencyIds id) (by
          simp only
          omega)
        have hfurther := ih hlater
        rw [visit, if_pos hnew] at hfurther ⊢
        exact .enter hnew hinside hfurther
      · rw [visit_of_old hnew]
        exact .pass hnew (ih deep)

/-- Any depth that is not used up gives the same visit. -/
theorem visit_of_le (depth depth' : Nat) {v : Visited} (deep : (unseen c v.seen).card ≤ depth)
    (deep' : (unseen c v.seen).card ≤ depth') (id : UnitId) :
    visit c depth v id = visit c depth' v id :=
  (visiting_foldl [id] deep').unique (visiting_foldl [id] deep)

theorem visiting_transformOrder (c : Cache Tree Value Listener) (ids : List UnitId) :
    ∃ seen, Visiting (fun id => c.isIn .parsed id = true) c.dependencyIds ⟨[], []⟩ ids
      ⟨seen, transformOrder c ids⟩ :=
  ⟨_, visiting_foldl ids (card_unseen_le c [])⟩

/-! ### Visits by means of a stack -/

/-- Visiting all that the frames of a stack have ahead of them, the innermost first. -/
inductive Unwinding (may : UnitId → Prop) (next : UnitId → List UnitId) :
    Visited → List Cache.Frame → Visited → Prop
  | done (v : Visited) : Unwinding may next v [] v
  | frame {v inner w : Visited} {id : UnitId} {rest : List UnitId} {below : List Cache.Frame}
      (inside : Visiting may next v rest inner)
      (further : Unwinding may next ⟨inner.seen, inner.order ++ [id]⟩ below w) :
      Unwinding may next v (⟨id, rest⟩ :: below) w

theorem Unwinding.eq_of_nil {may : UnitId → Prop} {next : UnitId → List UnitId} {v w : Visited}
    (h : Unwinding may next v [] w) : w = v := by
  cases h
  rfl

theorem Unwinding.exists_inside {may : UnitId → Prop} {next : UnitId → List UnitId}
    {v w : Visited} {id : UnitId} {rest : List UnitId} {below : List Cache.Frame}
    (h : Unwinding may next v (⟨id, rest⟩ :: below) w) : ∃ inner, Visiting may next v rest inner ∧
      Unwinding may next ⟨inner.seen, inner.order ++ [id]⟩ below w := by
  cases h with
  | frame inside further => exact ⟨_, inside, further⟩

theorem unwinding_walk (c : Cache Tree Value Listener) (seen : List UnitId)
    (stack : List Cache.Frame) (order : List UnitId) :
    Unwinding (fun id => id.index < c.size) c.dependencyIds ⟨seen, order⟩ stack
      ⟨(c.walk seen stack order).seen, (c.walk seen stack order).order⟩ := by
  fun_induction Cache.walk c seen stack order with
  | case1 seen order => exact .done _
  | case2 seen order id below ih => exact .frame (.done _) ih
  | case3 seen order id next rest below new ih =>
    -- the frame that was put on top is the visit inside
    obtain ⟨inner, hinside, hfurther⟩ := ih.exists_inside
    obtain ⟨last, hrest, hbelow⟩ := hfurther.exists_inside
    exact .frame (.enter new hinside hrest) hbelow
  | case4 seen order id next rest below old ih =>
    obtain ⟨last, hrest, hbelow⟩ := ih.exists_inside
    exact .frame (.pass old hrest) hbelow

theorem visiting_walkFrom (w : Cache.Walked) {root : UnitId} (known : root.index < c.size) :
    Visiting (fun id => id.index < c.size) c.dependencyIds ⟨w.seen, w.order⟩ [root]
      ⟨(c.walkFrom w root).seen, (c.walkFrom w root).order⟩ := by
  simp only [Cache.walkFrom]
  split
  · next old => exact .pass (fun hnew => hnew.2 old) (.done _)
  · next new =>
    obtain ⟨inner, hinside, hbelow⟩ := (unwinding_walk c (root :: w.seen)
      [⟨root, c.dependencyIds root⟩] w.order).exists_inside
    rw [hbelow.eq_of_nil]
    exact .enter ⟨known, new⟩ hinside (.done _)

theorem visiting_walkFrom_foldl {roots : List UnitId} (known : ∀ id ∈ roots, id.index < c.size)
    (w : Cache.Walked) :
    Visiting (fun id => id.index < c.size) c.dependencyIds ⟨w.seen, w.order⟩ roots
      ⟨(roots.foldl c.walkFrom w).seen, (roots.foldl c.walkFrom w).order⟩ := by
  induction roots generalizing w with
  | nil => exact .done _
  | cons root roots ih =>
    have hroot := visiting_walkFrom w (known root List.mem_cons_self)
    exact hroot.append (ih (fun id hid => known id (List.mem_cons_of_mem _ hid)) _)

theorem visiting_evaluationOrder (c : Cache Tree Value Listener) :
    ∃ seen, Visiting (fun id => id.index < c.size) c.dependencyIds ⟨[], []⟩ c.ids
      ⟨seen, c.evaluationOrder⟩ :=
  ⟨_, visiting_walkFrom_foldl (fun id => (c.mem_ids_iff id).mp) ⟨[], []⟩⟩

/-- Where no unit that is not parsed imports a parsed one, units are transformed in the order
in which they are executed. -/
theorem transformOrder_ids_eq (apart : ∀ id, c.isIn .parsed id = false →
      ∀ d ∈ c.dependencyIds id, c.isIn .parsed d = false) :
    transformOrder c c.ids = c.evaluationOrder.filter (c.isIn .parsed) := by
  obtain ⟨seen, hall⟩ := visiting_evaluationOrder c
  obtain ⟨seen', hparsed⟩ := visiting_transformOrder c c.ids
  have hknown (id : UnitId) (hp : c.isIn .parsed id = true) : id.index < c.size := by
    obtain ⟨u, hu, -⟩ := Cache.isIn_iff.mp hp
    exact Cache.index_lt_of_get? hu
  have hboth := (hall.only hknown fun id _ => apart id).unique hparsed
  exact congrArg Visited.order hboth

end Build

end UnitLoader
