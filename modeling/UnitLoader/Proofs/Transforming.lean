import UnitLoader.Lang.Toolchain
import UnitLoader.Proofs.Postorder
import UnitLoader.Proofs.Stages
import UnitLoader.Proofs.Visiting
import UnitLoader.Text.Unicode

/-! Transforming a batch. Exactly the parsed units that some units lead to through parsed
ones are transformed, each once, and behind its imports as far as those do not lead back to
it. -/

namespace UnitLoader

namespace Build

variable {Tree Value Listener : Type} {c : Cache Tree Value Listener}

/-- A unit imports one that is parsed. -/
def ImportsParsed (c : Cache Tree Value Listener) (id d : UnitId) : Prop :=
  c.Imports id d ∧ c.isIn .parsed d = true

/-- A unit gets to another through parsed units. -/
abbrev LeadsParsed (c : Cache Tree Value Listener) : UnitId → UnitId → Prop :=
  Relation.ReflTransGen (ImportsParsed c)

/-- A parsed unit is among some units, or one of these leads to it through parsed units. -/
def Reaches (c : Cache Tree Value Listener) (ids : List UnitId) (id : UnitId) : Prop :=
  ∃ root ∈ ids, c.isIn .parsed root = true ∧ LeadsParsed c root id

/-- In a list of units, the parsed imports of each are before it or lead back to it. -/
def InOrderParsed (c : Cache Tree Value Listener) (order : List UnitId) : Prop :=
  ∀ before id after, order = before ++ id :: after →
    ∀ d, ImportsParsed c id d → d ∈ before ∨ LeadsParsed c d id

/-- Visiting the parsed units of a cache. -/
abbrev VisitingParsed (c : Cache Tree Value Listener) : Visited → List UnitId → Visited → Prop :=
  Visiting (fun id => c.isIn .parsed id = true) c.dependencyIds

theorem Reaches.of_tail {id : UnitId} {ids : List UnitId} {x : UnitId} (h : Reaches c ids x) :
    Reaches c (id :: ids) x := by
  obtain ⟨root, hroot, h⟩ := h
  exact ⟨root, List.mem_cons_of_mem _ hroot, h⟩

namespace VisitingParsed

variable {v w : Visited} {ids : List UnitId}

theorem visits (h : VisitingParsed c v ids w) : Visits c v w := by
  induction h with
  | done v => exact .refl v
  | pass _ _ ih => exact ih
  | enter new _ _ ihinside ihfurther => exact (ihinside.finish new.1 new.2).trans ihfurther

theorem mem_seen (h : VisitingParsed c v ids w) :
    ∀ id ∈ ids, c.isIn .parsed id = true → id ∈ w.seen := by
  induction h with
  | done => simp
  | @pass v w id rest old further ih =>
    intro x hx hp
    rcases List.mem_cons.mp hx with rfl | hx
    · exact (visits further).seen x (by_contra fun hn => old ⟨hp, hn⟩)
    · exact ih x hx hp
  | @enter v inner w id rest new inside further _ ih =>
    intro x hx hp
    rcases List.mem_cons.mp hx with rfl | hx
    · exact (visits further).seen x ((visits inside).seen x List.mem_cons_self)
    · exact ih x hx hp

/-- What is written down was written down before, or the units lead to it. -/
theorem reaches (h : VisitingParsed c v ids w) :
    ∀ id ∈ w.order, id ∈ v.order ∨ Reaches c ids id := by
  induction h with
  | done => exact fun id hid => .inl hid
  | pass _ _ ih => exact fun id hid => (ih id hid).imp_right Reaches.of_tail
  | @enter v inner w id rest new _ _ ihinside ihfurther =>
    intro x hx
    rcases ihfurther x hx with hx | hx
    · rcases List.mem_append.mp hx with hx | hx
      · refine (ihinside x hx).imp_right fun ⟨d, hd, hp, hleads⟩ => ?_
        exact ⟨id, List.mem_cons_self, new.1, .head ⟨hd, hp⟩ hleads⟩
      · obtain rfl := List.mem_singleton.mp hx
        exact .inr ⟨x, List.mem_cons_self, new.1, .refl⟩
    · exact .inr hx.of_tail

/-- Behind a unit that was written down, all its parsed imports have been entered. -/
theorem closed (h : VisitingParsed c v ids w)
    (hv : ∀ id ∈ v.order, ∀ d, ImportsParsed c id d → d ∈ v.seen) :
    ∀ id ∈ w.order, ∀ d, ImportsParsed c id d → d ∈ w.seen := by
  induction h with
  | done => exact hv
  | pass _ _ ih => exact ih hv
  | @enter v inner w id rest new inside _ ihinside ihfurther =>
    have hinner := ihinside fun x hx d hd => List.mem_cons_of_mem _ (hv x hx d hd)
    refine ihfurther fun x hx d hd => ?_
    rcases List.mem_append.mp hx with hx | hx
    · exact hinner x hx d hd
    · obtain rfl := List.mem_singleton.mp hx
      exact mem_seen inside d hd.1 hd.2

/-- While units are visited, those entered and not written down yet lead to all of them. -/
theorem inOrder (h : VisitingParsed c v ids w)
    (opened : ∀ x ∈ v.seen, x ∈ v.order ∨ ∀ id ∈ ids, c.isIn .parsed id = true → LeadsParsed c x id)
    (hv : InOrderParsed c v.order) : InOrderParsed c w.order := by
  induction h with
  | done => exact hv
  | pass _ _ ih =>
    refine ih (fun x hx => (opened x hx).imp_right fun hx id hid => ?_) hv
    exact hx id (List.mem_cons_of_mem _ hid)
  | @enter v inner w id rest new inside _ ihinside ihfurther =>
    have hvisits := visits inside
    have hleads (x : UnitId) (hx : x ∈ v.seen) : x ∈ v.order ∨ LeadsParsed c x id :=
      (opened x hx).imp_right fun hx => hx id List.mem_cons_self new.1
    have hinner : InOrderParsed c inner.order := by
      refine ihinside (fun x hx => ?_) hv
      rcases List.mem_cons.mp hx with rfl | hx
      · exact .inr fun d hd hp => .single ⟨hd, hp⟩
      · exact (hleads x hx).imp_right fun hx d hd hp => hx.tail ⟨hd, hp⟩
    -- what was entered inside was also written down there
    have hentered (x : UnitId) (hx : x ∈ inner.seen) : x ∈ inner.order ∨ x = id ∨ x ∈ v.seen := by
      rcases hvisits.written x hx with hx | hx
      · exact .inr (List.mem_cons.mp hx)
      · exact .inl hx
    refine ihfurther (fun x hx => ?_) (forall_split_snoc hinner fun d hd => ?_)
    · rcases hentered x hx with hx | rfl | hx
      · exact .inl (List.mem_append_left _ hx)
      · exact .inl (List.mem_append_right _ (List.mem_singleton.mpr rfl))
      · rcases opened x hx with hx | hx
        · exact .inl (List.mem_append_left _ (hvisits.order x hx))
        · exact .inr fun j hj => hx j (List.mem_cons_of_mem _ hj)
    · rcases hentered d (mem_seen inside d hd.1 hd.2) with hx | rfl | hx
      · exact .inl hx
      · exact .inr .refl
      · exact (hleads d hx).imp_left (hvisits.order d)

end VisitingParsed

theorem mem_transformOrder_iff {ids : List UnitId} {id : UnitId} :
    id ∈ transformOrder c ids ↔ Reaches c ids id := by
  obtain ⟨seen, h⟩ := visiting_transformOrder c ids
  have hwritten (x : UnitId) (hx : x ∈ seen) : x ∈ transformOrder c ids :=
    ((VisitingParsed.visits h).written x hx).resolve_left List.not_mem_nil
  have hclosed := VisitingParsed.closed h (by simp)
  constructor
  · exact fun hid => (VisitingParsed.reaches h id hid).resolve_left List.not_mem_nil
  · rintro ⟨root, hroot, hp, hleads⟩
    induction hleads with
    | refl => exact hwritten root (VisitingParsed.mem_seen h root hroot hp)
    | tail _ hstep ih => exact hwritten _ (hclosed _ ih _ hstep)

theorem inOrder_transformOrder (c : Cache Tree Value Listener) (ids : List UnitId) :
    InOrderParsed c (transformOrder c ids) := by
  obtain ⟨seen, h⟩ := visiting_transformOrder c ids
  have hstart : InOrderParsed c ([] : List UnitId) := fun before id after he => by simp at he
  have horder := VisitingParsed.inOrder h (by simp) hstart
  exact horder

theorem idxOf_transformOrder_lt {ids : List UnitId} {id d : UnitId} (h : ImportsParsed c id d)
    (hid : id ∈ transformOrder c ids) (back : ¬ LeadsParsed c d id) :
    (transformOrder c ids).idxOf d < (transformOrder c ids).idxOf id :=
  idxOf_lt_of_mem_before (nodup_transformOrder c ids) hid fun before after he =>
    (inOrder_transformOrder c ids before id after he d h).resolve_right back

/-! ### The build meanwhile -/

variable {tools : Toolchain Tree Value}

/-- A build while units are transformed, and the units whose turn has come. -/
structure Underway (Tree Value Listener : Type) where
  seen : List UnitId
  build : Build Tree Value Listener

/-- Transforming units one after another, each behind its imports. It is the build of the
moment that tells whether a unit is parsed and what it imports. -/
inductive Transforming (tools : Toolchain Tree Value) :
    Underway Tree Value Listener → List UnitId → Underway Tree Value Listener → Prop
  | done (v : Underway Tree Value Listener) : Transforming tools v [] v
  | pass {v w : Underway Tree Value Listener} {id : UnitId} {rest : List UnitId}
      (old : ¬ (v.build.cache.isIn .parsed id = true ∧ id ∉ v.seen))
      (further : Transforming tools v rest w) : Transforming tools v (id :: rest) w
  | enter {v inner w : Underway Tree Value Listener} {id : UnitId} {rest : List UnitId}
      (new : v.build.cache.isIn .parsed id = true ∧ id ∉ v.seen)
      (inside : Transforming tools ⟨id :: v.seen, v.build⟩ (v.build.cache.dependencyIds id) inner)
      (further : Transforming tools ⟨inner.seen, transformUnit tools inner.build id⟩ rest w) :
      Transforming tools v (id :: rest) w

theorem get?_foldl_transformUnit {b : Build Tree Value Listener} {order : List UnitId}
    {id : UnitId} (h : id ∉ order) :
    (order.foldl (transformUnit tools) b).cache.get? id = b.cache.get? id := by
  induction order generalizing b with
  | nil => rfl
  | cons first order ih =>
    have hne : first ≠ id := fun he => h (he ▸ List.mem_cons_self)
    rw [List.foldl_cons, ih (List.not_mem_of_not_mem_cons h), transformUnit_cache,
      Cache.get?_modify_of_ne hne]

/-- The units whose turn has not come are as they were, so it does not matter that others
have been transformed by then. -/
theorem VisitingParsed.transforming {b : Build Tree Value Listener} {v w : Visited}
    {ids : List UnitId} (h : VisitingParsed b.cache v ids w)
    (entered : ∀ id ∈ v.order, id ∈ v.seen) :
    Transforming tools ⟨v.seen, v.order.foldl (transformUnit tools) b⟩ ids
      ⟨w.seen, w.order.foldl (transformUnit tools) b⟩ := by
  have hsame {v : Visited} (entered : ∀ id ∈ v.order, id ∈ v.seen) {id : UnitId}
      (hid : id ∉ v.seen) :
      (v.order.foldl (transformUnit tools) b).cache.get? id = b.cache.get? id :=
    get?_foldl_transformUnit fun hm => hid (entered id hm)
  induction h with
  | done => exact .done _
  | @pass v w id rest old _ ih =>
    refine .pass (fun ⟨hp, hid⟩ => old ⟨?_, hid⟩) (ih entered)
    simpa only [Cache.isIn_iff, hsame entered hid] using hp
  | @enter v inner w id rest new inside _ ihinside ihfurther =>
    have hget := hsame entered new.2
    have hinner := ((visits inside).finish new.1 new.2).entered entered
    have hnew : (v.order.foldl (transformUnit tools) b).cache.isIn .parsed id = true := by
      simpa only [Cache.isIn_iff, hget] using new.1
    have hinside := ihinside fun x hx => List.mem_cons_of_mem _ (entered x hx)
    have hsamenext : b.cache.dependencyIds id =
        (v.order.foldl (transformUnit tools) b).cache.dependencyIds id := by
      simp only [Cache.dependencyIds, hget]
    rw [hsamenext] at hinside
    refine .enter ⟨hnew, new.2⟩ hinside ?_
    simpa only [List.foldl_append, List.foldl_cons, List.foldl_nil] using ihfurther hinner

/-! ### Transforming a batch -/

/-- Some units of a build have been transformed for others, in a certain order. -/
structure Transforms (tools : Toolchain Tree Value) (b : Build Tree Value Listener)
    (ids order : List UnitId) (t : Verdict Tree Value Listener) : Prop where
  ends : ∃ seen done, Transforming tools ⟨[], b⟩ ids ⟨seen, done⟩ ∧
    t = done.check ids .transform b.reporter.mark
  nodup : order.Nodup
  mem_iff : ∀ id, id ∈ order ↔ Reaches b.cache ids id
  sorted : ∀ id ∈ order, ∀ d ∈ order, b.cache.Imports id d → ¬ LeadsParsed b.cache d id →
    order.idxOf d < order.idxOf id
  calls : ∃ targets : List (UnitId × Target Tree), targets.map (·.1) = order ∧
    (∀ p ∈ targets, source? b.cache p.1 = some p.2) ∧
    t.build.history = b.history ++ targets.map (fun p => .transformed p.1 p.2.address p.2.kind) ∧
    t.build.reporter = b.reporter.reportAll
      (targets.flatMap fun p => (tools.transform p.2 b.project).diagnostics)
  passed : t.build.reporter.errorsSince b.reporter.mark = [] →
    t.failed = none ∧ t.build.cache.size = b.cache.size ∧
    ∀ id u, b.cache.get? id = some u →
      (id ∈ order → ∃ tree, u.tree = some tree ∧
        t.build.cache.get? id = some { u with
          state := .transformed
          transformed := some (tools.transform ⟨u.address, u.kind, tree⟩ b.project).value }) ∧
      (id ∉ order → t.build.cache.get? id = some u)

variable {b : Build Tree Value Listener}

theorem source?_of_parsed (trees : ∀ id u, b.cache.get? id = some u → u.state = .parsed →
      u.tree.isSome) {id : UnitId} (hp : b.cache.isIn .parsed id = true) :
    (source? b.cache id).isSome := by
  obtain ⟨u, hu, hp⟩ := Cache.isIn_iff.mp hp
  simpa [source?, hu] using trees id u hu hp

/-- A unit whose turn came has been transformed. -/
theorem get?_transformUnits {ids : List UnitId} (nodup : ids.Nodup)
    (sources : ∀ id ∈ ids, (source? b.cache id).isSome) {id : UnitId} (hid : id ∈ ids)
    {u : SourceUnit Tree Value Listener} (hu : b.cache.get? id = some u)
    (parsed : u.state = .parsed) : ∃ tree, u.tree = some tree ∧
      (ids.foldl (transformUnit tools) b).cache.get? id = some { u with
        state := .transformed
        transformed := some (tools.transform ⟨u.address, u.kind, tree⟩ b.project).value } := by
  obtain ⟨target, htarget⟩ := Option.isSome_iff_exists.mp (sources id hid)
  obtain ⟨w, tree, hw, htree, -⟩ := source?_eq_some.mp htarget
  obtain rfl := Option.some.inj (hu.symm.trans hw)
  have hget := Cache.get?_foldl_modify (f := (·.lowered tools b.project)) nodup b.cache id
  rw [if_pos hid, hu, Option.map_some, SourceUnit.lowered_of_tree htree parsed] at hget
  refine ⟨tree, htree, ?_⟩
  rw [transformUnits_of_sources sources]
  exact hget

/-- Transforming some units ends, with the parsed ones among them and those that these lead
to through parsed units transformed, each of them once. One that another imports comes first,
unless it leads back to the other through parsed units. When no error is reported, all of
them have become transformed, and nothing else has changed. -/
theorem transforms (tools : Toolchain Tree Value) (b : Build Tree Value Listener)
    (ids : List UnitId)
    (trees : ∀ id u, b.cache.get? id = some u → u.state = .parsed → u.tree.isSome) :
    Transforms tools b ids (transformOrder b.cache ids) (b.transform tools ids) := by
  have hsources (id : UnitId) (hid : id ∈ transformOrder b.cache ids) :
      (source? b.cache id).isSome :=
    source?_of_parsed trees (isIn_parsed_of_mem_transformOrder hid)
  have hall : (transformOrder b.cache ids).foldl (transformUnit tools) b = _ :=
    transformUnits_of_sources hsources
  refine ⟨?_, nodup_transformOrder b.cache ids, fun id => mem_transformOrder_iff,
    fun id hid d hd himports back => ?_, ?_, fun fine => ?_⟩
  · obtain ⟨seen, h⟩ := visiting_transformOrder b.cache ids
    exact ⟨seen, _, VisitingParsed.transforming h (by simp), rfl⟩
  · exact idxOf_transformOrder_lt ⟨himports, isIn_parsed_of_mem_transformOrder hd⟩ hid back
  · refine ⟨(transformOrder b.cache ids).filterMap fun id =>
      (source? b.cache id).map fun target => (id, target),
      map_fst_sources id hsources, fun p hp => ?_, ?_, ?_⟩
    · simp only [List.mem_filterMap, Option.map_eq_some_iff] at hp
      obtain ⟨id, -, target, htarget, rfl⟩ := hp
      exact htarget
    · rw [transform, history_check, hall]
    · rw [transform, reporter_check, hall]
  · rw [transform, reporter_check] at fine
    rw [transform, check_of_no_errors fine]
    refine ⟨rfl, ?_, fun id u hu => ⟨fun hid => ?_, fun hid => ?_⟩⟩
    · rw [hall]
      exact Cache.size_foldl_modify _ _ _
    · obtain ⟨w, hw, hp⟩ := Cache.isIn_iff.mp (isIn_parsed_of_mem_transformOrder hid)
      obtain rfl := Option.some.inj (hu.symm.trans hw)
      exact get?_transformUnits (nodup_transformOrder b.cache ids) hsources hid hu hp
    · rw [get?_foldl_transformUnit hid]
      exact hu

/-- Two parsed units that import each other and more, one that is behind a unit that is not
parsed, and one that no other imports. -/
def tangle : Build Program UnitLoader.Value Unit :=
  let unit (address text : String) (ids : List UnitId) : SourceUnit Program UnitLoader.Value Unit :=
    { SourceUnit.new address .module .load with
      state := .parsed
      tree := some (Lang.parse ⟨address, text⟩ .module).value
      dependencies := some ids }
  let units :=
    [unit "/a" "import x from \"/b\"\nexport y = x" [⟨1⟩],
      unit "/b" "import y from \"/a\"\nexport x = 1" [⟨0⟩, ⟨2⟩, ⟨3⟩],
      unit "/c" "export z = 2" [],
      { unit "/d" "import w from \"/e\"" [⟨4⟩] with state := .complete },
      unit "/e" "export w = 3" [],
      unit "/f" "" []]
  let project := Project.empty "/" fun specifier _ => specifier
  ⟨⟨units, 0⟩, .empty, units.foldl (fun p u => p.addModule u.address) project, []⟩

theorem transforms_tangle :
    Transforms Lang.toolchain tangle [⟨0⟩, ⟨1⟩, ⟨3⟩] [⟨2⟩, ⟨1⟩, ⟨0⟩]
        (tangle.transform Lang.toolchain [⟨0⟩, ⟨1⟩, ⟨3⟩]) ∧
      (tangle.transform Lang.toolchain [⟨0⟩, ⟨1⟩, ⟨3⟩]).build.reporter.errorsSince
        tangle.reporter.mark = [] := by
  have trees (id : UnitId) (u : SourceUnit Program UnitLoader.Value Unit)
      (hu : tangle.cache.get? id = some u) (hp : u.state = .parsed) : u.tree.isSome := by
    have hall : ∀ u ∈ tangle.cache.units, u.state = .parsed → u.tree.isSome := by decide +kernel
    exact hall u (List.mem_of_getElem? hu) hp
  exact ⟨transforms Lang.toolchain tangle [⟨0⟩, ⟨1⟩, ⟨3⟩] trees, by decide +kernel⟩

end Build

end UnitLoader
