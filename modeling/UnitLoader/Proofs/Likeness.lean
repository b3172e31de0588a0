import UnitLoader.Proofs.Rearranging
import UnitLoader.Proofs.Reporting
import UnitLoader.Proofs.Visiting

/-! Builds that differ in nothing that loading depends on. Their units have the same addresses,
states and dependencies; their texts are taken alike by the parser and import from the same
specifiers. What is reported, exported and computed may differ. -/

namespace UnitLoader

variable {Tree Value Listener : Type}

namespace Toolchain

/-- Trees that import from the same specifiers, in whatever order and however often. -/
def ImportsAlike (tools : Toolchain Tree Value) (tree tree' : Tree) : Prop :=
  ∀ specifier, specifier ∈ tools.specifiers tree ↔ specifier ∈ tools.specifiers tree'

def refuses (tools : Toolchain Tree Value) (file : SourceFile) (kind : Kind) : Bool :=
  (tools.parse file kind).diagnostics.any Diagnostic.isError

/-- Texts that are both refused or import from the same specifiers. -/
structure ReadsAlike (tools : Toolchain Tree Value) (text text' : String) : Prop where
  refuses : ∀ address kind, tools.refuses ⟨address, text⟩ kind = tools.refuses ⟨address, text'⟩ kind
  imports : ∀ address kind, tools.refuses ⟨address, text⟩ kind = false →
    tools.ImportsAlike (tools.parse ⟨address, text⟩ kind).value
      (tools.parse ⟨address, text'⟩ kind).value

variable (tools : Toolchain Tree Value)

theorem ReadsAlike.refl (text : String) : tools.ReadsAlike text text where
  refuses := fun _ _ => rfl
  imports := fun _ _ _ _ => .rfl

/-- What the stages report names them, and they do not touch the way in which specifiers are
resolved. -/
structure Staged : Prop extends tools.Labels where
  ofTransform : ∀ target p, ∀ d ∈ (tools.transform target p).diagnostics, d.phase = .transform
  resolver : tools.KeepsResolver

end Toolchain

theorem Lang.staged_toolchain [Text.Xid] : Lang.toolchain.Staged where
  toLabels := Lang.labels_toolchain
  ofTransform := by
    intro target p d hd
    simp only [Lang.toolchain, Lowering.transform, List.flatMap_map, List.mem_flatMap] at hd
    obtain ⟨line, -, hd⟩ := hd
    simp only [Lowering.lowerLine] at hd
    split at hd
    · cases hd
    · split at hd
      · cases hd
      · rw [List.mem_singleton.mp hd]
        rfl
    · cases hd
    · cases hd
  resolver := Lang.keepsResolver_toolchain

/-! ### Units -/

namespace SourceUnit

/-- Units that differ in their texts, though not in what these import, and in what has been made
of them. -/
structure Alike (tools : Toolchain Tree Value) (L : Listener → Listener → Prop)
    (u v : SourceUnit Tree Value Listener) : Prop where
  address : u.address = v.address
  kind : u.kind = v.kind
  origin : u.origin = v.origin
  state : u.state = v.state
  dependencies : u.dependencies = v.dependencies
  cancellable : u.cancellable = v.cancellable
  text : Option.Rel tools.ReadsAlike u.text v.text
  tree : Option.Rel tools.ImportsAlike u.tree v.tree
  result : u.result.isSome = v.result.isSome
  listeners : List.Forall₂ L u.listeners v.listeners

variable {tools : Toolchain Tree Value} {L : Listener → Listener → Prop}
  {u v : SourceUnit Tree Value Listener}

theorem alike_new (address : String) (kind : Kind) (origin : Origin) :
    Alike tools L (.new address kind origin : SourceUnit Tree Value Listener)
      (.new address kind origin) :=
  ⟨rfl, rfl, rfl, rfl, rfl, rfl, .none, .none, rfl, .nil⟩

theorem likens_alike : Likens (Alike tools L) where
  isAt := by
    intro u v h address kind
    rw [Cache.isAt, Cache.isAt, h.origin, h.address, h.kind]
  new := fun address kind => alike_new address kind .load

theorem Alike.reads (h : Alike tools L u v) : tools.ReadsAlike (u.text.getD "") (v.text.getD "") := by
  have htext := h.text
  generalize u.text = x, v.text = y at htext
  cases htext with
  | none => exact .refl tools ""
  | some reads => exact reads

theorem Alike.dependencyIds (h : Alike tools L u v) : u.dependencyIds = v.dependencyIds := by
  rw [SourceUnit.dependencyIds, h.dependencies, SourceUnit.dependencyIds]

theorem Alike.advance (h : Alike tools L u v) (state : State) :
    Alike tools L (u.advance state) (v.advance state) := by
  simp only [SourceUnit.advance, h.state]
  split
  · exact { h with state := rfl }
  · exact h

theorem Alike.recordError (h : Alike tools L u v) (e e' : LoadError) :
    Alike tools L (u.recordError e) (v.recordError e') :=
  { h with }

theorem Alike.fail (h : Alike tools L u v) (e e' : LoadError) :
    Alike tools L (u.fail e) (v.fail e') := by
  simp only [SourceUnit.fail, h.state]
  split
  · exact h
  · exact { h.recordError e e' with state := rfl }

theorem Alike.fixDependencies (h : Alike tools L u v) (ids : List UnitId) :
    Alike tools L (u.fixDependencies ids) (v.fixDependencies ids) :=
  { h with dependencies := by rw [SourceUnit.fixDependencies, h.dependencies]; rfl }

theorem Alike.finish (h : Alike tools L u v) (value value' : Value) :
    Alike tools L (u.finish value) (v.finish value') :=
  { h with text := .none, result := rfl }

theorem Alike.hushed (h : Alike tools L u v) :
    Alike tools L { u with listeners := [] } { v with listeners := [] } :=
  { h with listeners := .nil }

theorem Alike.withText (h : Alike tools L u v) {text text' : String}
    (reads : tools.ReadsAlike text text') :
    Alike tools L { u with text := some text } { v with text := some text' } :=
  { h with text := .some reads }

theorem Alike.withTree (h : Alike tools L u v) {tree tree' : Tree}
    (imports : tools.ImportsAlike tree tree') :
    Alike tools L { u with tree := some tree } { v with tree := some tree' } :=
  { h with tree := .some imports }

theorem Alike.withTransformed (h : Alike tools L u v) (tree tree' : Tree) :
    Alike tools L { u with transformed := some tree } { v with transformed := some tree' } :=
  { h with }

theorem Alike.withCancellable (h : Alike tools L u v) (cancellable : Bool) :
    Alike tools L { u with cancellable := cancellable } { v with cancellable := cancellable } :=
  { h with cancellable := rfl }

end SourceUnit

/-! ### Caches -/

section Lists

variable {α β : Type} {R : α → β → Prop} {xs : List α} {ys : List β}

theorem forall₂_cases (h : List.Forall₂ R xs ys) : (xs = [] ∧ ys = []) ∨
    ∃ x xs' y ys', xs = x :: xs' ∧ ys = y :: ys' ∧ R x y ∧ List.Forall₂ R xs' ys' := by
  cases h with
  | nil => exact .inl ⟨rfl, rfl⟩
  | cons hab hrest => exact .inr ⟨_, _, _, _, rfl, rfl, hab, hrest⟩

theorem forall₂_getElem? (h : List.Forall₂ R xs ys) (i : Nat) : Option.Rel R xs[i]? ys[i]? := by
  induction h generalizing i with
  | nil => exact .none
  | cons hab _ ih =>
    cases i with
    | zero => exact .some hab
    | succ i => exact ih i

theorem forall₂_modify (h : List.Forall₂ R xs ys) (i : Nat) {f : α → α} {g : β → β}
    (hfg : ∀ a b, R a b → R (f a) (g b)) : List.Forall₂ R (xs.modify i f) (ys.modify i g) := by
  induction h generalizing i with
  | nil => simp
  | cons hab hrest ih =>
    cases i with
    | zero => exact .cons (hfg _ _ hab) hrest
    | succ i => exact .cons hab (ih i)

theorem map_eq_of_forall₂ {γ : Type} (h : List.Forall₂ R xs ys) {f : α → γ} {g : β → γ}
    (hfg : ∀ a b, R a b → f a = g b) : xs.map f = ys.map g := by
  rw [← List.forall₂_eq_eq_eq, List.forall₂_map_left_iff, List.forall₂_map_right_iff]
  exact h.imp hfg

end Lists

namespace Cache

/-- Caches whose units are alike, one by one. -/
def Alike (tools : Toolchain Tree Value) (L : Listener → Listener → Prop)
    (c d : Cache Tree Value Listener) : Prop :=
  List.Forall₂ (SourceUnit.Alike tools L) c.units d.units

variable {tools : Toolchain Tree Value} {L : Listener → Listener → Prop}
  {c d : Cache Tree Value Listener}

theorem Alike.get? (h : Alike tools L c d) (id : UnitId) :
    Option.Rel (SourceUnit.Alike tools L) (c.get? id) (d.get? id) :=
  forall₂_getElem? h id.index

theorem Alike.map_eq (h : Alike tools L c d) {α : Type} {f : SourceUnit Tree Value Listener → α}
    (hf : ∀ u v, u.Alike tools L v → f u = f v) : c.units.map f = d.units.map f :=
  map_eq_of_forall₂ h hf

theorem Alike.cases (h : Alike tools L c d) (id : UnitId) :
    (c.get? id = none ∧ d.get? id = none) ∨
      ∃ u v, c.get? id = some u ∧ d.get? id = some v ∧ u.Alike tools L v := by
  have hrel := h.get? id
  generalize c.get? id = x, d.get? id = y at hrel
  cases hrel with
  | none => exact .inl ⟨rfl, rfl⟩
  | some hu => exact .inr ⟨_, _, rfl, rfl, hu⟩

theorem Alike.size (h : Alike tools L c d) : c.size = d.size :=
  h.length_eq

theorem Alike.ids (h : Alike tools L c d) : c.ids = d.ids :=
  ids_eq_of_size_eq h.size

theorem Alike.isIn (h : Alike tools L c d) (state : State) (id : UnitId) :
    c.isIn state id = d.isIn state id := by
  rcases h.cases id with ⟨hc, hd⟩ | ⟨u, v, hc, hd, hu⟩
  · simp [Cache.isIn, state?, hc, hd]
  · rw [isIn_eq hc, isIn_eq hd, hu.state]

theorem Alike.addressOf (h : Alike tools L c d) (id : UnitId) : c.addressOf id = d.addressOf id := by
  rcases h.cases id with ⟨hc, hd⟩ | ⟨u, v, hc, hd, hu⟩
  · rw [Cache.addressOf, hc, Cache.addressOf, hd]
  · rw [addressOf_eq hc, addressOf_eq hd, hu.address]

theorem Alike.dependencyIds (h : Alike tools L c d) (id : UnitId) :
    c.dependencyIds id = d.dependencyIds id := by
  rcases h.cases id with ⟨hc, hd⟩ | ⟨u, v, hc, hd, hu⟩
  · rw [Cache.dependencyIds, hc, Cache.dependencyIds, hd]
  · rw [dependencyIds_eq hc, dependencyIds_eq hd, hu.dependencyIds]

theorem Alike.areAll (h : Alike tools L c d) (p : State → Bool) : c.areAll p = d.areAll p := by
  have hall (c : Cache Tree Value Listener) : c.areAll p = (c.units.map (·.state)).all p := by
    rw [List.all_map]
    rfl
  rw [hall, hall, h.map_eq fun _ _ hu => hu.state]

theorem Alike.hasAny (h : Alike tools L c d) (p : State → Bool) : c.hasAny p = d.hasAny p := by
  have hany (c : Cache Tree Value Listener) : c.hasAny p = (c.units.map (·.state)).any p := by
    rw [List.any_map]
    rfl
  rw [hany, hany, h.map_eq fun _ _ hu => hu.state]

theorem Alike.countOf (h : Alike tools L c d) (origin : Origin) :
    c.countOf origin = d.countOf origin := by
  have hcount (c : Cache Tree Value Listener) :
      c.countOf origin = (c.units.map (·.origin)).countP (· = origin) := by
    rw [List.countP_map]
    rfl
  rw [hcount, hcount, h.map_eq fun _ _ hu => hu.origin]

theorem Alike.evaluationOrder (h : Alike tools L c d) : c.evaluationOrder = d.evaluationOrder :=
  evaluationOrder_congr h.size h.dependencyIds

theorem Alike.transformOrder (h : Alike tools L c d) (ids : List UnitId) :
    Build.transformOrder c ids = Build.transformOrder d ids := by
  obtain ⟨seen, hc⟩ := Build.visiting_transformOrder c ids
  obtain ⟨seen', hd⟩ := Build.visiting_transformOrder d ids
  have hmay : (fun id => c.isIn .parsed id = true) = fun id => d.isIn .parsed id = true := by
    funext id
    rw [h.isIn]
  rw [hmay, funext h.dependencyIds] at hc
  exact (Build.Visited.mk.inj (hd.unique hc)).2

theorem Alike.modify (h : Alike tools L c d) (id : UnitId)
    {f g : SourceUnit Tree Value Listener → SourceUnit Tree Value Listener}
    (hfg : ∀ u v, u.Alike tools L v → (f u).Alike tools L (g v)) :
    Alike tools L (c.modify id f) (d.modify id g) :=
  forall₂_modify h id.index hfg

theorem Alike.push (h : Alike tools L c d) {u v : SourceUnit Tree Value Listener}
    (hu : u.Alike tools L v) : Alike tools L (c.push u) (d.push v) :=
  List.rel_append h (.cons hu .nil)

theorem Alike.insertEval (h : Alike tools L c d) (base : String) (kind : Kind) :
    Alike tools L (c.insertEval base kind).cache (d.insertEval base kind).cache := by
  simp only [Cache.insertEval, nextEvalAddress, h.countOf]
  exact h.push (SourceUnit.alike_new _ kind .eval)

end Cache

/-! ### Builds -/

/-- An event without the code that was run and what this gave. -/
def Event.outline : Event Value → Event Unit
  | requested id address => .requested id address
  | received id address => .received id address
  | fetched id address => .fetched id address
  | cancelled id address => .cancelled id address
  | parsed id address kind => .parsed id address kind
  | analyzed ids addresses => .analyzed ids addresses
  | transformed id address kind => .transformed id address kind
  | executed id _ _ => .executed id "" (.ok ())

namespace Build

structure Alike (tools : Toolchain Tree Value) (L : Listener → Listener → Prop)
    (b b' : Build Tree Value Listener) : Prop where
  cache : b.cache.Alike tools L b'.cache
  resolver : b'.project.resolver = b.project.resolver
  history : b.history.map Event.outline = b'.history.map Event.outline

variable {tools : Toolchain Tree Value} {L : Listener → Listener → Prop}
  {b b' : Build Tree Value Listener} {id : UnitId}

theorem Alike.modify (h : Alike tools L b b') (id : UnitId)
    {f g : SourceUnit Tree Value Listener → SourceUnit Tree Value Listener}
    (hfg : ∀ u v, u.Alike tools L v → (f u).Alike tools L (g v)) :
    Alike tools L (b.modify id f) (b'.modify id g) :=
  { h with cache := h.cache.modify id hfg }

theorem Alike.record (h : Alike tools L b b') {e e' : Event Value} (same : e.outline = e'.outline) :
    Alike tools L (b.record e) (b'.record e') :=
  { h with history := by simp [Build.record, h.history, same] }

theorem resolver_addModule (p : Project) (address : String) :
    (p.addModule address).resolver = p.resolver := by
  rw [Project.addModule]
  split <;> rfl

theorem resolver_setParsed (p : Project) (name : String) :
    (p.setParsed name).resolver = p.resolver := by
  rw [Project.setParsed]
  split <;> rfl

theorem Alike.register (h : Alike tools L b b') (id : UnitId) :
    Alike tools L (b.register id) (b'.register id) := by
  simp only [Build.register]
  rcases h.cache.cases id with ⟨hc, hd⟩ | ⟨u, v, hc, hd, hu⟩
  · simpa only [hc, hd] using h
  · simp only [hc, hd]
    exact { h with resolver := by simp only [resolver_addModule, h.resolver] }

theorem Alike.parse (h : Alike tools L b b') (id : UnitId) :
    (b.parse tools id).passed = (b'.parse tools id).passed ∧
      Alike tools L (b.parse tools id).build (b'.parse tools id).build := by
  simp only [Build.parse]
  rcases h.cache.cases id with ⟨hc, hd⟩ | ⟨u, v, hc, hd, hu⟩
  · simpa only [hc, hd, true_and] using h
  · have hrefuses := hu.reads.refuses v.address v.kind
    have himports := hu.reads.imports v.address v.kind
    have htold := (h.record (e := .parsed id v.address v.kind) rfl).history
    simp only [Toolchain.refuses] at hrefuses himports
    simp only [hc, hd, hu.address, hu.kind, hrefuses]
    split
    · exact ⟨rfl, h.cache, h.resolver, htold⟩
    · next good =>
      refine ⟨rfl, ?_, ?_, htold⟩
      · refine h.cache.modify id fun _ _ hw => hw.withTree (himports ?_)
        rw [hrefuses]
        exact Bool.eq_false_iff.mpr good
      · simp only [resolver_setParsed]
        exact h.resolver

theorem Alike.specifiers (h : Alike tools L b b') (id : UnitId) (x : String) :
    x ∈ b.specifiers tools id ↔ x ∈ b'.specifiers tools id := by
  simp only [Build.specifiers]
  rcases h.cache.cases id with ⟨hc, hd⟩ | ⟨u, v, hc, hd, hu⟩
  · simp only [hc, hd, Option.bind_none]
  · simp only [hc, hd, Option.bind_some]
    have htree := hu.tree
    generalize u.tree = x, v.tree = y at htree
    cases htree with
    | none => rfl
    | some imports => exact imports x

end Build

end UnitLoader
