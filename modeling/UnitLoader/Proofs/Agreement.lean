import UnitLoader.Lang.Toolchain
import UnitLoader.Proofs.Twins

/-! The order in which fetches are answered makes no difference to how a batch of the
line-oriented language ends. Twins have the same code, which runs at the same time and
gives the same value, and a batch that something stops is stopped whatever the order. -/

namespace UnitLoader

variable {Tree Value Listener : Type}

/-! ### Running the codes of twins -/

def Together {α : Type} (R : UnitId → UnitId → Prop) (x y : UnitId × α) : Prop :=
  R x.1 y.1 ∧ x.2 = y.2

inductive Event.Together (R : UnitId → UnitId → Prop) : Event Value → Event Value → Prop
  | executed {i j : UnitId} {code : String} {result : Except String Value} (units : R i j) :
      Event.Together R (.executed i code result) (.executed j code result)

/-- Two runs of the same codes. -/
structure Ran.Together (R : UnitId → UnitId → Prop) (ran ran' : Ran Value) : Prop where
  results : List.Forall₂ (UnitLoader.Together R) ran.results ran'.results
  events : List.Forall₂ (Event.Together R) ran.events ran'.events
  ns : ran.ns = ran'.ns
  failed : ran.failed = none ↔ ran'.failed = none

theorem Toolchain.runAll_together (tools : Toolchain Tree Value) {R : UnitId → UnitId → Prop}
    {codes codes' : List (UnitId × String)} (h : List.Forall₂ (Together R) codes codes')
    (ns : Namespace Value) : Ran.Together R (tools.runAll ns codes) (tools.runAll ns codes') := by
  induction h generalizing ns with
  | nil => exact ⟨.nil, .nil, rfl, .rfl⟩
  | @cons c c' rest rest' hc _ ih =>
    obtain ⟨i, code⟩ := c
    obtain ⟨j, code'⟩ := c'
    obtain ⟨hij, rfl⟩ : R i j ∧ code = code' := hc
    simp only [runAll]
    cases (tools.execute code ns).result with
    | error message => exact ⟨.nil, .cons (.executed hij) .nil, rfl, by simp⟩
    | ok value =>
      have hrest := ih (tools.execute code ns).ns
      exact ⟨.cons ⟨hij, rfl⟩ hrest.results, .cons (.executed hij) hrest.events, hrest.ns,
        hrest.failed⟩

theorem lookup_together {α : Type} {R : UnitId → UnitId → Prop} {xs ys : List (UnitId × α)}
    (h : List.Forall₂ (Together R) xs ys) {i j : UnitId}
    (unique : ∀ i' j', R i' j' → (i = i' ↔ j = j')) : xs.lookup i = ys.lookup j := by
  induction h with
  | nil => rfl
  | @cons x y xs ys hxy _ ih =>
    obtain ⟨i', a⟩ := x
    obtain ⟨j', b⟩ := y
    obtain ⟨hij', rfl⟩ : R i' j' ∧ a = b := hxy
    have hsame := unique i' j' hij'
    rw [List.lookup_cons, List.lookup_cons, ih]
    by_cases hi : i = i'
    · have hj : j = j' := hsame.mp hi
      simp [hi, hj]
    · have hne : (i == i') = false := by simpa using hi
      have hne' : (j == j') = false := by simpa using mt hsame.mpr hi
      rw [hne, hne']

namespace Session

variable {sources : Sources} {s m m' : Session Tree Value Listener} {i j : UnitId}

section Twins

variable (g : Grown sources s m) (g' : Grown sources s m') (arrived : m.Arrived)
  (arrived' : m'.Arrived)
include g g' arrived arrived'

theorem isIn_twin (h : Twin s m m' i j) (state : State) :
    m'.cache.isIn state j = m.cache.isIn state i := by
  obtain ⟨v, hv⟩ := g.get?_of_twin h
  rw [Cache.isIn_eq hv, Cache.isIn_eq (g.twin_unit g' arrived arrived' h hv)]

theorem source?_twin (h : Twin s m m' i j) :
    Build.source? m'.cache j = Build.source? m.cache i := by
  obtain ⟨v, hv⟩ := g.get?_of_twin h
  rw [Build.source?, Build.source?, hv, g.twin_unit g' arrived arrived' h hv]
  rfl

theorem valueNote?_twin (h : Twin s m m' i j) (value : Value) :
    m'.valueNote? (j, value) = m.valueNote? (i, value) := by
  obtain ⟨v, hv⟩ := g.get?_of_twin h
  have hw := g.twin_unit g' arrived arrived' h hv
  cases h with
  | old known =>
    simp only [valueNote?, hv]
    rw [hw]
    rfl
  | new left right found found' =>
    have hnew : v.listeners = [] := by
      rcases (g.new hv (Cache.get?_eq_none_iff.mpr left)).2 with he | ha
      · rw [he]
        rfl
      · exact ha.listeners
    simp only [valueNote?, hv]
    rw [hw]
    simp [hnew]

theorem mem_lowerings_twin (hs : s.AtRest) {t : UnitId × Target Tree} (h : t ∈ m.lowerings) :
    ∃ t' ∈ m'.lowerings, t'.2 = t.2 := by
  obtain ⟨i, hi, hsource⟩ := List.mem_filterMap.mp h
  obtain ⟨target, ht, rfl⟩ := Option.map_eq_some_iff.mp hsource
  have hp := Build.isIn_parsed_of_mem_transformOrder hi
  obtain ⟨v, hv, -⟩ := Cache.isIn_iff.mp hp
  obtain ⟨j, hij⟩ := g.exists_twin g' hs arrived' (Cache.index_lt_of_get? hv)
  refine ⟨(j, target), List.mem_filterMap.mpr ⟨j, ?_, ?_⟩, rfl⟩
  · rw [Build.mem_transformOrder_ids, isIn_twin g g' arrived arrived' hij, hp]
  · rw [source?_twin g g' arrived arrived' hij, ht]
    rfl

end Twins

/-! ### Batches of the line-oriented language -/

section Language

variable [Text.Xid] {s m m' : Session Program UnitLoader.Value Listener} (g : Grown sources s m)
  (g' : Grown sources s m') (hs : s.AtRest) (arrived : m.Arrived) (arrived' : m'.Arrived)
  (tools : s.tools = Lang.toolchain)
include g g' hs arrived arrived' tools

theorem analysis_twins : m.analysis.value.Alike m'.analysis.value ∧
    ∀ d, d ∈ m.analysis.diagnostics ↔ d ∈ m'.analysis.diagnostics := by
  have hanalysis (n : Session Program UnitLoader.Value Listener) (hn : n.tools = Lang.toolchain) :
      n.analysis = Linking.analyze ((Build.targets n.cache).map (·.2)) n.project := by
    rw [analysis, hn]
    rfl
  rw [hanalysis m (g.terms.tools.trans tools), hanalysis m' (g'.terms.tools.trans tools)]
  exact Linking.analyze_alike (g.filter_targets g' hs arrived arrived')
    (g.alike g' hs arrived arrived')

theorem transform_twins (target : Target Program) :
    m'.tools.transform target m'.analysis.value = m.tools.transform target m.analysis.value := by
  have halike := (analysis_twins g g' hs arrived arrived' tools).1
  rw [g.terms.tools, g'.terms.tools, tools]
  exact Lowering.transform_congr halike target

theorem codes_twins : List.Forall₂ (Together (Twin s m m')) m.codes m'.codes := by
  rw [codes, codes, List.filterMap_filter, List.filterMap_filter]
  refine List.rel_filterMap (fun i j h => ?_) (g.evaluationOrder g' hs arrived arrived')
  rw [isIn_twin g g' arrived arrived' h, source?_twin g g' arrived arrived' h]
  cases m.cache.isIn .parsed i with
  | false => exact .none
  | true =>
    cases Build.source? m.cache i with
    | none => exact .none
    | some target =>
      refine .some ⟨h, ?_⟩
      have htools : m'.tools = m.tools := g'.terms.tools.trans g.terms.tools.symm
      have htransform := transform_twins g g' hs arrived arrived' tools target
      show m.tools.write _ = m'.tools.write _
      rw [htransform, htools]

theorem batchRun_twins : Ran.Together (Twin s m m') m.batchRun m'.batchRun := by
  have htools : m'.tools = m.tools := g'.terms.tools.trans g.terms.tools.symm
  have hns : m'.ns = m.ns := g'.ns.trans g.ns.symm
  rw [batchRun, batchRun, htools, hns]
  exact m.tools.runAll_together (codes_twins g g' hs arrived arrived' tools) m.ns

/-- A batch goes through whatever the order, or in no order. -/
theorem passes_twin (h : m.Passes) : m'.Passes where
  analysis := fun d hd =>
    h.analysis d (((analysis_twins g g' hs arrived arrived' tools).2 d).mpr hd)
  transform := by
    intro t' ht' d hd
    obtain ⟨t, ht, he⟩ := mem_lowerings_twin g' g arrived' arrived hs ht'
    rw [transform_twins g g' hs arrived arrived' tools, ← he] at hd
    exact h.transform t ht d hd
  free := g'.terms.held.trans (g.terms.held.symm.trans h.free)
  run := (batchRun_twins g g' hs arrived arrived' tools).failed.mp h.run

end Language

end Session

end UnitLoader
