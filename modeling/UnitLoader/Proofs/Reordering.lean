import UnitLoader.Proofs.Coupling
import UnitLoader.Proofs.OneOrder
import UnitLoader.Text.Unicode

/-! The order of the imports in a text, and how often it repeats them, make no difference to
loading. -/

namespace UnitLoader

variable {Tree Value Listener : Type}

/-! ### Texts -/

namespace Source

variable [Text.Xid] {goal : Goal} {number : Nat} {texts : List (List Char)}

/-- Every line is read on its own, so a text is fine when each of its lines is. -/
theorem errors_readLines_eq_nil_iff : (readLines goal number texts).errors = [] ↔
    ∀ text ∈ texts, ∃ stmts, readLine goal text = .ok stmts := by
  induction texts generalizing number with
  | nil => simp [readLines]
  | cons text texts ih =>
    rw [List.forall_mem_cons, ← @ih (number + 1)]
    cases hr : readLine goal text with
    | error cause => simp [readLines, hr]
    | ok stmts => simp [readLines, hr]

theorem stmt_mem_readLines_iff {stmt : Stmt} :
    stmt ∈ (readLines goal number texts).lines.map (·.stmt) ↔
      ∃ text ∈ texts, ∃ stmts, readLine goal text = .ok stmts ∧ stmt ∈ stmts := by
  induction texts generalizing number with
  | nil => simp [readLines]
  | cons text texts ih =>
    rw [List.exists_mem_cons_iff, ← @ih (number + 1)]
    cases hr : readLine goal text with
    | error cause => simp [readLines, hr]
    | ok stmts => simp [readLines, hr]

end Source

theorem Program.mem_specifiers_iff {p : Program} {specifier : String} :
    specifier ∈ p.specifiers ↔ ∃ names, .imports names specifier ∈ p.lines.map (·.stmt) := by
  simp only [Program.specifiers, List.mem_filterMap, List.mem_map]
  constructor
  · rintro ⟨line, hl, hs⟩
    split at hs
    · next names specifier imports =>
      obtain rfl := Option.some.inj hs
      exact ⟨names, line, hl, imports⟩
    · cases hs
  · rintro ⟨names, line, hl, hs⟩
    exact ⟨line, hl, by rw [hs]⟩

namespace Lang

theorem refuses_eq_false_iff [Text.Xid] {text address : String} {kind : Kind} :
    toolchain.refuses ⟨address, text⟩ kind = false ↔
      (Source.read (Goal.ofKind kind) text).errors = [] := by
  simp only [Toolchain.refuses, toolchain, Lang.parse, List.any_map, List.any_eq_false,
    List.eq_nil_iff_forall_not_mem]
  refine forall_congr' fun e => imp_congr_right fun _ => ?_
  simp [Diagnostic.ofLine, Diagnostic.isError]

/-- Lines may change places and come again: what counts is which lines a text has. -/
theorem readsAlike_of_lines [Text.Xid] {text text' : String}
    (same : ∀ line, line ∈ Text.lines text.toList ↔ line ∈ Text.lines text'.toList) :
    toolchain.ReadsAlike text text' where
  refuses := by
    intro address kind
    rw [Bool.eq_iff_iff, ← Bool.not_eq_false, ← Bool.not_eq_false]
    refine not_congr ?_
    rw [refuses_eq_false_iff, refuses_eq_false_iff]
    simp only [Source.read, Source.errors_readLines_eq_nil_iff, same]
  imports := by
    intro address kind _ specifier
    simp only [toolchain, Lang.parse, Program.mem_specifiers_iff, Source.read,
      Source.stmt_mem_readLines_iff, same]

end Lang

/-- Sources for the same addresses, in the same order, with texts that stand for each other. -/
theorem Fetcher.alike_ofList {R : String → String → Prop}
    {sources sources' : List (String × Except FetchError String)}
    (same : List.Forall₂ (fun a b => a.1 = b.1 ∧ AnswersAlike R a.2 b.2) sources sources')
    (prompt : Bool) : Alike R (ofList sources prompt) (ofList sources' prompt) where
  answer := by
    intro address
    have hlookup {sources sources' : List (String × Except FetchError String)}
        (same : List.Forall₂ (fun a b => a.1 = b.1 ∧ AnswersAlike R a.2 b.2) sources sources') :
        Option.Rel (AnswersAlike R) (sources.lookup address) (sources'.lookup address) := by
      induction same with
      | nil => exact .none
      | @cons a b _ _ hab _ ih =>
        rw [List.lookup_cons, List.lookup_cons, hab.1]
        split
        · exact .some hab.2
        · exact ih
    have hrel := hlookup (List.forall₂_reverse_iff.mpr same)
    simp only [ofList, answerFrom]
    generalize sources.reverse.lookup address = x, sources'.reverse.lookup address = y at hrel
    cases hrel with
    | none => exact .failure _ _
    | some answers => exact answers
  reach := same.length_eq
  prompt := rfl
  log := rfl
  parked := rfl

/-! ### What is loaded -/

/-- What units are to one another, apart from their texts and from what these say. -/
structure UnitOutline where
  address : String
  kind : Kind
  origin : Origin
  state : State
  dependencies : Option (List UnitId)
deriving DecidableEq, Repr

def SourceUnit.outline (u : SourceUnit Tree Value Listener) : UnitOutline :=
  ⟨u.address, u.kind, u.origin, u.state, u.dependencies⟩

theorem SourceUnit.Alike.outline {tools : Toolchain Tree Value} {L : Listener → Listener → Prop}
    {u v : SourceUnit Tree Value Listener} (h : Alike tools L u v) : u.outline = v.outline := by
  rw [SourceUnit.outline, SourceUnit.outline, h.address, h.kind, h.origin, h.state,
    h.dependencies]

theorem Event.executed?_outline (e : Event Value) : e.outline.executed? = e.executed? := by
  cases e <;> rfl

/-- Sessions that have loaded the same units in the same order. -/
structure Session.LoadsAs (s t : Session Tree Value Listener) : Prop where
  units : s.cache.units.map SourceUnit.outline = t.cache.units.map SourceUnit.outline
  fetches : s.fetcher.log = t.fetcher.log
  history : s.history.map Event.outline = t.history.map Event.outline
  executed : s.history.filterMap Event.executed? = t.history.filterMap Event.executed?

theorem Session.Alike.loadsAs {R : String → String → Prop} {L : Listener → Listener → Prop}
    {s t : Session Tree Value Listener} (h : Alike R L s t) : s.LoadsAs t where
  units := h.build.cache.map_eq fun _ _ hu => hu.outline
  fetches := h.fetcher.log
  history := h.build.history
  executed := by
    have hmap (events : List (Event Value)) : events.filterMap Event.executed? =
        (events.map Event.outline).filterMap Event.executed? := by
      rw [List.filterMap_map]
      exact List.filterMap_congr fun e _ => e.executed?_outline.symm
    rw [hmap, hmap t.history, h.build.history]

namespace Host

/-- No error of analysis or execution is on record at any loader. -/
def Unstopped (h : Host Tree Value) : Prop :=
  ∀ loader s, h.session? loader = some s → ∀ d ∈ s.reporter.diagnostics, d.isError = true →
    d.phase ≠ .analyze ∧ d.phase ≠ .evaluate

/-- There is no error of transforming either. -/
theorem RunsBy.untroubled_of_unstopped {tools : Toolchain Tree Value} {h : Host Tree Value}
    (runs : RunsBy tools h) (labels : tools.Labels) (unstopped : h.Unstopped) : h.Untroubled := by
  intro seat hseat d hd error
  obtain ⟨ledger, hrun⟩ := runs.run
  obtain ⟨loader, hget⟩ := List.mem_iff_getElem?.mp hseat
  have hs : h.session? loader = some seat.session := session?_eq hget
  have htransform := (hrun.accountable hs (runs.loaders loader _ hs ▸ labels)).phases d hd
  obtain ⟨hanalyze, hevaluate⟩ := unstopped loader _ hs d hd error
  cases hphase : d.phase with
  | fetch => exact .inl rfl
  | parse => exact .inr rfl
  | analyze => exact absurd hphase hanalyze
  | transform => exact absurd hphase htransform
  | evaluate => exact absurd hphase hevaluate

/-- Two hosts of the plain language whose loaders are asked for the same, and get texts that have
the same specifiers in whatever order and however often, load the same units in the same order,
as long as neither analysis nor execution fails in either of them. -/
theorem Paired.order_irrelevant [Text.Xid] {R : String → String → Prop}
    {h k : Host Program UnitLoader.Value} (paired : Paired Lang.toolchain R h k)
    (hu : h.Unstopped) (ku : k.Unstopped) {loader : Nat}
    {s : Session Program UnitLoader.Value (UnitLoader.Listener UnitLoader.Value)}
    (hs : h.session? loader = some s) : ∃ t, k.session? loader = some t ∧ s.LoadsAs t := by
  obtain ⟨hruns, kruns⟩ := paired.runsBy
  have halike := paired.alike Lang.staged_toolchain
    (hruns.untroubled_of_unstopped Lang.labels_toolchain hu)
    (kruns.untroubled_of_unstopped Lang.labels_toolchain ku)
  rcases halike.sessions loader with ⟨hnone, -⟩ | ⟨s', t, hs', ht, hboth⟩
  · cases hnone.symm.trans hs
  · obtain rfl := Option.some.inj (hs.symm.trans hs')
    exact ⟨t, ht, hboth.loadsAs⟩

/-! ### A script and what it imports -/

def importer (main : String) : Setup Program UnitLoader.Value :=
  .plain Lang.toolchain .default (.ofList [("/main", .ok main),
    ("/a", .ok "import \"/b\"\nexport x = 1"), ("/b", .ok "export y = 2")] true)

def importerHost (main : String) : Host Program UnitLoader.Value :=
  ((((ofSeats []).addLoader (importer main) false).toOption.getD (ofSeats [])).first
    [.carryOut (.request 0 (.loadSync "/main" .script))]).tick

theorem importer_alike {main main' : String} (reads : Lang.toolchain.ReadsAlike main main') :
    (importer main).Alike Lang.toolchain Lang.toolchain.ReadsAlike (importer main') where
  first := rfl
  second := rfl
  config := rfl
  resolver := rfl
  translate := fun _ _ reads => reads
  fetcher := by
    have hkept (text : String) : AnswersAlike Lang.toolchain.ReadsAlike (.ok text) (.ok text) :=
      .text (.refl Lang.toolchain text)
    simp only [importer, Setup.plain]
    refine Fetcher.alike_ofList ?_ true
    exact .cons ⟨rfl, .text reads⟩ (.cons ⟨rfl, hkept _⟩ (.cons ⟨rfl, hkept _⟩ .nil))

theorem paired_importerHost {main main' : String} (reads : Lang.toolchain.ReadsAlike main main') :
    Paired Lang.toolchain Lang.toolchain.ReadsAlike (importerHost main) (importerHost main') :=
  ((Paired.empty.join (importer_alike reads) false rfl rfl).ask (.request 0 _)).tick

/-- The loader of the script when the text of this has arrived. -/
def arrivedMain (main : String) :
    Session Program UnitLoader.Value (UnitLoader.Listener UnitLoader.Value) :=
  let s := ({ opened (importer main) .empty with sync := true }.find "/main" .script).session
  ((s.started ⟨0⟩).fetched ⟨0⟩).withText ⟨0⟩ main

/-- The script is read, and its imports are about to be found. -/
def readMain (main : String) :
    Session Program UnitLoader.Value (UnitLoader.Listener UnitLoader.Value) :=
  let s := arrivedMain main
  ({ s with toBuild := (s.toBuild.parse s.tools ⟨0⟩).build }.modifyUnit ⟨0⟩
    (·.advance .parsed)).onBuild (·.register ⟨0⟩)

/-- The imports are found in the order of these specifiers, and none of them is loaded. -/
def foundMain (main : String) (specifiers : List String) :
    Session Program UnitLoader.Value (UnitLoader.Listener UnitLoader.Value) :=
  let s := readMain main
  let found := Session.importUnits (s.referrer ⟨0⟩) specifiers [] s.toBuild
  { s with toBuild := found.2.modify ⟨0⟩ (·.fixDependencies found.1) }

def loadedMain (main : String) (specifiers : List String) :
    Session Program UnitLoader.Value (UnitLoader.Listener UnitLoader.Value) :=
  let s := foundMain main specifiers
  { ((s.cache.dependencyIds ⟨0⟩).foldl (Session.loadUnit 4) s).checkBarrier with
    sync := (importer main).config.sync }

theorem seats_importerHost (main : String) (specifiers : List String)
    (passed : ((arrivedMain main).toBuild.parse Lang.toolchain ⟨0⟩).passed = true)
    (sorted : ((readMain main).toBuild.specifiers Lang.toolchain ⟨0⟩).mergeSort (· ≤ ·) =
      specifiers)
    (fine : ((foundMain main specifiers).cache.dependencyIds ⟨0⟩).find?
      ((foundMain main specifiers).cache.isIn .error) = none) :
    (importerHost main).seats = [⟨loadedMain main specifiers, false, false⟩] := by
  have hseats : (importerHost main).seats =
      [⟨((opened (importer main) .empty).loadSync "/main" .script).session, false, false⟩] := rfl
  have hunderstood : (arrivedMain main).understood ⟨0⟩ = foundMain main specifiers := by
    rw [← sorted]
    rfl
  have hload : Session.loadUnit 5
      ({ opened (importer main) .empty with sync := true }.find "/main" .script).session ⟨0⟩ =
      Session.handleLoaded (Session.loadUnit 4) (arrivedMain main) ⟨0⟩ :=
    Session.loadUnit_succ rfl rfl 4
  have hloaded : Session.handleLoaded (Session.loadUnit 4) (arrivedMain main) ⟨0⟩ =
      (((foundMain main specifiers).cache.dependencyIds ⟨0⟩).foldl (Session.loadUnit 4)
        (foundMain main specifiers)).checkBarrier := by
    rw [Session.handleLoaded_eq, hunderstood, fine]
    exact if_pos passed
  have hsession : ((opened (importer main) .empty).loadSync "/main" .script).session =
      loadedMain main specifiers := by
    rw [loadedMain, ← hloaded]
    exact congrArg (fun s => ({ s with sync := (importer main).config.sync } : Session _ _ _)) hload
  rw [hseats, hsession]

def mainText : String :=
  "import \"./b\"\nimport x from \"/a\"\nimport \"./a\"\nx"

/-- The imports stand in another order, one of them twice and some behind the last statement. -/
def shuffledText : String :=
  "import \"./a\"\nimport x from \"/a\"\nx\nimport \"./b\"\nimport \"./a\""

/-- Whichever of the texts the script has, its imports are executed in the same order, the one
that two specifiers lead to only once. -/
theorem Paired.order_irrelevant_importerHost :
    ∃ s t : Session Program UnitLoader.Value (UnitLoader.Listener UnitLoader.Value),
      (importerHost mainText).session? 0 = some s ∧
      (importerHost shuffledText).session? 0 = some t ∧
      s.history.filterMap Event.executed? = [⟨2⟩, ⟨1⟩, ⟨0⟩] ∧ s.LoadsAs t := by
  have hunstopped {main : String} {specifiers : List String}
      (seats : (importerHost main).seats = [⟨loadedMain main specifiers, false, false⟩])
      (silent : (loadedMain main specifiers).reporter.diagnostics = []) :
      (importerHost main).Unstopped := by
    intro loader s hs d hd
    obtain ⟨seat, hseat, rfl⟩ := seat_of_session? hs
    have hmem := List.mem_of_getElem? hseat
    rw [seats, List.mem_singleton] at hmem
    rw [hmem, silent] at hd
    cases hd
  have hread : (readMain mainText).toBuild.specifiers Lang.toolchain ⟨0⟩ =
      ["./b", "/a", "./a"] := by decide +kernel
  have hread' : (readMain shuffledText).toBuild.specifiers Lang.toolchain ⟨0⟩ =
      ["./a", "/a", "./b", "./a"] := by decide +kernel
  have hseats := seats_importerHost mainText ["./a", "./b", "/a"] (by decide +kernel)
    (by rw [hread]; simp [List.mergeSort]) (by decide +kernel)
  have hseats' := seats_importerHost shuffledText ["./a", "./a", "./b", "/a"] (by decide +kernel)
    (by rw [hread']; simp [List.mergeSort]) (by decide +kernel)
  have hreads : Lang.toolchain.ReadsAlike mainText shuffledText := by
    have hsub : Text.lines mainText.toList ⊆ Text.lines shuffledText.toList := by decide +kernel
    have hsub' : Text.lines shuffledText.toList ⊆ Text.lines mainText.toList := by decide +kernel
    exact Lang.readsAlike_of_lines fun _ => ⟨fun hl => hsub hl, fun hl => hsub' hl⟩
  have hs : (importerHost mainText).session? 0 = some (loadedMain mainText ["./a", "./b", "/a"]) := by
    rw [session?, hseats]
    rfl
  obtain ⟨t, ht, hloads⟩ := Paired.order_irrelevant (paired_importerHost hreads)
    (hunstopped hseats (by decide +kernel)) (hunstopped hseats' (by decide +kernel)) hs
  exact ⟨_, t, hs, ht, by decide +kernel, hloads⟩

end Host

end UnitLoader
