import UnitLoader.Address
import UnitLoader.Lang.Toolchain
import UnitLoader.Proofs.Writing
import UnitLoader.Text.Unicode

/-! The meaning of source statements, and that linked code has it. Imports and exports are
interpreted as they stand; executing what they are lowered to, written and read again,
comes to the same values, errors and bindings. -/

namespace UnitLoader

/-! ### Source statements as they stand -/

namespace Direct

structure Outcome where
  result : Except ExecError Value
  ns : Namespace Value

/-- Binds names to what a unit has published, up to the first that it has not. -/
def importNames (source : String) (ns : Namespace Value) :
    List String → Except ExecError Unit × Namespace Value
  | [] => (.ok (), ns)
  | name :: rest =>
    match ns.get? (publishedKey source name) with
    | some value => importNames source (ns.define name value) rest
    | none => (.error (.unpublished source name), ns)

/-- Interprets the lines of the unit at an address; `completion` is the value of the last
expression so far. -/
def run (address : String) (project : Project) (completion : Value) (ns : Namespace Value) :
    List Line → Outcome
  | [] => ⟨.ok completion, ns⟩
  | line :: rest =>
    match line.stmt with
    | .imports names specifier =>
      match importNames (project.resolve specifier address) ns names with
      | (.ok (), ns) => run address project completion ns rest
      | (.error err, ns) => ⟨.error err, ns⟩
    | .exports name e =>
      match e.eval ns with
      | .ok value =>
        run address project completion
          ((ns.define name value).define (publishedKey address name) value) rest
      | .error err => ⟨.error err, ns⟩
    | .binds name e =>
      match e.eval ns with
      | .ok value => run address project completion (ns.define name value) rest
      | .error err => ⟨.error err, ns⟩
    | .publishes source name =>
      match ns.get? name with
      | some value =>
        run address project completion (ns.define (publishedKey source name) value) rest
      | none => ⟨.error (.undefined name), ns⟩
    | .throws e =>
      match e.eval ns with
      | .ok value => ⟨.error (.uncaught value), ns⟩
      | .error err => ⟨.error err, ns⟩
    | .eval e =>
      match e.eval ns with
      | .ok value => run address project value ns rest
      | .error err => ⟨.error err, ns⟩

/-- An outcome as execution reports it. -/
def Outcome.executed (out : Outcome) : Execution.Outcome :=
  ⟨out.result.mapError .stopped, out.ns⟩

end Direct

/-! ### Lowered statements -/

theorem Expr.Fits.linked {goal : Goal} {e : Expr} (h : e.Fits goal) : e.Fits .linked := by
  induction e with
  | int value => trivial
  | str text => trivial
  | name word => exact h
  | published address word => exact ⟨rfl, h.2⟩
  | add left right ihl ihr => exact ⟨ihl h.1, ihr h.2.1, h.2.2⟩

namespace Lowering

variable {address : String} {project : Project}

theorem lowerLine_imports (number : Nat) {names : List String} {specifier : String}
    (h : (lowerLine address project ⟨number, .imports names specifier⟩).diagnostics = []) :
    (lowerLine address project ⟨number, .imports names specifier⟩).value =
      names.map fun name =>
        ⟨number, .binds name (.published (project.resolve specifier address) name)⟩ := by
  cases names with
  | nil => rfl
  | cons first others =>
    simp only [lowerLine] at h ⊢
    split
    · rfl
    · next hm => simp [hm] at h

theorem legible_lowerLine [Text.Xid] {goal : Goal} {line : Line} (h : line.stmt.Legible goal) :
    ∀ l ∈ (lowerLine address project line).value, l.stmt.Legible .linked := by
  have hkeyword (word : String) (hw : word ∈ keywords) : (Token.ident word).Sound :=
    Token.isIdentifier_of_keyword word hw
  have hlet := hkeyword "let" (by decide)
  obtain ⟨number, stmt⟩ := line
  obtain ⟨hfits, hsound⟩ := h
  cases stmt with
  | imports names specifier =>
    intro l hl
    cases names with
    | nil => simp [lowerLine] at hl
    | cons first others =>
      simp only [lowerLine] at hl
      split at hl
      · obtain ⟨name, hname, rfl⟩ := List.mem_map.mp hl
        have hident : (Token.ident name).Sound := by
          refine hsound _ ?_
          rcases List.mem_cons.mp hname with rfl | hname
          · simp [Stmt.tokens]
          · simp [Stmt.tokens, Stmt.moreTokens, hname]
        have hword := hfits.2 name hname
        refine ⟨⟨hword, rfl, hword⟩, ?_⟩
        simp only [Stmt.tokens, Expr.tokens, List.forall_mem_cons]
        exact ⟨hlet, hident, trivial, trivial, trivial, trivial, hident, by simp⟩
      · simp at hl
  | exports name value =>
    obtain ⟨-, hword, hvalue⟩ := hfits
    simp only [Stmt.tokens, List.forall_mem_cons] at hsound
    obtain ⟨-, hident, hequals, hvalue'⟩ := hsound
    have hpublish := hkeyword "publish" (by decide)
    simp only [lowerLine, List.forall_mem_cons, List.not_mem_nil, false_implies, implies_true,
      and_true]
    refine ⟨⟨⟨hword, hvalue.linked⟩, ?_⟩, ⟨rfl, hword⟩, ?_⟩
    · simp only [Stmt.tokens, List.forall_mem_cons]
      exact ⟨hlet, hident, hequals, hvalue'⟩
    · simp only [Stmt.tokens, List.forall_mem_cons]
      exact ⟨hpublish, trivial, hident, by simp⟩
  | binds name value =>
    simp only [lowerLine, List.forall_mem_singleton]
    exact ⟨⟨hfits.1, hfits.2.linked⟩, hsound⟩
  | publishes source name =>
    simp only [lowerLine, List.forall_mem_singleton]
    exact ⟨⟨rfl, hfits.2⟩, hsound⟩
  | throws value =>
    simp only [lowerLine, List.forall_mem_singleton]
    exact ⟨Expr.Fits.linked (e := value) hfits, hsound⟩
  | eval value =>
    simp only [lowerLine, List.forall_mem_singleton]
    exact ⟨Expr.Fits.linked (e := value) hfits, hsound⟩

theorem legible_transform [Text.Xid] {goal : Goal} {target : Target Program}
    (h : ∀ line ∈ target.tree.lines, line.stmt.Legible goal) :
    ∀ l ∈ (transform target project).value.lines, l.stmt.Legible .linked := by
  intro l hl
  obtain ⟨r, hr, hl⟩ := List.mem_flatMap.mp hl
  obtain ⟨line, hline, rfl⟩ := List.mem_map.mp hr
  exact legible_lowerLine (h line hline) l hl

end Lowering

namespace Execution

variable {address : String} {project : Project}

theorem run_congr {lines lines' : List Line} (same : lines'.map Line.stmt = lines.map Line.stmt)
    (fits : ∀ line ∈ lines, line.stmt.Fits .linked) (completion : Value) (ns : Namespace Value) :
    run completion ns lines' = run completion ns lines := by
  induction lines generalizing lines' completion ns with
  | nil =>
    obtain rfl := List.map_eq_nil_iff.mp same
    rfl
  | cons line lines ih =>
    cases lines' with
    | nil => simp at same
    | cons line' lines' =>
      rw [List.map_cons, List.map_cons, List.cons.injEq] at same
      obtain ⟨hline, hlines⟩ := List.forall_mem_cons.mp fits
      have hrest := ih same.2 hlines
      simp only [run, same.1]
      cases hs : line.stmt with
      | imports names specifier =>
        rw [hs] at hline
        exact absurd rfl hline.1
      | exports name value =>
        rw [hs] at hline
        exact absurd hline.1 (by decide)
      | _ => simp only [hrest]

theorem run_importNames (number : Nat) (source : String) (names : List String)
    (completion : Value) (ns : Namespace Value) (rest : List Line) :
    run completion ns
        ((names.map fun name => ⟨number, .binds name (.published source name)⟩) ++ rest) =
      match Direct.importNames source ns names with
      | (.ok (), ns) => run completion ns rest
      | (.error err, ns) => ⟨.error (.stopped err), ns⟩ := by
  induction names generalizing ns with
  | nil => rfl
  | cons name names ih =>
    rw [List.map_cons, List.cons_append, run]
    simp only [Expr.eval, Direct.importNames]
    cases ns.get? (publishedKey source name) with
    | none => rfl
    | some value => exact ih _

/-- Lowered lines run as the source lines are interpreted. -/
theorem run_lowered {lines : List Line}
    (bound : (lines.map (Lowering.lowerLine address project)).flatMap (·.diagnostics) = [])
    (completion : Value) (ns : Namespace Value) :
    run completion ns ((lines.map (Lowering.lowerLine address project)).flatMap (·.value)) =
      (Direct.run address project completion ns lines).executed := by
  induction lines generalizing completion ns with
  | nil => rfl
  | cons line lines ih =>
    obtain ⟨number, stmt⟩ := line
    rw [List.map_cons, List.flatMap_cons, List.append_eq_nil_iff] at bound
    have hrest := ih bound.2
    rw [List.map_cons, List.flatMap_cons]
    cases stmt with
    | imports names specifier =>
      rw [Lowering.lowerLine_imports number bound.1, run_importNames, Direct.run]
      dsimp only
      split
      · exact hrest _ _
      · rfl
    | exports name value =>
      simp only [Lowering.lowerLine, List.cons_append, List.nil_append, run, Direct.run]
      cases value.eval ns with
      | error err => rfl
      | ok v =>
        -- the name that was just bound is what gets published
        have hname : (ns.define name v).get? name = some v := by
          rw [Namespace.get?_define, if_pos rfl]
        simp only [hname]
        exact hrest _ _
    | binds name value =>
      simp only [Lowering.lowerLine, List.singleton_append, run, Direct.run]
      cases value.eval ns with
      | error err => rfl
      | ok v => exact hrest _ _
    | publishes source name =>
      simp only [Lowering.lowerLine, List.singleton_append, run, Direct.run]
      cases ns.get? name with
      | none => rfl
      | some v => exact hrest _ _
    | throws value =>
      simp only [Lowering.lowerLine, List.singleton_append, run, Direct.run]
      cases value.eval ns <;> rfl
    | eval value =>
      simp only [Lowering.lowerLine, List.singleton_append, run, Direct.run]
      cases value.eval ns with
      | error err => rfl
      | ok v => exact hrest _ _

theorem runText_write [Text.Xid] {p : Program} (h : ∀ line ∈ p.lines, line.stmt.Legible .linked)
    (ns : Namespace Value) : runText p.write ns = run .unit ns p.lines := by
  obtain ⟨herrors, hlines⟩ := Source.read_write h
  simp only [runText, herrors, hlines]
  refine run_congr ?_ (fun line hl => (h line hl).fits) .unit ns
  refine List.ext_getElem? fun i => ?_
  rw [List.getElem?_map, List.getElem?_mapIdx, List.getElem?_map, Option.map_map]
  rfl

end Execution

namespace Lang

theorem runText_transform [Text.Xid] {kind : Kind} {file : SourceFile} {address : String} {project : Project}
    (bound : (Lowering.transform ⟨address, kind, (parse file kind).value⟩ project).diagnostics = [])
    (ns : Namespace Value) :
    Execution.runText
        (Lowering.transform ⟨address, kind, (parse file kind).value⟩ project).value.write ns =
      (Direct.run address project .unit ns (parse file kind).value.lines).executed := by
  have hlegible : ∀ l ∈ (Lowering.transform ⟨address, kind, (parse file kind).value⟩
      project).value.lines, l.stmt.Legible .linked :=
    Lowering.legible_transform Source.legible_of_read
  rw [Execution.runText_write hlegible]
  exact Execution.run_lowered bound .unit ns

/-- A text that is lowered without errors is executed as its statements are interpreted:
with the same value or error, and the same namespace. -/
theorem execute_transform [Text.Xid] {kind : Kind} {file : SourceFile} {address : String} {project : Project}
    (bound : (Lowering.transform ⟨address, kind, (parse file kind).value⟩ project).diagnostics = [])
    (ns : Namespace Value) :
    let code := (Lowering.transform ⟨address, kind, (parse file kind).value⟩ project).value.write
    let direct := Direct.run address project .unit ns (parse file kind).value.lines
    execute code ns = ⟨direct.result.mapError ExecError.message, direct.ns⟩ ∧
      (∀ error, (Execution.runText code ns).result ≠ .error (.malformed error)) ∧
      ∀ line, (Execution.runText code ns).result ≠ .error (.moduleSyntax line) := by
  have hrun := runText_transform bound ns
  intro code direct
  have hresult : (Execution.runText code ns).result = direct.result.mapError .stopped := by
    rw [hrun]
    rfl
  refine ⟨?_, fun error => ?_, fun line => ?_⟩
  · simp only [execute, code]
    rw [hrun, Direct.Outcome.executed]
    cases hd : (Direct.run address project .unit ns (parse file kind).value.lines).result with
    | error e => simp [direct, Except.mapError, Execution.Failure.message]
    | ok value => simp [direct, Except.mapError]
  · rw [hresult]
    cases direct.result <;> simp [Except.mapError]
  · rw [hresult]
    cases direct.result <;> simp [Except.mapError]

/-- A module that imports a value, exports it with a carriage return behind it, and fails. -/
theorem execute_transform_failure :
    let file : SourceFile := ⟨"/m", "import x from \"a\"; export y = x + \"\r\"\nthrow y"⟩
    let project := (Project.empty "/" Address.resolve).addModule "/a"
    let code := (Lowering.transform ⟨"/m", .module, (parse file .module).value⟩ project).value.write
    let ns : Namespace Value := ⟨[("/a::x", .str "v")]⟩
    (execute code ns).result = .error "uncaught v\r" ∧
      (execute code ns).ns.get? (publishedKey "/m" "y") = some (.str "v\r") := by
  have hbound : (Lowering.transform ⟨"/m", .module,
      (parse ⟨"/m", "import x from \"a\"; export y = x + \"\r\"\nthrow y"⟩ .module).value⟩
      ((Project.empty "/" Address.resolve).addModule "/a")).diagnostics = [] := by decide +kernel
  have hexecute := (execute_transform hbound ⟨[("/a::x", .str "v")]⟩).1
  intro file project code ns
  rw [hexecute]
  decide +kernel

end Lang

end UnitLoader
