import UnitLoader.Proofs.Meaning

/-! What the code of a unit writes in its namespace. Besides its own names it writes what it
publishes, and that only under its own address: no name has a colon in it, so what is
published under another address, or under another name, has another key. -/

namespace UnitLoader

/-! ### Keys -/

namespace Text

theorem not_isIdentContinue_colon [KeyedXid] : isIdentContinue ':' = false := by
  simp [isIdentContinue, KeyedXid.isContinue_colon]

theorem IsIdentifier.colon_notMem [KeyedXid] {cs : List Char} (h : IsIdentifier cs) : ':' ∉ cs := fun hmem => by
  have hcontinue := h.continues ':' hmem
  rw [not_isIdentContinue_colon] at hcontinue
  cases hcontinue

end Text

theorem append_cons_inj {α : Type} {x : α} {l l' r r' : List α} (hl : x ∉ l) (hl' : x ∉ l')
    (h : l ++ x :: r = l' ++ x :: r') : l = l' ∧ r = r' := by
  induction l generalizing l' with
  | nil =>
    cases l' with
    | nil => exact ⟨rfl, (List.cons.inj h).2⟩
    | cons y l' => exact absurd ((List.cons.inj h).1 ▸ List.mem_cons_self) hl'
  | cons z l ih =>
    cases l' with
    | nil => exact absurd ((List.cons.inj h).1 ▸ List.mem_cons_self) hl
    | cons y l' =>
      obtain ⟨rfl, hrest⟩ := List.cons.inj h
      obtain ⟨rfl, hr⟩ := ih (fun hm => hl (List.mem_cons_of_mem _ hm))
        (fun hm => hl' (List.mem_cons_of_mem _ hm)) hrest
      exact ⟨rfl, hr⟩

/-- A list has one place only for what nothing else in it is like. -/
theorem append_cons_inj_of_forall {α : Type} {P : α → Prop} {l l' r r' : List α} {x y : α}
    (quiet : ∀ z ∈ l ++ r, ¬ P z) (h : l ++ x :: r = l' ++ y :: r') (hy : P y) :
    l = l' ∧ x = y ∧ r = r' := by
  rcases List.append_eq_append_iff.mp h with ⟨front, rfl, hx⟩ | ⟨back, rfl, hx⟩
  · cases front with
    | nil => exact ⟨(List.append_nil _).symm, List.cons.inj hx⟩
    | cons z front =>
      obtain ⟨rfl, rfl⟩ := List.cons.inj hx
      exact absurd hy (quiet y (by simp))
  · cases back with
    | nil =>
      obtain ⟨he, hrest⟩ := List.cons.inj hx
      exact ⟨List.append_nil _, he.symm, hrest.symm⟩
    | cons z back =>
      obtain ⟨rfl, rfl⟩ := List.cons.inj hx
      exact absurd hy (quiet y (by simp))

theorem toList_publishedKey (address name : String) :
    (publishedKey address name).toList = address.toList ++ ':' :: ':' :: name.toList := by
  simp [publishedKey]

/-- Keys are different for different addresses, whatever colons these have. -/
theorem publishedKey_inj {address address' name name' : String} (h : ':' ∉ name.toList)
    (h' : ':' ∉ name'.toList) (same : publishedKey address name = publishedKey address' name') :
    address = address' ∧ name = name' := by
  have hlists := congrArg (·.toList.reverse) same
  simp only [toList_publishedKey, List.reverse_append, List.reverse_cons, List.append_assoc,
    List.singleton_append] at hlists
  obtain ⟨hname, hrest⟩ := append_cons_inj (by simpa using h) (by simpa using h') hlists
  have haddress := (List.cons.inj hrest).2
  exact ⟨String.toList_inj.mp (List.reverse_inj.mp haddress),
    String.toList_inj.mp (List.reverse_inj.mp hname)⟩

theorem publishedKey_ne {address name word : String} (h : ':' ∉ word.toList) :
    publishedKey address name ≠ word := by
  rintro rfl
  simp [toList_publishedKey] at h

/-! ### Running lines -/

def Stmt.Writes (key : String) : Stmt → Prop
  | .binds name _ => name = key
  | .publishes address name => publishedKey address name = key
  | _ => False

namespace Execution

variable {completion : Value} {ns : Namespace Value} {lines front back : List Line}

theorem get?_run {key : String} (h : ∀ line ∈ lines, ¬ line.stmt.Writes key) (completion : Value)
    (ns : Namespace Value) : (run completion ns lines).ns.get? key = ns.get? key := by
  induction lines generalizing completion ns with
  | nil => rfl
  | cons line rest ih =>
    obtain ⟨hline, hrest⟩ := List.forall_mem_cons.mp h
    obtain ⟨number, stmt⟩ := line
    have hdefine {name : String} (value : Value) (hne : name ≠ key) :
        (ns.define name value).get? key = ns.get? key := by
      rw [Namespace.get?_define, if_neg hne.symm]
    cases stmt with
    | imports names specifier => rfl
    | exports name e => rfl
    | binds name e =>
      simp only [run]
      cases e.eval ns with
      | error err => rfl
      | ok value => exact (ih hrest _ _).trans (hdefine value hline)
    | publishes address name =>
      simp only [run]
      cases ns.get? name with
      | none => rfl
      | some value => exact (ih hrest _ _).trans (hdefine value hline)
    | throws e =>
      simp only [run]
      cases e.eval ns <;> rfl
    | eval e =>
      simp only [run]
      cases e.eval ns with
      | error err => rfl
      | ok value => exact ih hrest _ _

theorem run_append (front back : List Line) (completion : Value) (ns : Namespace Value) :
    run completion ns (front ++ back) =
      match run completion ns front with
      | ⟨.ok value, ns⟩ => run value ns back
      | ⟨.error e, ns⟩ => ⟨.error e, ns⟩ := by
  induction front generalizing completion ns with
  | nil => rfl
  | cons line rest ih =>
    obtain ⟨number, stmt⟩ := line
    rw [List.cons_append]
    cases stmt with
    | imports names specifier => rfl
    | exports name e => rfl
    | binds name e =>
      simp only [run]
      cases e.eval ns with
      | error err => rfl
      | ok value => exact ih _ _
    | publishes address name =>
      simp only [run]
      cases ns.get? name with
      | none => rfl
      | some value => exact ih _ _
    | throws e =>
      simp only [run]
      cases e.eval ns <;> rfl
    | eval e =>
      simp only [run]
      cases e.eval ns with
      | error err => rfl
      | ok value => exact ih _ _

theorem get?_run_publish {k k' : Nat} {name address : String} {e : Expr} {value : Value}
    (through : (run completion ns
      (front ++ ⟨k, .binds name e⟩ :: ⟨k', .publishes address name⟩ :: back)).result = .ok value)
    (kept : ∀ line ∈ back, ¬ line.stmt.Writes (publishedKey address name)) :
    ∃ reached here v, run completion ns front = ⟨.ok reached, here⟩ ∧ e.eval here = .ok v ∧
      (run completion ns
        (front ++ ⟨k, .binds name e⟩ :: ⟨k', .publishes address name⟩ :: back)).ns.get?
          (publishedKey address name) = some v := by
  rw [run_append] at through ⊢
  cases hr : run completion ns front with
  | mk result here =>
    rw [hr] at through
    cases result with
    | error err => cases through
    | ok reached =>
      simp only [run] at through ⊢
      cases he : e.eval here with
      | error err =>
        rw [he] at through
        cases through
      | ok v =>
        have hname : (here.define name v).get? name = some v := by
          rw [Namespace.get?_define, if_pos rfl]
        refine ⟨reached, here, v, rfl, he, ?_⟩
        simp only [hname, get?_run kept, Namespace.get?_define, if_true]

/-- Executing a text gets to some statements of it, with the namespace as it then is. -/
def Reaches [Text.Xid] (code : String) (ns : Namespace Value) (stmts : List Stmt)
    (here : Namespace Value) : Prop :=
  ∃ front lines back completion, Source.read .linked code = ⟨front ++ lines ++ back, []⟩ ∧
    lines.map Line.stmt = stmts ∧ run .unit ns front = ⟨.ok completion, here⟩

/-- What is published in one place only is reached there and nowhere else. -/
theorem reaches_publish_iff [Text.Xid] {code name address : String} {k k' : Nat} {e : Expr} {reached : Value}
    {here there : Namespace Value} (hread : Source.read .linked code =
      ⟨front ++ ⟨k, .binds name e⟩ :: ⟨k', .publishes address name⟩ :: back, []⟩)
    (once : ∀ l ∈ (front ++ [⟨k, .binds name e⟩]) ++ back,
      ¬ l.stmt.Writes (publishedKey address name))
    (through : run .unit ns front = ⟨.ok reached, here⟩) :
    Reaches code ns [.binds name e, .publishes address name] there ↔ there = here := by
  constructor
  · rintro ⟨front', lines, back', completion, hread', hstmts, hrun⟩
    obtain ⟨⟨i, b⟩, more, rfl, rfl, hmore⟩ := List.map_eq_cons_iff.mp hstmts
    obtain ⟨⟨i', b'⟩, none, rfl, rfl, hnone⟩ := List.map_eq_cons_iff.mp hmore
    obtain rfl := List.map_eq_nil_iff.mp hnone
    have hlines := congrArg (·.lines) (hread.symm.trans hread')
    have hplaces : (front ++ [⟨k, .binds name e⟩]) ++ ⟨k', .publishes address name⟩ :: back =
        (front' ++ [⟨i, .binds name e⟩]) ++ ⟨i', .publishes address name⟩ :: back' := by
      simpa using hlines
    obtain ⟨hfronts, -⟩ := append_cons_inj_of_forall once hplaces rfl
    obtain ⟨rfl, -⟩ := List.append_inj' hfronts rfl
    rw [through] at hrun
    injection hrun with _ hrun
    exact hrun.symm
  · rintro rfl
    refine ⟨front, [⟨k, .binds name e⟩, ⟨k', .publishes address name⟩], back, reached, ?_, rfl,
      through⟩
    rw [hread]
    simp

end Execution

/-! ### The code of a unit -/

namespace Lowering

variable {goal : Goal} {address : String} {tree : Program} {target : Target Program} {p : Project}

theorem mem_exported {name : String} :
    name ∈ tree.exported.map (·.2) ↔ ∃ line ∈ tree.lines, ∃ e, line.stmt = .exports name e := by
  simp only [Program.exported, List.mem_map, List.mem_filterMap]
  constructor
  · rintro ⟨entry, ⟨line, hline, he⟩, rfl⟩
    cases hs : line.stmt with
    | exports word e =>
      rw [hs] at he
      obtain rfl := Option.some.inj he
      exact ⟨line, hline, e, hs⟩
    | _ => simp [hs] at he
  · rintro ⟨line, hline, e, hs⟩
    exact ⟨(line.number, name), ⟨line, hline, by simp [hs]⟩, rfl⟩

theorem colon_notMem_of_sound [Text.KeyedXid] {word : String} (h : (Token.ident word).Sound) :
    ':' ∉ word.toList :=
  Text.IsIdentifier.colon_notMem h

theorem colon_notMem_of_exported [Text.KeyedXid] (h : ∀ line ∈ tree.lines, line.stmt.Legible goal)
    {name : String} (hname : name ∈ tree.exported.map (·.2)) : ':' ∉ name.toList := by
  obtain ⟨line, hline, e, hs⟩ := mem_exported.mp hname
  refine colon_notMem_of_sound ((h line hline).sound _ ?_)
  simp [hs, Stmt.tokens]

theorem ne_exports_of_once (once : (tree.exported.map (·.2)).Nodup) {before after : List Line}
    {line : Line} (hlines : tree.lines = before ++ line :: after) {name : String} {e : Expr}
    (hs : line.stmt = .exports name e) :
    ∀ other ∈ before ++ after, ∀ e', other.stmt ≠ .exports name e' := by
  intro other hother e' hs'
  have hexported : name ∈ (Program.exported ⟨tree.kind, before ++ after⟩).map (·.2) :=
    mem_exported.mpr ⟨other, hother, e', hs'⟩
  have hmiddle : ((Program.exported ⟨tree.kind, before⟩).map (·.2) ++
      name :: (Program.exported ⟨tree.kind, after⟩).map (·.2)).Nodup := by
    simpa [Program.exported, hlines, hs] using once
  refine (List.nodup_cons.mp (List.perm_middle.nodup_iff.mp hmiddle)).1 ?_
  simpa [Program.exported] using hexported

theorem export_unique (once : (tree.exported.map (·.2)).Nodup) {line other : Line}
    (hline : line ∈ tree.lines) (hother : other ∈ tree.lines) {name : String} {e e' : Expr}
    (hs : line.stmt = .exports name e) (hs' : other.stmt = .exports name e') : e' = e := by
  obtain ⟨before, after, hlines⟩ := List.append_of_mem hline
  rw [hlines] at hother
  rcases List.mem_cons.mp (List.perm_middle.mem_iff.mp hother) with rfl | hbeside
  · rw [hs] at hs'
    exact (Stmt.exports.inj hs').2.symm
  · exact absurd hs' (ne_exports_of_once once hlines hs other hbeside e')

/-- What lowered lines write has no colon, or is published under the unit's own address. -/
theorem writes_lowerLine [Text.KeyedXid] {line : Line} (h : line.stmt.Legible goal) (source : goal ≠ .linked)
    {l : Line} (hl : l ∈ (lowerLine address p line).value) {key : String}
    (hw : l.stmt.Writes key) :
    ':' ∉ key.toList ∨ ∃ name e, line.stmt = .exports name e ∧ key = publishedKey address name := by
  obtain ⟨number, stmt⟩ := line
  obtain ⟨hfits, hsound⟩ := h
  cases stmt with
  | imports names specifier =>
    cases names with
    | nil => simp [lowerLine] at hl
    | cons first others =>
      simp only [lowerLine] at hl
      split at hl
      · obtain ⟨name, hname, rfl⟩ := List.mem_map.mp hl
        obtain rfl : name = key := hw
        refine .inl (colon_notMem_of_sound (hsound _ ?_))
        rcases List.mem_cons.mp hname with rfl | hname
        · simp [Stmt.tokens]
        · simp [Stmt.tokens, Stmt.moreTokens, hname]
      · cases hl
  | exports name e =>
    simp only [lowerLine, List.mem_cons, List.not_mem_nil, or_false] at hl
    rcases hl with rfl | rfl
    · obtain rfl : name = key := hw
      exact .inl (colon_notMem_of_sound (hsound _ (by simp [Stmt.tokens])))
    · exact .inr ⟨name, e, rfl, hw.symm⟩
  | binds name e =>
    obtain rfl := List.mem_singleton.mp hl
    obtain rfl : name = key := hw
    exact .inl (colon_notMem_of_sound (hsound _ (by simp [Stmt.tokens])))
  | publishes other name => exact absurd hfits.1 source
  | throws e =>
    obtain rfl := List.mem_singleton.mp hl
    exact hw.elim
  | eval e =>
    obtain rfl := List.mem_singleton.mp hl
    exact hw.elim

theorem writes_transform [Text.KeyedXid] (h : ∀ line ∈ target.tree.lines, line.stmt.Legible goal)
    (source : goal ≠ .linked) {l : Line}
    (hl : l ∈ (transform target p).value.lines) {key : String}
    (hw : l.stmt.Writes key) : ':' ∉ key.toList ∨
      ∃ name ∈ target.tree.exported.map (·.2), key = publishedKey target.address name := by
  obtain ⟨r, hr, hl⟩ := List.mem_flatMap.mp hl
  obtain ⟨line, hline, rfl⟩ := List.mem_map.mp hr
  refine (writes_lowerLine (h line hline) source hl hw).imp_right ?_
  rintro ⟨name, e, hs, rfl⟩
  exact ⟨name, mem_exported.mpr ⟨line, hline, e, hs⟩, rfl⟩

theorem binds_mem_transform (bound : (transform target p).diagnostics = [])
    {line : Line} (hline : line ∈ target.tree.lines) {names : List String} {specifier : String}
    (hs : line.stmt = .imports names specifier) {name : String} (hname : name ∈ names) :
    .binds name (.published (p.resolve specifier target.address) name) ∈
      (transform target p).value.lines.map Line.stmt := by
  obtain ⟨number, stmt⟩ := line
  obtain rfl : stmt = .imports names specifier := hs
  have hlowered := lowerLine_imports number (List.flatMap_eq_nil_iff.mp bound _
    (List.mem_map_of_mem hline))
  refine List.mem_map.mpr ⟨⟨number, .binds name (.published (p.resolve specifier target.address) name)⟩,
    List.mem_flatMap.mpr ⟨_, List.mem_map_of_mem hline, ?_⟩, rfl⟩
  rw [hlowered]
  exact List.mem_map_of_mem hname

theorem exists_export_lines [Text.KeyedXid] (h : ∀ line ∈ target.tree.lines, line.stmt.Legible goal)
    (source : goal ≠ .linked) (once : (target.tree.exported.map (·.2)).Nodup) {line : Line}
    (hline : line ∈ target.tree.lines) {name : String} {e : Expr} (hs : line.stmt = .exports name e) :
    ∃ front back, (transform target p).value.lines.map Line.stmt =
        front ++ .binds name e :: .publishes target.address name :: back ∧
      ∀ stmt ∈ front ++ back, ¬ stmt.Writes (publishedKey target.address name) := by
  obtain ⟨before, after, hlines⟩ := List.append_of_mem hline
  have hcolon : ':' ∉ name.toList :=
    colon_notMem_of_exported h (mem_exported.mpr ⟨line, hline, e, hs⟩)
  have hbeside := ne_exports_of_once once hlines hs
  obtain ⟨number, stmt⟩ := line
  obtain rfl : stmt = .exports name e := hs
  refine ⟨(((before.map (lowerLine target.address p)).flatMap (·.value)).map Line.stmt),
    (((after.map (lowerLine target.address p)).flatMap (·.value)).map Line.stmt), ?_, ?_⟩
  · simp [transform, hlines, lowerLine]
  · intro stmt hstmt hw
    rw [← List.map_append, ← List.flatMap_append, ← List.map_append] at hstmt
    obtain ⟨l, hl, rfl⟩ := List.mem_map.mp hstmt
    obtain ⟨r, hr, hl⟩ := List.mem_flatMap.mp hl
    obtain ⟨other, hother, rfl⟩ := List.mem_map.mp hr
    have hmem : other ∈ target.tree.lines := by
      rw [hlines]
      exact List.perm_middle.mem_iff.mpr (List.mem_cons_of_mem _ hother)
    rcases writes_lowerLine (h other hmem) source hl hw with hnone | ⟨name', e', hs', hkey⟩
    · simp [toList_publishedKey] at hnone
    · have hcolon' : ':' ∉ name'.toList :=
        colon_notMem_of_exported h (mem_exported.mpr ⟨other, hmem, e', hs'⟩)
      -- the name would be exported twice
      obtain ⟨-, rfl⟩ := publishedKey_inj hcolon hcolon' hkey
      exact hbeside other hother e' hs'

end Lowering

namespace Source

theorem read_written [Text.Xid] {p : Program} (h : ∀ line ∈ p.lines, line.stmt.Legible .linked) :
    ∃ lines, read .linked p.write = ⟨lines, []⟩ ∧
      lines.map Line.stmt = p.lines.map Line.stmt := by
  obtain ⟨herrors, hlines⟩ := read_write h
  refine ⟨p.lines.mapIdx fun i line => ⟨1 + i, line.stmt⟩, ?_, ?_⟩
  · rw [← hlines, ← herrors]
  refine List.ext_getElem? fun i => ?_
  rw [List.getElem?_map, List.getElem?_mapIdx, List.getElem?_map, Option.map_map]
  rfl

theorem read_lowered [Text.Xid] {goal : Goal} (target : Target Program) (p : Project)
    (h : ∀ line ∈ target.tree.lines, line.stmt.Legible goal) :
    ∃ lines, read .linked (Lowering.transform target p).value.write = ⟨lines, []⟩ ∧
      lines.map Line.stmt = (Lowering.transform target p).value.lines.map Line.stmt :=
  read_written (Lowering.legible_transform h)

/-- The lines that are read where the one export of a name was lowered. -/
theorem read_export [Text.KeyedXid] {goal : Goal} {target : Target Program} {p : Project}
    (h : ∀ line ∈ target.tree.lines, line.stmt.Legible goal) (source : goal ≠ .linked)
    (once : (target.tree.exported.map (·.2)).Nodup) {line : Line} (hline : line ∈ target.tree.lines)
    {name : String} {e : Expr} (hs : line.stmt = .exports name e) :
    ∃ k k' front back, read .linked (Lowering.transform target p).value.write =
        ⟨front ++ ⟨k, .binds name e⟩ :: ⟨k', .publishes target.address name⟩ :: back, []⟩ ∧
      ∀ l ∈ (front ++ [⟨k, .binds name e⟩]) ++ back,
        ¬ l.stmt.Writes (publishedKey target.address name) := by
  obtain ⟨lines, hread, hstmts⟩ := read_lowered target p h
  obtain ⟨before, after, hsplit, hquiet⟩ :=
    Lowering.exists_export_lines (p := p) h source once hline hs
  obtain ⟨front, rest, rfl, hbefore, hrest⟩ := List.map_eq_append_iff.mp (hstmts.trans hsplit)
  obtain ⟨⟨k, s⟩, rest', rfl, rfl, hrest'⟩ := List.map_eq_cons_iff.mp hrest
  obtain ⟨⟨k', s'⟩, back, rfl, rfl, hback⟩ := List.map_eq_cons_iff.mp hrest'
  refine ⟨k, k', front, back, hread, fun l hl => ?_⟩
  simp only [List.mem_append, List.mem_singleton] at hl
  rcases hl with (hl | rfl) | hl
  · refine hquiet l.stmt (List.mem_append_left _ ?_)
    rw [← hbefore]
    exact List.mem_map_of_mem hl
  · exact (publishedKey_ne (Lowering.colon_notMem_of_exported h
      (Lowering.mem_exported.mpr ⟨line, hline, e, hs⟩))).symm
  · refine hquiet l.stmt (List.mem_append_right _ ?_)
    rw [← hback]
    exact List.mem_map_of_mem hl

end Source

namespace Lang

variable {goal : Goal} {target : Target Program} {p : Project}

theorem execute_of_read [Text.Xid] {code : String} {lines : List Line}
    (h : Source.read .linked code = ⟨lines, []⟩) (ns : Namespace Value) :
    execute code ns = ⟨(Execution.run .unit ns lines).result.mapError Execution.Failure.message,
      (Execution.run .unit ns lines).ns⟩ := by
  simp only [execute, Execution.runText, h]

theorem run_of_execute [Text.Xid] {code : String} {lines : List Line}
    (h : Source.read .linked code = ⟨lines, []⟩) {ns : Namespace Value} {result : Value}
    (ok : (execute code ns).result = .ok result) :
    (Execution.run .unit ns lines).result = .ok result := by
  rw [execute_of_read h] at ok
  cases hr : (Execution.run .unit ns lines).result with
  | error err => simp [hr, Except.mapError] at ok
  | ok value => simpa [hr, Except.mapError] using ok

/-- The code of a unit leaves all keys with a colon as they were, except for its exports. -/
theorem get?_execute_of_foreign [Text.KeyedXid] (h : ∀ line ∈ target.tree.lines, line.stmt.Legible goal)
    (source : goal ≠ .linked) {key : String} (colon : ':' ∈ key.toList)
    (foreign : ∀ name ∈ target.tree.exported.map (·.2), key ≠ publishedKey target.address name) :
    let code := (Lowering.transform target p).value.write
    (∀ ns, (execute code ns).ns.get? key = ns.get? key) ∧
      ∀ ns stmts here, Execution.Reaches code ns stmts here → here.get? key = ns.get? key := by
  intro code
  obtain ⟨lines, hread, hstmts⟩ := Source.read_lowered target p h
  have hquiet : ∀ line ∈ lines, ¬ line.stmt.Writes key := by
    intro line hline hw
    have hstmt : line.stmt ∈ lines.map Line.stmt := List.mem_map_of_mem hline
    rw [hstmts] at hstmt
    obtain ⟨l, hl, he⟩ := List.mem_map.mp hstmt
    rcases Lowering.writes_transform h source hl (he ▸ hw) with hnone | ⟨name, hname, hkey⟩
    · exact hnone colon
    · exact foreign name hname hkey
  refine ⟨fun ns => ?_, fun ns stmts here hreaches => ?_⟩
  · rw [execute_of_read hread]
    exact Execution.get?_run hquiet .unit ns
  · obtain ⟨front, more, back, completion, hread', -, hrun⟩ := hreaches
    have hlines : lines = front ++ more ++ back := congrArg (·.lines) (hread.symm.trans hread')
    have hfront := Execution.get?_run
      (fun line (hl : line ∈ front) => hquiet line (by simp [hlines, hl])) .unit ns
    rwa [hrun] at hfront

/-- When the code of a module gives a value, each of its exports has been published once,
with the value that its expression had there. -/
theorem get?_execute_of_exported [Text.KeyedXid] (h : ∀ line ∈ target.tree.lines, line.stmt.Legible goal)
    (source : goal ≠ .linked) (once : (target.tree.exported.map (·.2)).Nodup) {line : Line}
    (hline : line ∈ target.tree.lines) {name : String} {e : Expr} (hs : line.stmt = .exports name e)
    {ns : Namespace Value} {result : Value} :
    let code := (Lowering.transform target p).value.write
    (execute code ns).result = .ok result → ∃ here value,
      (∀ there, Execution.Reaches code ns [.binds name e, .publishes target.address name] there ↔
        there = here) ∧ e.eval here = .ok value ∧
        (execute code ns).ns.get? (publishedKey target.address name) = some value := by
  intro code hresult
  obtain ⟨k, k', front, back, hread, hkept⟩ := Source.read_export (p := p) h source once hline hs
  have hthrough := run_of_execute hread hresult
  obtain ⟨reached, here, value, hfront, hvalue, hget⟩ := Execution.get?_run_publish hthrough
    fun l hl => hkept l (List.mem_append_right _ hl)
  rw [execute_of_read hread]
  exact ⟨here, value, fun there => Execution.reaches_publish_iff hread hkept hfront, hvalue, hget⟩

end Lang

end UnitLoader
