import UnitLoader.Lang.Linking
import UnitLoader.Lang.Lowering

/-! What analysis makes of the targets at one address. Targets at other addresses have no
part in it, so only the order of the targets that share an address can matter. -/

namespace UnitLoader

namespace Project

variable (p : Project)

theorem address_of_module? {address : String} {symbol : ModuleSymbol}
    (h : p.module? address = some symbol) : symbol.address = address := by
  simpa using List.find?_some h

theorem module?_addModule (address other : String) :
    (p.addModule address).module? other =
      if address = other then some ((p.module? other).getD ⟨address, []⟩) else p.module? other := by
  simp only [addModule]
  cases hm : p.module? address with
  | some symbol =>
    rw [if_pos (by simp [hasModule, hm])]
    split
    · next he => rw [← he, hm, Option.getD_some]
    · rfl
  | none =>
    rw [if_neg (by simp [hasModule, hm])]
    simp only [module?, List.find?_append]
    split
    · next he =>
      subst he
      have hnone : p.modules.find? (·.address = address) = none := hm
      simp [hnone]
    · next he => simp [he]

theorem module?_addExport (address name other : String) :
    (p.addExport address name).module? other =
      (p.module? other).map (putExport address name) := by
  simp only [addExport, module?, List.find?_map]
  congr 2
  funext symbol
  simp only [Function.comp_apply, putExport]
  split <;> rfl

theorem putExport_of_ne {address name : String} {symbol : ModuleSymbol}
    (h : symbol.address ≠ address) : putExport address name symbol = symbol := by
  simp [putExport, h]

theorem hasExport_eq {address : String} {symbol : ModuleSymbol}
    (h : p.module? address = some symbol) (name : String) :
    p.hasExport address name = decide (name ∈ symbol.exports) := by
  simp [hasExport, exportsOf, h]

/-- Projects that a language cannot tell apart. -/
structure Alike (p q : Project) : Prop where
  resolver : q.resolver = p.resolver
  modules : ∀ address, q.module? address = p.module? address

end Project

namespace Linking

def declaredNames (names : List String) : List (Nat × String) → List String
  | [] => names
  | entry :: rest =>
    declaredNames (if entry.2 ∈ names then names else names ++ [entry.2]) rest

/-- The errors of declarations that repeat a name. -/
def duplicates (address : String) (names : List String) : List (Nat × String) → List Diagnostic
  | [] => []
  | entry :: rest =>
    if entry.2 ∈ names then
      .ofLine .analyze address entry.1 (String.join ["duplicate export '", entry.2, "'"]) ::
        duplicates address names rest
    else duplicates address (names ++ [entry.2]) rest

theorem address_of_mem_duplicates {address : String} {names : List String}
    {entries : List (Nat × String)} {d : Diagnostic} (h : d ∈ duplicates address names entries) :
    d.address = some address := by
  induction entries generalizing names with
  | nil => simp [duplicates] at h
  | cons entry rest ih =>
    simp only [duplicates] at h
    split at h
    · rcases List.mem_cons.mp h with rfl | h
      · rfl
      · exact ih h
    · exact ih h

theorem declareExport_foldl {address : String} (entries : List (Nat × String))
    {r : Reported Project} {names : List String}
    (h : r.value.module? address = some ⟨address, names⟩) :
    let done := entries.foldl (declareExport address) r
    (∀ other, done.value.module? other =
        if address = other then some ⟨address, declaredNames names entries⟩
        else r.value.module? other) ∧
      done.diagnostics = r.diagnostics ++ duplicates address names entries ∧
      done.value.resolver = r.value.resolver := by
  induction entries generalizing r names with
  | nil =>
    refine ⟨fun other => ?_, by simp [duplicates], rfl⟩
    split
    · next he => rw [← he]; exact h
    · rfl
  | cons entry rest ih =>
    have hhas := r.value.hasExport_eq h entry.2
    simp only [List.foldl_cons]
    by_cases hin : entry.2 ∈ names
    · have hstep : declareExport address r entry =
          { r with diagnostics := r.diagnostics ++ [.ofLine .analyze address entry.1
            (String.join ["duplicate export '", entry.2, "'"])] } := by
        simp [declareExport, hhas, hin]
      have hkept : (declareExport address r entry).value.module? address =
          some ⟨address, names⟩ := by
        rw [hstep]
        exact h
      obtain ⟨hmodules, hdiagnostics, hresolver⟩ := ih hkept
      refine ⟨fun other => ?_, ?_, by rw [hresolver, hstep]⟩
      · rw [hmodules other, hstep]
        simp only [declaredNames, if_pos hin]
      · rw [hdiagnostics, hstep]
        simp only [duplicates, if_pos hin, List.append_assoc, List.singleton_append]
    · have hstep : declareExport address r entry =
          { r with value := r.value.addExport address entry.2 } := by
        simp [declareExport, hhas, hin]
      have hadded : (declareExport address r entry).value.module? address =
          some ⟨address, names ++ [entry.2]⟩ := by
        rw [hstep, Project.module?_addExport, h]
        simp [Project.putExport, hin]
      obtain ⟨hmodules, hdiagnostics, hresolver⟩ := ih hadded
      refine ⟨fun other => ?_, ?_, by rw [hresolver, hstep]; rfl⟩
      · rw [hmodules other, hstep]
        simp only [declaredNames, if_neg hin]
        split
        · rfl
        · next hne =>
          rw [Project.module?_addExport]
          cases hm : r.value.module? other with
          | none => rfl
          | some symbol =>
            have ha := r.value.address_of_module? hm
            rw [Option.map_some, Project.putExport_of_ne fun he => hne (he.symm.trans ha)]
      · rw [hdiagnostics, hstep]
        simp only [duplicates, if_neg hin]

def entriesOf (target : Target Program) : List (Nat × String) :=
  match target.kind with
  | .script => []
  | .module => target.tree.exported

theorem declare_spec (r : Reported Project) (target : Target Program) :
    (∀ other, (declare r target).value.module? other =
        if target.address = other then
          some ⟨other, declaredNames (r.value.exportsOf other) (entriesOf target)⟩
        else r.value.module? other) ∧
      (declare r target).diagnostics = r.diagnostics ++
        duplicates target.address (r.value.exportsOf target.address) (entriesOf target) ∧
      (declare r target).value.resolver = r.value.resolver := by
  have hregistered (other : String) : (r.value.addModule target.address).module? other =
      if target.address = other then some ⟨other, r.value.exportsOf other⟩
      else r.value.module? other := by
    rw [Project.module?_addModule]
    split
    · next he =>
      cases hm : r.value.module? other with
      | none => simp [Project.exportsOf, hm, he]
      | some symbol =>
        obtain rfl := r.value.address_of_module? hm
        simp only [Project.exportsOf, hm, Option.getD_some]
    · rfl
  have hresolver : (r.value.addModule target.address).resolver = r.value.resolver := by
    simp only [Project.addModule]
    split <;> rfl
  simp only [declare, entriesOf]
  cases target.kind with
  | script => exact ⟨hregistered, by simp [duplicates], hresolver⟩
  | module =>
    have hself := hregistered target.address
    rw [if_pos rfl] at hself
    obtain ⟨hmodules, hdiagnostics, hkept⟩ := declareExport_foldl target.tree.exported
      (r := { r with value := r.value.addModule target.address }) hself
    refine ⟨fun other => ?_, hdiagnostics, hkept.trans hresolver⟩
    rw [hmodules other, hregistered other]
    split
    · next he => rw [he]
    · rfl

/-! ### One address at a time -/

/-- What is known of an address: its exports, and the errors reported for it. -/
def known (address : String) (r : Reported Project) : Option ModuleSymbol × List Diagnostic :=
  (r.value.module? address, r.diagnostics.filter (·.address = some address))

def declareAt (v : Option ModuleSymbol × List Diagnostic) (target : Target Program) :
    Option ModuleSymbol × List Diagnostic :=
  let names := (v.1.map (·.exports)).getD []
  (some ⟨target.address, declaredNames names (entriesOf target)⟩,
    v.2 ++ duplicates target.address names (entriesOf target))

theorem exportsOf_eq (p : Project) (address : String) :
    p.exportsOf address = ((p.module? address).map (·.exports)).getD [] := by
  simp only [Project.exportsOf]
  cases p.module? address <;> rfl

theorem known_declare (address : String) (r : Reported Project) (target : Target Program) :
    known address (declare r target) =
      if target.address = address then declareAt (known address r) target else known address r := by
  obtain ⟨hmodules, hdiagnostics, -⟩ := declare_spec r target
  simp only [known, hmodules, hdiagnostics, List.filter_append]
  split
  · next he =>
    have hall : (duplicates target.address (r.value.exportsOf target.address)
        (entriesOf target)).filter (·.address = some address) =
        duplicates target.address (r.value.exportsOf target.address) (entriesOf target) :=
      List.filter_eq_self.mpr fun d hd => by simp [address_of_mem_duplicates hd, he]
    rw [hall]
    simp [declareAt, exportsOf_eq, he]
  · next hne =>
    have hnone : (duplicates target.address (r.value.exportsOf target.address)
        (entriesOf target)).filter (·.address = some address) = [] :=
      List.filter_eq_nil_iff.mpr fun d hd => by simp [address_of_mem_duplicates hd, hne]
    rw [hnone, List.append_nil]

/-- Only the targets at an address decide what is known of it. -/
theorem known_foldl (address : String) (targets : List (Target Program)) (r : Reported Project) :
    known address (targets.foldl declare r) =
      (targets.filter (·.address = address)).foldl declareAt (known address r) := by
  induction targets generalizing r with
  | nil => rfl
  | cons target targets ih =>
    rw [List.foldl_cons, ih, known_declare]
    by_cases he : target.address = address
    · simp [he]
    · simp [he]

theorem resolver_foldl (targets : List (Target Program)) (r : Reported Project) :
    (targets.foldl declare r).value.resolver = r.value.resolver := by
  induction targets generalizing r with
  | nil => rfl
  | cons target targets ih => rw [List.foldl_cons, ih, (declare_spec r target).2.2]

theorem address_of_mem_foldl {targets : List (Target Program)} {r : Reported Project}
    {d : Diagnostic} (hd : d ∈ (targets.foldl declare r).diagnostics) :
    d ∈ r.diagnostics ∨ ∃ target ∈ targets, d.address = some target.address := by
  induction targets generalizing r with
  | nil => exact .inl hd
  | cons target targets ih =>
    rcases ih hd with hd | ⟨other, hmem, he⟩
    · rw [(declare_spec r target).2.1] at hd
      rcases List.mem_append.mp hd with hd | hd
      · exact .inl hd
      · exact .inr ⟨target, List.mem_cons_self, address_of_mem_duplicates hd⟩
    · exact .inr ⟨other, List.mem_cons_of_mem _ hmem, he⟩

theorem address_of_mem_unboundIn {project : Project} {address : String} {line : Line}
    {d : Diagnostic} (hd : d ∈ unboundIn project address line) : d.address = some address := by
  simp only [unboundIn] at hd
  split at hd
  · obtain ⟨name, -, hname⟩ := List.mem_filterMap.mp hd
    split at hname
    · cases hname
    · rw [← Option.some.inj hname]
      rfl
  · cases hd

/-- Every error of a batch is about one of its targets. -/
theorem address_of_mem_analyze {targets : List (Target Program)} {p : Project} {d : Diagnostic}
    (hd : d ∈ (analyze targets p).diagnostics) :
    ∃ target ∈ targets, d.address = some target.address := by
  rcases List.mem_append.mp hd with hd | hd
  · rcases address_of_mem_foldl hd with hd | htarget
    · cases hd
    · exact htarget
  · obtain ⟨target, hmem, hd⟩ := List.mem_flatMap.mp hd
    obtain ⟨line, -, hd⟩ := List.mem_flatMap.mp hd
    exact ⟨target, hmem, address_of_mem_unboundIn hd⟩

/-! ### Batches in any order -/

theorem unbound_congr {p q : Project} (h : p.Alike q) (target : Target Program) :
    unbound q target = unbound p target := by
  have hline : unboundIn q target.address = unboundIn p target.address := by
    funext line
    simp only [unboundIn, Project.resolveExport, Project.resolve, h.resolver, h.modules]
  rw [unbound, unbound, hline]

/-- Targets that are the same at each address, in the same order there. -/
def SameAt (targets targets' : List (Target Program)) : Prop :=
  ∀ address, targets.filter (·.address = address) = targets'.filter (·.address = address)

theorem SameAt.mem_iff {targets targets' : List (Target Program)} (h : SameAt targets targets')
    (target : Target Program) : target ∈ targets ↔ target ∈ targets' := by
  have hmem := congrArg (target ∈ ·) (h target.address)
  simpa using hmem

/-- The order of targets at different addresses makes no difference to analysis. -/
theorem analyze_alike {targets targets' : List (Target Program)} (h : SameAt targets targets')
    {p q : Project} (hp : p.Alike q) :
    (analyze targets p).value.Alike (analyze targets' q).value ∧
      ∀ d, d ∈ (analyze targets p).diagnostics ↔ d ∈ (analyze targets' q).diagnostics := by
  have hknown (address : String) : known address (targets'.foldl declare ⟨q, []⟩) =
      known address (targets.foldl declare ⟨p, []⟩) := by
    rw [known_foldl, known_foldl, h address]
    simp only [known, hp.modules]
  have halike : (targets.foldl declare ⟨p, []⟩).value.Alike
      (targets'.foldl declare ⟨q, []⟩).value :=
    { resolver := by rw [resolver_foldl, resolver_foldl, hp.resolver]
      modules := fun address => congrArg Prod.fst (hknown address) }
  refine ⟨halike, fun d => ?_⟩
  have hdeclared : d ∈ (targets.foldl declare ⟨p, []⟩).diagnostics ↔
      d ∈ (targets'.foldl declare ⟨q, []⟩).diagnostics := by
    cases ha : d.address with
    | none =>
      have hsome (targets : List (Target Program)) (p : Project) :
          d ∉ (targets.foldl declare ⟨p, []⟩).diagnostics := fun hd => by
        rcases address_of_mem_foldl hd with hd | ⟨target, -, he⟩
        · cases hd
        · cases ha.symm.trans he
      exact iff_of_false (hsome _ _) (hsome _ _)
    | some address =>
      have hmem := congrArg (d ∈ ·.2) (hknown address)
      simpa [known, ha] using hmem.symm
  have hunbound : d ∈ targets.flatMap (unbound (targets.foldl declare ⟨p, []⟩).value) ↔
      d ∈ targets'.flatMap (unbound (targets'.foldl declare ⟨q, []⟩).value) := by
    simp only [List.mem_flatMap, h.mem_iff, unbound_congr halike]
  simp only [analyze, List.mem_append, hdeclared, hunbound]

end Linking

theorem Lowering.address_of_mem_transform {target : Target Program} {p : Project} {d : Diagnostic}
    (hd : d ∈ (transform target p).diagnostics) : d.address = some target.address := by
  obtain ⟨lowered, hmem, hd⟩ := List.mem_flatMap.mp hd
  obtain ⟨line, -, rfl⟩ := List.mem_map.mp hmem
  simp only [lowerLine] at hd
  split at hd
  · cases hd
  · split at hd
    · cases hd
    · rw [List.mem_singleton.mp hd]
      rfl
  · cases hd
  · cases hd

theorem Lowering.transform_congr {p q : Project} (h : p.Alike q) (target : Target Program) :
    transform target q = transform target p := by
  have hline : lowerLine target.address q = lowerLine target.address p := by
    have hresolve : q.resolve = p.resolve := by
      funext specifier base
      simp only [Project.resolve, h.resolver]
    have hmodule : q.hasModule = p.hasModule := by
      funext address
      simp only [Project.hasModule, h.modules]
    funext line
    simp only [lowerLine]
    rw [hresolve, hmodule]
  rw [transform, transform, hline]

end UnitLoader
