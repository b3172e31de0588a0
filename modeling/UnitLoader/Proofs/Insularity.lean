import UnitLoader.Proofs.Plain

/-! What a batch has to do with modules that it does not lead to: nothing. In the plain
language, analysis and lowering look up the addresses of their targets, and those that the
specifiers of their targets lead to, and no others. -/

namespace UnitLoader

/-- Projects that cannot be told apart at some addresses. -/
structure Project.AlikeOn (A : String → Prop) (p q : Project) : Prop where
  resolver : q.resolver = p.resolver
  modules : ∀ address, A address → q.module? address = p.module? address

namespace Project.AlikeOn

variable {A : String → Prop} {p q : Project}

theorem resolve (h : p.AlikeOn A q) : q.resolve = p.resolve := by
  funext specifier base
  rw [Project.resolve, Project.resolve, h.resolver]

theorem addModule (h : p.AlikeOn A q) (address : String) :
    (p.addModule address).AlikeOn A (q.addModule address) where
  resolver := by
    have hkeeps (p : Project) : (p.addModule address).resolver = p.resolver := by
      simp only [Project.addModule]
      split <;> rfl
    rw [hkeeps, hkeeps, h.resolver]
  modules := by
    intro other hother
    rw [module?_addModule, module?_addModule, h.modules other hother]

theorem congr (h : p.AlikeOn A q) {p' q' : Project} (resolver : p'.resolver = p.resolver)
    (modules : p'.modules = p.modules) (resolver' : q'.resolver = q.resolver)
    (modules' : q'.modules = q.modules) : p'.AlikeOn A q' where
  resolver := by rw [resolver, resolver', h.resolver]
  modules := by
    intro address ha
    rw [module?, modules', module?, modules]
    exact h.modules address ha

end Project.AlikeOn

section Toolchains

variable {Tree Value : Type}

/-- A target at one of some addresses, with specifiers that lead to others of them. -/
structure Toolchain.Stays (tools : Toolchain Tree Value) (A : String → Prop) (resolver : Resolver)
    (target : Target Tree) : Prop where
  address : A target.address
  imports : ∀ specifier ∈ tools.specifiers target.tree, A (resolver specifier target.address)

/-- What there is at addresses that a target does not lead to makes no difference to it. -/
structure Toolchain.Insular (tools : Toolchain Tree Value) : Prop where
  resolver : tools.KeepsResolver
  analyze : ∀ {A : String → Prop} {p q : Project}, p.AlikeOn A q →
    ∀ targets, (∀ target ∈ targets, tools.Stays A p.resolver target) →
      (tools.analyze targets p).value.AlikeOn A (tools.analyze targets q).value ∧
        (tools.analyze targets q).diagnostics = (tools.analyze targets p).diagnostics
  transform : ∀ {A : String → Prop} {p q : Project}, p.AlikeOn A q →
    ∀ target, tools.Stays A p.resolver target →
      tools.transform target q = tools.transform target p

end Toolchains

/-! ### The plain language -/

theorem Program.specifier_mem {tree : Program} {line : Line} (hline : line ∈ tree.lines)
    {names : List String} {specifier : String} (hs : line.stmt = .imports names specifier) :
    specifier ∈ tree.specifiers := by
  rw [specifiers, List.mem_filterMap]
  exact ⟨line, hline, by simp [hs]⟩

namespace Linking

variable {A : String → Prop}

theorem declare_alikeOn {r r' : Reported Project} (h : r.value.AlikeOn A r'.value)
    (diagnostics : r'.diagnostics = r.diagnostics) {target : Target Program}
    (known : A target.address) :
    (declare r target).value.AlikeOn A (declare r' target).value ∧
      (declare r' target).diagnostics = (declare r target).diagnostics := by
  obtain ⟨hmodules, hdiagnostics, hresolver⟩ := declare_spec r target
  obtain ⟨hmodules', hdiagnostics', hresolver'⟩ := declare_spec r' target
  have hexports (address : String) (ha : A address) :
      r'.value.exportsOf address = r.value.exportsOf address := by
    rw [exportsOf_eq, exportsOf_eq, h.modules address ha]
  refine ⟨⟨by rw [hresolver, hresolver', h.resolver], fun address ha => ?_⟩, ?_⟩
  · rw [hmodules, hmodules', hexports address ha, h.modules address ha]
  · rw [hdiagnostics, hdiagnostics', diagnostics, hexports _ known]

theorem foldl_declare_alikeOn {targets : List (Target Program)}
    (known : ∀ target ∈ targets, A target.address) {r r' : Reported Project}
    (h : r.value.AlikeOn A r'.value) (diagnostics : r'.diagnostics = r.diagnostics) :
    (targets.foldl declare r).value.AlikeOn A (targets.foldl declare r').value ∧
      (targets.foldl declare r').diagnostics = (targets.foldl declare r).diagnostics := by
  induction targets generalizing r r' with
  | nil => exact ⟨h, diagnostics⟩
  | cons target targets ih =>
    obtain ⟨hfirst, hdiagnostics⟩ :=
      declare_alikeOn h diagnostics (known target List.mem_cons_self)
    exact ih (fun other hother => known other (List.mem_cons_of_mem _ hother)) hfirst hdiagnostics

theorem unbound_alikeOn [Text.Xid] {p q : Project} (h : p.AlikeOn A q) {target : Target Program}
    (stays : Lang.toolchain.Stays A p.resolver target) : unbound q target = unbound p target := by
  refine List.flatMap_congr fun line hline => ?_
  simp only [unboundIn]
  cases hs : line.stmt with
  | imports names specifier =>
    have hmodule := h.modules _ (stays.imports specifier (Program.specifier_mem hline hs))
    simp only [Project.resolveExport, Project.resolve, h.resolver, hmodule]
  | _ => rfl

theorem analyze_alikeOn [Text.Xid] {p q : Project} (h : p.AlikeOn A q) (targets : List (Target Program))
    (stays : ∀ target ∈ targets, Lang.toolchain.Stays A p.resolver target) :
    (analyze targets p).value.AlikeOn A (analyze targets q).value ∧
      (analyze targets q).diagnostics = (analyze targets p).diagnostics := by
  obtain ⟨hvalue, hdiagnostics⟩ :
      (targets.foldl declare ⟨p, []⟩).value.AlikeOn A (targets.foldl declare ⟨q, []⟩).value ∧
        (targets.foldl declare ⟨q, []⟩).diagnostics =
          (targets.foldl declare ⟨p, []⟩).diagnostics :=
    foldl_declare_alikeOn (fun target ht => (stays target ht).address) h rfl
  have hresolver : (targets.foldl declare ⟨p, []⟩).value.resolver = p.resolver := resolver_foldl _ _
  refine ⟨hvalue, ?_⟩
  have hunbound : targets.flatMap (unbound (targets.foldl declare ⟨q, []⟩).value) =
      targets.flatMap (unbound (targets.foldl declare ⟨p, []⟩).value) :=
    List.flatMap_congr fun target ht => unbound_alikeOn hvalue (hresolver ▸ stays target ht)
  simp only [analyze, hdiagnostics, hunbound]

end Linking

theorem Lowering.transform_alikeOn [Text.Xid] {A : String → Prop} {p q : Project} (h : p.AlikeOn A q)
    (target : Target Program) (stays : Lang.toolchain.Stays A p.resolver target) :
    transform target q = transform target p := by
  have hlines : target.tree.lines.map (lowerLine target.address q) =
      target.tree.lines.map (lowerLine target.address p) := by
    refine List.map_congr_left fun line hline => ?_
    simp only [lowerLine]
    cases hs : line.stmt with
    | imports names specifier =>
      have hmodule := h.modules _ (stays.imports specifier (Program.specifier_mem hline hs))
      have hhas : q.hasModule (p.resolve specifier target.address) =
          p.hasModule (p.resolve specifier target.address) := by
        simp only [Project.hasModule, Project.resolve, hmodule]
      cases names with
      | nil => rfl
      | cons name names =>
        cases hp : p.hasModule (p.resolve specifier target.address) <;>
          simp [hhas, hp, h.resolve]
    | _ => rfl
  rw [transform, transform, hlines]

theorem Lang.insular_toolchain [Text.Xid] : Lang.toolchain.Insular where
  resolver := Lang.keepsResolver_toolchain
  analyze := Linking.analyze_alikeOn
  transform := Lowering.transform_alikeOn

end UnitLoader
