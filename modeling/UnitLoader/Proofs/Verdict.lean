import UnitLoader.Proofs.Exports
import UnitLoader.Text.Unicode

/-! What analysis has against a batch, and what it leaves behind. A batch is sound when no name is
exported twice and every name that is imported is exported, before the batch or by a module of it.
Neither this nor the exports of an address depend on the order of the targets, as long as no two
modules are at one address. -/

namespace UnitLoader

theorem Project.resolveExport_cases (p : Project) (address name : String) :
    p.resolveExport address name = .ok () ∧ name ∈ p.exportsOf address ∨
      ∃ e, p.resolveExport address name = .error e ∧ name ∉ p.exportsOf address := by
  rw [resolveExport, exportsOf]
  cases p.module? address with
  | none => exact .inr ⟨_, rfl, List.not_mem_nil⟩
  | some symbol =>
    by_cases hin : name ∈ symbol.exports
    · exact .inl ⟨if_pos hin, hin⟩
    · exact .inr ⟨_, if_neg hin, hin⟩

namespace Linking

/-- The names that a target exports. A script exports none. -/
def exportNames (target : Target Program) : List String :=
  (entriesOf target).map (·.2)

/-- No two modules of a batch are at one address. -/
def ModulesApart (targets : List (Target Program)) : Prop :=
  ((targets.filter (·.kind = .module)).map (·.address)).Nodup

instance (targets : List (Target Program)) : Decidable (ModulesApart targets) :=
  inferInstanceAs (Decidable (List.Nodup _))

/-- No target exports a name twice, or one that its address has already. Every name that a target
imports is an export of the address which the specifier leads to, or of a target there. -/
structure Sound (p : Project) (targets : List (Target Program)) : Prop where
  distinct : ∀ target ∈ targets, (exportNames target).Nodup ∧
    ∀ name ∈ exportNames target, name ∉ p.exportsOf target.address
  bound : ∀ target ∈ targets, ∀ line ∈ target.tree.lines, ∀ names specifier,
    line.stmt = .imports names specifier → ∀ name ∈ names,
      name ∈ p.exportsOf (p.resolve specifier target.address) ∨
        ∃ source ∈ targets, source.address = p.resolve specifier target.address ∧
          name ∈ exportNames source

/-- The exports of an address once a target there has declared its own. -/
def exportsWith (old : List String) (target : Target Program) : List String :=
  old ++ ((exportNames target).filter (· ∉ old)).eraseDups

/-- Analysis reports no error. -/
def Passes (targets : List (Target Program)) (p : Project) : Prop :=
  ∀ d ∈ (analyze targets p).diagnostics, d.isError = false

instance (targets : List (Target Program)) (p : Project) : Decidable (Passes targets p) :=
  inferInstanceAs (Decidable (∀ _ ∈ _, _))

variable {address : String} {names : List String} {entries : List (Nat × String)}
  {targets targets' : List (Target Program)} {target other : Target Program} {p : Project}

/-! ### Names at one address -/

/-- The names that are new are declared in the order in which they first stand. -/
theorem declaredNames_eq (names : List String) (entries : List (Nat × String)) :
    declaredNames names entries =
      names ++ ((entries.map (·.2)).filter (· ∉ names)).eraseDups := by
  induction entries generalizing names with
  | nil => simp [declaredNames]
  | cons entry rest ih =>
    rw [declaredNames, List.map_cons]
    by_cases hin : entry.2 ∈ names
    · rw [if_pos hin, List.filter_cons_of_neg (by simpa using hin)]
      exact ih names
    · have hlater : (rest.map (·.2)).filter (· ∉ names ++ [entry.2]) =
          ((rest.map (·.2)).filter (· ∉ names)).filter fun name => !name == entry.2 := by
        rw [List.filter_filter]
        refine List.filter_congr fun name _ => ?_
        by_cases he : name = entry.2 <;> simp [he]
      rw [if_neg hin, List.filter_cons_of_pos (by simpa using hin), List.eraseDups_cons, ih, hlater,
        List.append_assoc, List.singleton_append]

theorem duplicates_eq_nil_iff : duplicates address names entries = [] ↔
    (entries.map (·.2)).Nodup ∧ ∀ name ∈ entries.map (·.2), name ∉ names := by
  induction entries generalizing names with
  | nil => simp [duplicates]
  | cons entry rest ih =>
    rw [duplicates, List.map_cons, List.nodup_cons, List.forall_mem_cons]
    by_cases hin : entry.2 ∈ names
    · simp [hin]
    · have hlater : (∀ name ∈ rest.map (·.2), name ∉ names ++ [entry.2]) ↔
          entry.2 ∉ rest.map (·.2) ∧ ∀ name ∈ rest.map (·.2), name ∉ names := by
        simp only [List.mem_append, List.mem_singleton, not_or]
        exact ⟨fun h => ⟨fun hm => (h _ hm).2 rfl, fun name hname => (h name hname).1⟩,
          fun h name hname => ⟨h.2 name hname, fun he => h.1 (he ▸ hname)⟩⟩
      rw [if_neg hin, ih, hlater]
      exact ⟨fun h => ⟨⟨h.2.1, h.1⟩, hin, h.2.2⟩, fun h => ⟨h.1.2, h.1.1, h.2.2⟩⟩

/-! ### Targets at one address -/

theorem exportNames_of_script (kind : target.kind = .script) : exportNames target = [] := by
  rw [exportNames, entriesOf, kind, List.map_nil]

theorem entriesAt_cons (address : String) (target : Target Program)
    (rest : List (Target Program)) : entriesAt address (target :: rest) =
      (if target.address = address then entriesOf target else []) ++ entriesAt address rest := by
  rw [entriesAt_eq, entriesAt_eq, List.flatMap_cons]

theorem entriesAt_eq_nil (hnone : ∀ target ∈ targets, target.kind = .module →
    target.address ≠ address) : entriesAt address targets = [] := by
  refine List.flatMap_eq_nil_iff.mpr fun target ht => ?_
  obtain ⟨hmem, haddress⟩ := List.mem_filter.mp ht
  rw [entriesOf]
  cases hkind : target.kind with
  | script => rfl
  | module => exact absurd (by simpa using haddress) (hnone target hmem hkind)

theorem ModulesApart.cons (apart : ModulesApart (target :: targets)) :
    (target.kind = .module → ∀ other ∈ targets, other.kind = .module →
      other.address ≠ target.address) ∧ ModulesApart targets := by
  cases hkind : target.kind with
  | script =>
    rw [ModulesApart, List.filter_cons_of_neg (by simp [hkind])] at apart
    exact ⟨fun he => (nomatch he), apart⟩
  | module =>
    rw [ModulesApart, List.filter_cons_of_pos (by simp [hkind]), List.map_cons,
      List.nodup_cons] at apart
    refine ⟨fun _ other ho kind he => apart.1 (List.mem_map.mpr ⟨other, ?_, he⟩), apart.2⟩
    exact List.mem_filter.mpr ⟨ho, by simpa using kind⟩

/-- A module alone decides what is declared at its address. -/
theorem entriesAt_of_module (apart : ModulesApart targets) (ht : target ∈ targets)
    (kind : target.kind = .module) : entriesAt target.address targets = entriesOf target := by
  induction targets with
  | nil => cases ht
  | cons first rest ih =>
    obtain ⟨hfirst, hrest⟩ := apart.cons
    rw [entriesAt_cons]
    rcases List.mem_cons.mp ht with rfl | ht
    · rw [if_pos rfl, entriesAt_eq_nil (hfirst kind), List.append_nil]
    · have hnothing : (if first.address = target.address then entriesOf first else []) = [] := by
        split
        · next same =>
          cases hkind : first.kind with
          | script => rw [entriesOf, hkind]
          | module => exact absurd same.symm (hfirst hkind target ht kind)
        · rfl
      rw [hnothing, ih hrest ht, List.nil_append]

theorem module_or_none (targets : List (Target Program)) (address : String) :
    (∃ target ∈ targets, target.kind = .module ∧ target.address = address) ∨
      ∀ target ∈ targets, target.kind = .module → target.address ≠ address := by
  by_cases h : ∃ target ∈ targets, target.kind = .module ∧ target.address = address
  · exact .inl h
  · exact .inr fun target ht kind he => h ⟨target, ht, kind, he⟩

theorem mem_entriesAt {name : String} : name ∈ (entriesAt address targets).map (·.2) ↔
    ∃ source ∈ targets, source.address = address ∧ name ∈ exportNames source := by
  simp only [entriesAt, List.map_flatMap, List.mem_flatMap, List.mem_filter, decide_eq_true_eq,
    exportNames, and_assoc]

/-! ### Errors -/

theorem declared_eq_nil_iff : (targets.foldl declare ⟨p, []⟩).diagnostics = [] ↔
    ∀ address, duplicates address (p.exportsOf address) (entriesAt address targets) = [] := by
  constructor
  · intro h address
    rw [← (known_declared address targets p).2, h, List.filter_nil]
  · intro h
    refine List.eq_nil_iff_forall_not_mem.mpr fun d hd => ?_
    obtain ⟨target, -, ha⟩ := (address_of_mem_foldl hd).resolve_left List.not_mem_nil
    have hmem : d ∈ (targets.foldl declare ⟨p, []⟩).diagnostics.filter
        (·.address = some target.address) := List.mem_filter.mpr ⟨hd, by simpa using ha⟩
    rw [(known_declared target.address targets p).2, h] at hmem
    cases hmem

theorem distinct_iff (apart : ModulesApart targets) :
    (∀ address, duplicates address (p.exportsOf address) (entriesAt address targets) = []) ↔
      ∀ target ∈ targets, (exportNames target).Nodup ∧
        ∀ name ∈ exportNames target, name ∉ p.exportsOf target.address := by
  constructor
  · intro h target ht
    cases hkind : target.kind with
    | script => simp [exportNames_of_script hkind]
    | module =>
      have hself := h target.address
      rwa [entriesAt_of_module apart ht hkind, duplicates_eq_nil_iff] at hself
  · intro h address
    rcases module_or_none targets address with ⟨target, ht, kind, rfl⟩ | hnone
    · rw [entriesAt_of_module apart ht kind, duplicates_eq_nil_iff]
      exact h target ht
    · rw [entriesAt_eq_nil hnone]
      rfl

theorem unboundIn_eq_nil_iff {q : Project} {line : Line} : unboundIn q address line = [] ↔
    ∀ names specifier, line.stmt = .imports names specifier →
      ∀ name ∈ names, name ∈ q.exportsOf (q.resolve specifier address) := by
  simp only [unboundIn]
  cases line.stmt with
  | imports names specifier =>
    rw [List.filterMap_eq_nil_iff]
    constructor
    · rintro h _ _ ⟨⟩ name hname
      have hnone := h name hname
      rcases q.resolveExport_cases (q.resolve specifier address) name with
        ⟨-, hin⟩ | ⟨e, he, -⟩
      · exact hin
      · rw [he] at hnone
        cases hnone
    · intro h name hname
      rcases q.resolveExport_cases (q.resolve specifier address) name with
        ⟨hok, -⟩ | ⟨e, -, hout⟩
      · rw [hok]
      · exact absurd (h names specifier rfl name hname) hout
  | _ => simp

theorem resolve_analyze (targets : List (Target Program)) (p : Project) (specifier base : String) :
    (analyze targets p).value.resolve specifier base = p.resolve specifier base :=
  congrFun (congrFun (resolver_foldl targets ⟨p, []⟩) specifier) base

/-- After the first pass an address has its old exports and those of the targets there. -/
theorem mem_exportsOf_analyze {name : String} :
    name ∈ (analyze targets p).value.exportsOf address ↔ name ∈ p.exportsOf address ∨
      ∃ source ∈ targets, source.address = address ∧ name ∈ exportNames source := by
  rw [exportsOf_analyze, mem_declaredNames, mem_entriesAt]

theorem unbound_eq_nil_iff : targets.flatMap (unbound (analyze targets p).value) = [] ↔
    ∀ target ∈ targets, ∀ line ∈ target.tree.lines, ∀ names specifier,
      line.stmt = .imports names specifier → ∀ name ∈ names,
        name ∈ p.exportsOf (p.resolve specifier target.address) ∨
          ∃ source ∈ targets, source.address = p.resolve specifier target.address ∧
            name ∈ exportNames source := by
  simp only [List.flatMap_eq_nil_iff, unbound, unboundIn_eq_nil_iff, resolve_analyze,
    mem_exportsOf_analyze]

theorem passes_iff (apart : ModulesApart targets) : Passes targets p ↔ Sound p targets := by
  have hnone : Passes targets p ↔ (analyze targets p).diagnostics = [] := by
    constructor
    · intro h
      refine List.eq_nil_iff_forall_not_mem.mpr fun d hd => ?_
      cases (h d hd).symm.trans (isError_of_mem_analyze hd)
    · intro h d hd
      rw [h] at hd
      cases hd
  have hsplit : (analyze targets p).diagnostics = [] ↔
      (targets.foldl declare ⟨p, []⟩).diagnostics = [] ∧
        targets.flatMap (unbound (analyze targets p).value) = [] := List.append_eq_nil_iff
  rw [hnone, hsplit, declared_eq_nil_iff, distinct_iff apart, unbound_eq_nil_iff]
  exact ⟨fun h => ⟨h.1, h.2⟩, fun h => ⟨h.distinct, h.bound⟩⟩

/-! ### Symbols -/

theorem module?_of_mem (ht : target ∈ targets) :
    (analyze targets p).value.module? target.address =
      some ⟨target.address, declaredNames (p.exportsOf target.address)
        (entriesAt target.address targets)⟩ := by
  have hfold : ∀ rest (v : Option ModuleSymbol × List Diagnostic), rest ≠ [] ∨ v.1.isSome →
      (rest.foldl declareAt v).1.isSome := by
    intro rest
    induction rest with
    | nil => exact fun v h => h.resolve_left (fun h => h rfl)
    | cons first rest ih => exact fun v _ => ih _ (.inr rfl)
  have hsome : ((analyze targets p).value.module? target.address).isSome := by
    have hmem : target ∈ targets.filter (·.address = target.address) :=
      List.mem_filter.mpr ⟨ht, by simp⟩
    have hknown := known_foldl target.address targets ⟨p, []⟩
    have hdone := hfold _ (known target.address ⟨p, []⟩) (.inl (List.ne_nil_of_mem hmem))
    rwa [← hknown] at hdone
  obtain ⟨symbol, hs⟩ := Option.isSome_iff_exists.mp hsome
  have haddress : symbol.address = target.address := Project.address_of_module? _ hs
  have hexports := exportsOf_analyze target.address targets p
  rw [exportsOf_eq, hs] at hexports
  obtain ⟨address, exports⟩ := symbol
  rw [hs, ← hexports, ← haddress]
  rfl

/-- Where a module is, or none at all, a target adds its own exports to the old ones. -/
theorem module?_of_alone (apart : ModulesApart targets) (ht : target ∈ targets)
    (alone : target.kind = .module ∨ ∀ other ∈ targets, other.kind = .module →
      other.address ≠ target.address) :
    (analyze targets p).value.module? target.address =
      some ⟨target.address, exportsWith (p.exportsOf target.address) target⟩ := by
  have hentries : entriesAt target.address targets = entriesOf target := by
    cases hkind : target.kind with
    | module => exact entriesAt_of_module apart ht hkind
    | script =>
      have hnone := alone.resolve_left (by simp [hkind])
      rw [entriesAt_eq_nil hnone, entriesOf, hkind]
  rw [module?_of_mem ht, hentries, declaredNames_eq, exportsWith, exportNames]

theorem module?_of_not_mem (hnone : ∀ target ∈ targets, target.address ≠ address) :
    (analyze targets p).value.module? address = p.module? address := by
  have hempty : targets.filter (·.address = address) = [] :=
    List.filter_eq_nil_iff.mpr fun target ht => by simpa using hnone target ht
  have hknown := known_foldl address targets ⟨p, []⟩
  rw [hempty] at hknown
  exact congrArg Prod.fst hknown

theorem ModulesApart.perm (apart : ModulesApart targets) (h : targets.Perm targets') :
    ModulesApart targets' :=
  ((h.filter _).map _).nodup_iff.mp apart

theorem Sound.perm (h : targets.Perm targets') (sound : Sound p targets) : Sound p targets' where
  distinct target ht := sound.distinct target (h.mem_iff.mpr ht)
  bound target ht line hline names specifier himport name hname := by
    refine (sound.bound target (h.mem_iff.mpr ht) line hline names specifier himport name
      hname).imp_right ?_
    exact fun ⟨source, hs, hrest⟩ => ⟨source, h.mem_iff.mp hs, hrest⟩

theorem entriesAt_perm (apart : ModulesApart targets) (h : targets.Perm targets')
    (address : String) : entriesAt address targets' = entriesAt address targets := by
  rcases module_or_none targets address with ⟨target, ht, kind, rfl⟩ | hnone
  · rw [entriesAt_of_module apart ht kind,
      entriesAt_of_module (apart.perm h) (h.mem_iff.mp ht) kind]
  · rw [entriesAt_eq_nil hnone, entriesAt_eq_nil fun target ht => hnone target (h.mem_iff.mpr ht)]

theorem module?_perm (apart : ModulesApart targets) (h : targets.Perm targets')
    (address : String) :
    (analyze targets' p).value.module? address = (analyze targets p).value.module? address := by
  by_cases hmem : ∃ target ∈ targets, target.address = address
  · obtain ⟨target, ht, rfl⟩ := hmem
    rw [module?_of_mem ht, module?_of_mem (h.mem_iff.mp ht), entriesAt_perm apart h]
  · have hnone : ∀ target ∈ targets, target.address ≠ address :=
      fun target ht he => hmem ⟨target, ht, he⟩
    rw [module?_of_not_mem hnone,
      module?_of_not_mem fun target ht => hnone target (h.mem_iff.mpr ht)]

end Linking

/-- The units that a session analyses together are so: two modules at one address are one. -/
theorem Session.Provenance.modulesApart [Text.Xid] {Listener : Type} {resolver : Resolver}
    {s : Session Program Value Listener} (h : s.Provenance resolver) :
    Linking.ModulesApart s.batchTargets := by
  have hids := Build.nodup_targets s.cache
  rw [Linking.ModulesApart, batchTargets, List.filter_map, List.map_map]
  refine List.Nodup.map_on (fun r hr r' hr' same => ?_) (hids.of_map _ |>.filter _)
  obtain ⟨hr, kind⟩ := List.mem_filter.mp hr
  obtain ⟨hr', kind'⟩ := List.mem_filter.mp hr'
  obtain ⟨u, tree, hu, -, -, he⟩ := Build.mem_targets.mp hr
  obtain ⟨v, tree', hv, -, -, he'⟩ := Build.mem_targets.mp hr'
  simp only [Function.comp_apply, he, he', decide_eq_true_eq] at kind kind' same
  exact List.inj_on_of_nodup_map hids hr hr' (h.module_unique hu hv kind kind' same)

namespace Linking

/-- A batch passes when it is sound. Each address of a target has its old exports and then those
that the target adds; where a module is, it is the module that adds them. Nothing of this depends
on the order of the targets, and other addresses stay as they are. -/
theorem verdict_and_exports (targets : List (Target Program)) (p : Project)
    (apart : ModulesApart targets) :
    (Passes targets p ↔ Sound p targets) ∧
      (∀ target ∈ targets, (target.kind = .module ∨ ∀ other ∈ targets, other.kind = .module →
          other.address ≠ target.address) →
        (analyze targets p).value.module? target.address =
          some ⟨target.address, exportsWith (p.exportsOf target.address) target⟩) ∧
      (∀ address, (∀ target ∈ targets, target.address ≠ address) →
        (analyze targets p).value.module? address = p.module? address) ∧
      ∀ targets', targets.Perm targets' → (Passes targets' p ↔ Passes targets p) ∧
        ∀ address, (analyze targets' p).value.module? address =
          (analyze targets p).value.module? address := by
  refine ⟨passes_iff apart, fun target => module?_of_alone apart, fun address => module?_of_not_mem,
    fun targets' h => ⟨?_, module?_perm apart h⟩⟩
  rw [passes_iff apart, passes_iff (apart.perm h)]
  exact ⟨Sound.perm h.symm, Sound.perm h⟩

/-- Two modules that import each other, and a script at the address of the first. -/
def cyclicBatch : List (Target Program) :=
  [("/a", .script, "import x from \"/a\"\nimport z from \"./old\""),
    ("/a", .module, "import y from \"./b\"\nexport x = y\nexport w = 1"),
    ("/b", .module, "import x, w from \"./a\"\nexport y = 2")].map
      fun (address, kind, text) => ⟨address, kind, (Lang.parse ⟨address, text⟩ kind).value⟩

/-- One module was loaded before. -/
def oldProject : Project :=
  { Project.empty "/" Address.resolve with modules := [⟨"/old", ["z"]⟩] }

theorem verdict_and_exports_cyclic : ModulesApart cyclicBatch ∧
    Sound oldProject cyclicBatch ∧ Passes cyclicBatch.reverse oldProject ∧
      ∀ target ∈ cyclicBatch, target.kind = .module →
        (analyze cyclicBatch.reverse oldProject).value.module? target.address =
          some ⟨target.address, exportNames target⟩ := by
  have apart : ModulesApart cyclicBatch := by decide +kernel
  have hpasses : Passes cyclicBatch oldProject := by decide +kernel
  obtain ⟨hsound, hexports, -, hperm⟩ := verdict_and_exports cyclicBatch oldProject apart
  obtain ⟨hverdict, hsame⟩ := hperm _ cyclicBatch.reverse_perm.symm
  have hnew : ∀ target ∈ cyclicBatch,
      exportsWith (oldProject.exportsOf target.address) target = exportNames target := by
    decide +kernel
  refine ⟨apart, hsound.mp hpasses, hverdict.mpr hpasses, fun target ht kind => ?_⟩
  rw [hsame, hexports target ht (.inl kind), hnew target ht]

end Linking

end UnitLoader
