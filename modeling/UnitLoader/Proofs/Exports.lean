import UnitLoader.Proofs.Performance

/-! What a session knows of the exports of its modules. An address has the exports of the
one module that is at it, in the order of the module's text and without repetition; and a
unit is executed only when all that it imports is exported. -/

namespace UnitLoader

/-! ### Analysis without errors -/

namespace Linking

variable {address : String} {names : List String} {entries : List (Nat × String)}
  {targets : List (Target Program)} {p : Project}

theorem mem_declaredNames {name : String} :
    name ∈ declaredNames names entries ↔ name ∈ names ∨ name ∈ entries.map (·.2) := by
  induction entries generalizing names with
  | nil => simp [declaredNames]
  | cons entry rest ih =>
    rw [declaredNames, ih, List.map_cons, List.mem_cons]
    split
    · next hin =>
      have hentry : name = entry.2 → name ∈ names := fun he => he ▸ hin
      exact ⟨fun h => h.imp_right .inr, fun h => h.elim .inl (·.imp_left hentry)⟩
    · rw [List.mem_append, List.mem_singleton, or_assoc]

theorem declaredNames_append (more : List (Nat × String)) :
    declaredNames names (entries ++ more) = declaredNames (declaredNames names entries) more := by
  induction entries generalizing names with
  | nil => rfl
  | cons entry rest ih => exact ih

theorem duplicates_append (more : List (Nat × String)) :
    duplicates address names (entries ++ more) =
      duplicates address names entries ++
        duplicates address (declaredNames names entries) more := by
  induction entries generalizing names with
  | nil => rfl
  | cons entry rest ih =>
    simp only [List.cons_append, duplicates, declaredNames]
    split
    · rw [ih, List.cons_append]
    · exact ih

/-- Without duplicates the names are declared one behind the other. -/
theorem declaredNames_of_distinct (h : duplicates address names entries = []) :
    declaredNames names entries = names ++ entries.map (·.2) ∧
      (names.Nodup → (names ++ entries.map (·.2)).Nodup) := by
  induction entries generalizing names with
  | nil => simp [declaredNames]
  | cons entry rest ih =>
    rw [duplicates] at h
    split at h
    · cases h
    · next hnew =>
      obtain ⟨hnames, hnodup⟩ := ih h
      rw [List.append_assoc] at hnames hnodup
      refine ⟨by rw [declaredNames, if_neg hnew]; exact hnames, fun hn => hnodup ?_⟩
      exact List.nodup_append.mpr ⟨hn, List.nodup_singleton _, fun a ha b hb => by
        obtain rfl := List.mem_singleton.mp hb
        rintro rfl
        exact hnew ha⟩

theorem declareAt_foldl (v : Option ModuleSymbol × List Diagnostic)
    (same : ∀ target ∈ targets, target.address = address) :
    let done := targets.foldl declareAt v
    let names := (v.1.map (·.exports)).getD []
    let entries := targets.flatMap entriesOf
    (done.1.map (·.exports)).getD [] = declaredNames names entries ∧
      done.2 = v.2 ++ duplicates address names entries := by
  induction targets generalizing v with
  | nil => simp [declaredNames, duplicates]
  | cons target rest ih =>
    obtain ⟨hfirst, hrest⟩ := List.forall_mem_cons.mp same
    obtain ⟨hnames, hdiagnostics⟩ := ih (declareAt v target) hrest
    simp only [List.foldl_cons, List.flatMap_cons, declaredNames_append, duplicates_append]
    refine ⟨hnames, hdiagnostics.trans ?_⟩
    simp only [declareAt, hfirst, List.append_assoc]
    rfl

/-- What the targets at an address export together. -/
def entriesAt (address : String) (targets : List (Target Program)) : List (Nat × String) :=
  (targets.filter (·.address = address)).flatMap entriesOf

theorem known_declared (address : String) (targets : List (Target Program)) (p : Project) :
    let done := targets.foldl declare ⟨p, []⟩
    done.value.exportsOf address = declaredNames (p.exportsOf address) (entriesAt address targets) ∧
      done.diagnostics.filter (·.address = some address) =
        duplicates address (p.exportsOf address) (entriesAt address targets) := by
  have hknown := known_foldl address targets ⟨p, []⟩
  have hsame : ∀ target ∈ targets.filter (·.address = address), target.address = address := by simp
  obtain ⟨hnames, hdiagnostics⟩ := declareAt_foldl (known address ⟨p, []⟩) hsame
  rw [← hknown] at hnames hdiagnostics
  intro done
  rw [exportsOf_eq, exportsOf_eq]
  exact ⟨hnames, hdiagnostics⟩

theorem exportsOf_analyze (address : String) (targets : List (Target Program)) (p : Project) :
    (analyze targets p).value.exportsOf address =
      declaredNames (p.exportsOf address) (entriesAt address targets) :=
  (known_declared address targets p).1

theorem duplicates_of_analyze (h : (analyze targets p).diagnostics = []) (address : String) :
    duplicates address (p.exportsOf address) (entriesAt address targets) = [] := by
  have hdeclared := (List.append_eq_nil_iff.mp h).1
  rw [← (known_declared address targets p).2, hdeclared]
  rfl

/-- Analysis lets no import pass of a name that is not exported. -/
theorem exported_of_analyze (h : (analyze targets p).diagnostics = []) {target : Target Program}
    (ht : target ∈ targets) {line : Line} (hline : line ∈ target.tree.lines)
    {names : List String} {specifier : String} (himport : line.stmt = .imports names specifier) :
    ∀ name ∈ names,
      name ∈ (analyze targets p).value.exportsOf (p.resolver specifier target.address) := by
  have hunbound := List.flatMap_eq_nil_iff.mp (List.append_eq_nil_iff.mp h).2 target ht
  have hin := List.flatMap_eq_nil_iff.mp hunbound line hline
  simp only [unboundIn, himport, List.filterMap_eq_nil_iff] at hin
  intro name hname
  have hresolved := hin name hname
  have hresolver : (targets.foldl declare ⟨p, []⟩).value.resolver = p.resolver :=
    resolver_foldl targets ⟨p, []⟩
  simp only [Project.resolve, hresolver, Project.resolveExport] at hresolved
  rw [exportsOf_eq]
  show name ∈ (Option.map _ ((targets.foldl declare ⟨p, []⟩).value.module? _)).getD []
  cases hm : (targets.foldl declare ⟨p, []⟩).value.module?
      (p.resolver specifier target.address) with
  | none => simp [hm] at hresolved
  | some symbol =>
    rw [hm] at hresolved
    by_cases hmem : name ∈ symbol.exports
    · exact hmem
    · simp [hmem] at hresolved

theorem isError_of_mem_duplicates {d : Diagnostic} (h : d ∈ duplicates address names entries) :
    d.isError = true := by
  induction entries generalizing names with
  | nil => simp [duplicates] at h
  | cons entry rest ih =>
    rw [duplicates] at h
    split at h
    · rcases List.mem_cons.mp h with rfl | h
      · rfl
      · exact ih h
    · exact ih h

theorem isError_of_mem_analyze {d : Diagnostic} (h : d ∈ (analyze targets p).diagnostics) :
    d.isError = true := by
  rcases List.mem_append.mp h with h | h
  · obtain ⟨target, -, ha⟩ := (address_of_mem_foldl h).resolve_left List.not_mem_nil
    have hfilter : d ∈ (targets.foldl declare ⟨p, []⟩).diagnostics.filter
        (·.address = some target.address) := List.mem_filter.mpr ⟨h, by simp [ha]⟩
    rw [(known_declared target.address targets p).2] at hfilter
    exact isError_of_mem_duplicates hfilter
  · obtain ⟨target, -, h⟩ := List.mem_flatMap.mp h
    obtain ⟨line, -, h⟩ := List.mem_flatMap.mp h
    simp only [unboundIn] at h
    split at h
    · obtain ⟨name, -, h⟩ := List.mem_filterMap.mp h
      split at h
      · cases h
      · obtain rfl := Option.some.inj h
        rfl
    · cases h

theorem entriesAt_eq (address : String) (targets : List (Target Program)) :
    entriesAt address targets =
      targets.flatMap fun target => if target.address = address then entriesOf target else [] := by
  induction targets with
  | nil => rfl
  | cons target rest ih =>
    rw [List.flatMap_cons, ← ih, entriesAt, List.filter_cons]
    by_cases h : target.address = address <;> simp [h, entriesAt]

end Linking

theorem flatMap_of_single {α β : Type} {l : List (UnitId × α)} {f : α → List β} {id : UnitId}
    {x : α} (nodup : (l.map (·.1)).Nodup) (hx : (id, x) ∈ l)
    (others : ∀ r ∈ l, r.1 ≠ id → f r.2 = []) : (l.map (·.2)).flatMap f = f x := by
  induction l with
  | nil => cases hx
  | cons r l ih =>
    rw [List.map_cons, List.nodup_cons] at nodup
    rw [List.map_cons, List.flatMap_cons]
    rcases List.mem_cons.mp hx with rfl | hx
    · have hrest : (l.map (·.2)).flatMap f = [] := by
        refine List.flatMap_eq_nil_iff.mpr fun y hy => ?_
        obtain ⟨r, hr, rfl⟩ := List.mem_map.mp hy
        exact others r (List.mem_cons_of_mem _ hr) fun he =>
          nodup.1 (List.mem_map.mpr ⟨r, hr, he⟩)
      rw [hrest, List.append_nil]
    · have hne : r.1 ≠ id := fun he => nodup.1 (by rw [he]; exact List.mem_map_of_mem hx)
      rw [others r List.mem_cons_self hne, List.nil_append]
      exact ih nodup.2 hx fun y hy => others y (List.mem_cons_of_mem _ hy)

theorem Build.nodup_targets {Tree Value Listener : Type} (c : Cache Tree Value Listener) :
    ((targets c).map (·.1)).Nodup := by
  have hsublist (ids : List UnitId) : ((ids.filterMap (target? c)).map (·.1)).Sublist ids := by
    induction ids with
    | nil => exact .slnil
    | cons id ids ih =>
      rw [List.filterMap_cons]
      cases ht : target? c id with
      | none => exact ih.cons id
      | some r =>
        have hid : r.1 = id := by
          simp only [target?] at ht
          split at ht
          · cases ht
          · split at ht
            · obtain ⟨tree, -, rfl⟩ := Option.map_eq_some_iff.mp ht
              rfl
            · cases ht
        simp only [List.map_cons, hid]
        exact ih.cons_cons id
  exact c.nodup_ids.sublist (hsublist c.ids)

/-! ### Sessions -/

namespace Session

variable {Listener : Type} {resolver : Resolver} {s t : Session Program Value Listener}
  {id j : UnitId} {u v : SourceUnit Program Value Listener}

theorem Provenance.module_unique [Text.Xid] (h : s.Provenance resolver) (hu : s.cache.get? id = some u)
    (hv : s.cache.get? j = some v) (kindu : u.kind = .module) (kindv : v.kind = .module)
    (same : u.address = v.address) : id = j := by
  have hload {i : UnitId} {w : SourceUnit Program Value Listener} (hw : s.cache.get? i = some w)
      (kind : w.kind = .module) : s.cache.lookup w.address .module = some i := by
    have hstems := h.stems i w hw
    have horigin : w.origin = .load := by
      cases ho : w.origin with
      | load => rfl
      | eval => cases kind.symm.trans (hstems.given ho)
    have hfound := hstems.found horigin
    rwa [kind] at hfound
  have hl := hload hu kindu
  rw [same, hload hv kindv] at hl
  exact (Option.some.inj hl).symm

def batchTargets (s : Session Program Value Listener) : List (Target Program) :=
  (Build.targets s.cache).map (·.2)

theorem Provenance.entriesAt_of_parsed [Text.Xid] (h : s.Provenance resolver) (hu : s.cache.get? id = some u)
    (parsed : u.state = .parsed) (kind : u.kind = .module) {tree : Program}
    (ht : u.tree = some tree) :
    Linking.entriesAt u.address s.batchTargets = tree.exported := by
  rw [Linking.entriesAt_eq, batchTargets]
  refine (flatMap_of_single (Build.nodup_targets s.cache)
    (Build.mem_targets.mpr ⟨u, tree, hu, parsed, ht, rfl⟩) fun r hr hne => ?_).trans ?_
  · obtain ⟨v, other, hv, -, -, he⟩ := Build.mem_targets.mp hr
    rw [he]
    split
    · next hsame =>
      cases hkind : v.kind with
      | script => simp [Linking.entriesOf]
      | module => exact absurd (h.module_unique hv hu hkind kind hsame) hne
    · rfl
  · simp [Linking.entriesOf, kind]

theorem entriesAt_eq_nil {address : String} (none : ∀ j v, s.cache.get? j = some v →
    v.state = .parsed → v.kind = .module → v.address ≠ address) :
    Linking.entriesAt address s.batchTargets = [] := by
  rw [Linking.entriesAt_eq, List.flatMap_eq_nil_iff]
  intro target ht
  obtain ⟨r, hr, rfl⟩ := List.mem_map.mp ht
  obtain ⟨v, tree, hv, hparsed, -, he⟩ := Build.mem_targets.mp hr
  rw [he]
  split
  · next hsame =>
    cases hkind : v.kind with
    | script => simp [Linking.entriesOf]
    | module => exact absurd hsame (none r.1 v hv hparsed hkind)
  · rfl

theorem Executes.analysis_sound [Text.Xid] (h : s.Executes) (plain : s.tools = Lang.toolchain) :
    s.analysis.diagnostics = [] := by
  have hnone := h.analysed
  refine List.eq_nil_iff_forall_not_mem.mpr fun d hd => ?_
  have herror := List.filter_eq_nil_iff.mp hnone d hd
  rw [analysis, plain] at hd
  exact herror (Linking.isError_of_mem_analyze hd)

/-- What is known of the exports of modules. Each was found in a module that has settled; of
a unit that was executed, all exports are known, and all imports are among them. -/
structure Exporting (resolver : Resolver) (s : Session Program Value Listener) : Prop where
  stated : ∀ address, ∀ name ∈ s.project.exportsOf address, ∃ id u tree,
    s.cache.get? id = some u ∧ u.state.isSettled = true ∧ u.address = address ∧
      u.kind = .module ∧ u.tree = some tree ∧ name ∈ tree.exported.map (·.2)
  exported : ∀ id ∈ unitsOf s.deeds, ∀ u tree, s.cache.get? id = some u → u.kind = .module →
    u.tree = some tree → s.project.exportsOf u.address = tree.exported.map (·.2) ∧
      (tree.exported.map (·.2)).Nodup
  imported : ∀ id ∈ unitsOf s.deeds, ∀ u tree, s.cache.get? id = some u → u.tree = some tree →
    ∀ line ∈ tree.lines, ∀ names specifier, line.stmt = .imports names specifier →
      ∀ name ∈ names, name ∈ s.project.exportsOf (resolver specifier u.address)

theorem Performed.get?_back (hp : s.Performed resolver) (settled : s.KeepsSettled t)
    (hid : id ∈ unitsOf s.deeds) (hv : t.cache.get? id = some v) :
    s.cache.get? id = some v ∧ v.state.isSettled = true := by
  obtain ⟨u, hu, hset⟩ := hp.settled id hid
  obtain rfl := Option.some.inj (hv.symm.trans (settled id u hu hset))
  exact ⟨hu, hset⟩

theorem Exporting.of_same (h : s.Exporting resolver) (hp : s.Performed resolver)
    (settled : s.KeepsSettled t) (deeds : t.deeds = s.deeds)
    (exports : ∀ address, t.project.exportsOf address = s.project.exportsOf address) :
    t.Exporting resolver where
  stated := by
    intro address name hname
    rw [exports] at hname
    obtain ⟨id, u, tree, hu, hset, hrest⟩ := h.stated address name hname
    exact ⟨id, u, tree, settled id u hu hset, hset, hrest⟩
  exported := by
    rw [deeds]
    intro id hid v tree hv hkind ht
    rw [exports]
    exact h.exported id hid v tree (hp.get?_back settled hid hv).1 hkind ht
  imported := by
    rw [deeds]
    intro id hid v tree hv ht line hline names specifier himport name hname
    rw [exports]
    exact h.imported id hid v tree (hp.get?_back settled hid hv).1 ht line hline names specifier
      himport name hname

/-- A batch was analysed, and all of its units have settled, some of them executed. -/
structure Analyses (s t : Session Program Value Listener) (new : List (Deed Value)) : Prop where
  settled : s.KeepsSettled t
  calm : t.Calm
  stem : ∀ id u, s.cache.get? id = some u → ∃ v, t.cache.get? id = some v ∧ v.stem = u.stem
  exports : ∀ address, t.project.exportsOf address = s.analysis.value.exportsOf address
  deeds : t.deeds = s.deeds ++ new
  parsed : ∀ id ∈ unitsOf new, s.cache.isIn .parsed id = true
  sound : new ≠ [] → s.analysis.diagnostics = []

namespace Analyses

variable {new : List (Deed Value)}

theorem exportsOf [Text.Xid] (h : Analyses s t new) (hs : s.Provenance resolver) (address : String) :
    t.project.exportsOf address = Linking.declaredNames (s.project.exportsOf address)
      (Linking.entriesAt address s.batchTargets) := by
  rw [h.exports, analysis, hs.plain.tools]
  exact Linking.exportsOf_analyze address s.batchTargets s.project

theorem stated [Text.Xid] (h : Analyses s t new) (hs : s.Provenance resolver) (he : s.Exporting resolver)
    {address name : String} (hname : name ∈ t.project.exportsOf address) : ∃ id u tree,
      t.cache.get? id = some u ∧ u.state.isSettled = true ∧ u.address = address ∧
        u.kind = .module ∧ u.tree = some tree ∧ name ∈ tree.exported.map (·.2) := by
  rw [h.exportsOf hs, Linking.mem_declaredNames] at hname
  rcases hname with hold | hnew
  · obtain ⟨id, u, tree, hu, hset, hrest⟩ := he.stated address name hold
    exact ⟨id, u, tree, h.settled id u hu hset, hset, hrest⟩
  · obtain ⟨entry, hentry, rfl⟩ := List.mem_map.mp hnew
    obtain ⟨target, htarget, hentry⟩ := List.mem_flatMap.mp hentry
    obtain ⟨htarget, haddress⟩ := List.mem_filter.mp htarget
    obtain ⟨r, hr, rfl⟩ := List.mem_map.mp htarget
    obtain ⟨u, tree, hu, -, ht, hr⟩ := Build.mem_targets.mp hr
    rw [hr] at haddress hentry
    obtain ⟨v, hv, hstem⟩ := h.stem r.1 u hu
    obtain ⟨hvaddress, hvkind, -, hvtree, -⟩ := SourceUnit.fields_of_stem hstem
    cases hkind : u.kind with
    | script => simp [Linking.entriesOf, hkind] at hentry
    | module =>
      rw [Linking.entriesOf, hkind] at hentry
      refine ⟨r.1, v, tree, hv, h.calm.settled r.1 v hv, ?_, hvkind.trans hkind,
        hvtree.trans ht, List.mem_map_of_mem hentry⟩
      rw [hvaddress]
      simpa using haddress

theorem exportsOf_old [Text.Xid] (h : Analyses s t new) (hs : s.Provenance resolver)
    (hu : s.cache.get? id = some u) (hset : u.state.isSettled = true) (kind : u.kind = .module) :
    t.project.exportsOf u.address = s.project.exportsOf u.address := by
  rw [h.exportsOf hs, entriesAt_eq_nil]
  · rfl
  · intro j v hv hparsed hkind hsame
    obtain rfl := hs.module_unique hv hu hkind kind hsame
    obtain rfl := Option.some.inj (hu.symm.trans hv)
    simp [hparsed, State.isSettled] at hset

theorem exportsOf_new [Text.Xid] (h : Analyses s t new) (hs : s.Provenance resolver)
    (he : s.Exporting resolver) (sound : s.analysis.diagnostics = [])
    (hu : s.cache.get? id = some u) (parsed : u.state = .parsed) (kind : u.kind = .module)
    {tree : Program} (ht : u.tree = some tree) :
    t.project.exportsOf u.address = tree.exported.map (·.2) ∧
      (tree.exported.map (·.2)).Nodup := by
  have hentries := hs.entriesAt_of_parsed hu parsed kind ht
  have hnone : s.project.exportsOf u.address = [] := by
    refine List.eq_nil_iff_forall_not_mem.mpr fun name hname => ?_
    obtain ⟨j, v, -, hv, hset, hsame, hkind, -⟩ := he.stated _ name hname
    obtain rfl := hs.module_unique hv hu hkind kind hsame
    obtain rfl := Option.some.inj (hu.symm.trans hv)
    simp [parsed, State.isSettled] at hset
  have hsound : (Linking.analyze s.batchTargets s.project).diagnostics = [] := by
    rw [analysis, hs.plain.tools] at sound
    exact sound
  have hdistinct := Linking.duplicates_of_analyze hsound u.address
  rw [hentries, hnone] at hdistinct
  obtain ⟨hnames, hnodup⟩ := Linking.declaredNames_of_distinct hdistinct
  rw [h.exportsOf hs, hentries, hnone]
  exact ⟨by simpa using hnames, by simpa using hnodup List.nodup_nil⟩

theorem mem_unitsOf_cases (h : Analyses s t new) (hid : id ∈ unitsOf t.deeds) :
    id ∈ unitsOf s.deeds ∨ id ∈ unitsOf new ∧ s.analysis.diagnostics = [] := by
  rw [h.deeds, unitsOf, List.filterMap_append] at hid
  refine (List.mem_append.mp hid).imp_right fun hnew => ⟨hnew, h.sound ?_⟩
  rintro rfl
  cases hnew

/-- A unit of the batch as it was when it was analysed. -/
theorem exists_parsed (h : Analyses s t new) (hid : id ∈ unitsOf new)
    (hv : t.cache.get? id = some v) :
    ∃ u, s.cache.get? id = some u ∧ u.state = .parsed ∧ v.stem = u.stem := by
  obtain ⟨u, hu, hparsed⟩ := Cache.isIn_iff.mp (h.parsed id hid)
  obtain ⟨w, hw, hstem⟩ := h.stem id u hu
  obtain rfl := Option.some.inj (hv.symm.trans hw)
  exact ⟨u, hu, hparsed, hstem⟩

theorem imported_new [Text.Xid] (h : Analyses s t new) (hs : s.Provenance resolver)
    (sound : s.analysis.diagnostics = []) (hu : s.cache.get? id = some u)
    (parsed : u.state = .parsed) {tree : Program} (ht : u.tree = some tree) {line : Line}
    (hline : line ∈ tree.lines) {names : List String} {specifier : String}
    (himport : line.stmt = .imports names specifier) :
    ∀ name ∈ names, name ∈ t.project.exportsOf (resolver specifier u.address) := by
  intro name hname
  have htarget : (⟨u.address, u.kind, tree⟩ : Target Program) ∈ s.batchTargets :=
    List.mem_map_of_mem (f := (·.2)) (Build.mem_targets.mpr ⟨u, tree, hu, parsed, ht, rfl⟩)
  rw [analysis, hs.plain.tools] at sound
  have hexported := Linking.exported_of_analyze sound htarget hline himport name hname
  rw [hs.plain.resolver] at hexported
  rw [h.exports, analysis, hs.plain.tools]
  exact hexported

theorem exporting [Text.Xid] (h : Analyses s t new) (hs : s.Provenance resolver) (hp : s.Performed resolver)
    (he : s.Exporting resolver) : t.Exporting resolver where
  stated := fun address name => h.stated hs he
  exported := by
    intro id hid v tree hv hkind ht
    rcases h.mem_unitsOf_cases hid with hold | ⟨hnew, hsound⟩
    · obtain ⟨hu, hset⟩ := hp.get?_back h.settled hold hv
      rw [h.exportsOf_old hs hu hset hkind]
      exact he.exported id hold v tree hu hkind ht
    · obtain ⟨u, hu, hparsed, hstem⟩ := h.exists_parsed hnew hv
      obtain ⟨haddress, hvkind, -, hvtree, -⟩ := SourceUnit.fields_of_stem hstem
      rw [haddress]
      exact h.exportsOf_new hs he hsound hu hparsed (hvkind.symm.trans hkind) (hvtree.symm.trans ht)
  imported := by
    intro id hid v tree hv ht line hline names specifier himport name hname
    rcases h.mem_unitsOf_cases hid with hold | ⟨hnew, hsound⟩
    · have hu := (hp.get?_back h.settled hold hv).1
      rw [h.exportsOf hs, Linking.mem_declaredNames]
      exact .inl (he.imported id hold v tree hu ht line hline names specifier himport name hname)
    · obtain ⟨u, hu, hparsed, hstem⟩ := h.exists_parsed hnew hv
      obtain ⟨haddress, -, -, hvtree, -⟩ := SourceUnit.fields_of_stem hstem
      rw [haddress]
      exact h.imported_new hs hsound hu hparsed (hvtree.symm.trans ht) hline himport name hname

end Analyses

end Session

/-- A session of the plain language, with all that was done in it and is known of it. -/
structure Session.Regular [Text.Xid] {Listener : Type} (resolver : Resolver)
    (s : Session Program Value Listener) : Prop extends
    s.Performance resolver, s.Exporting resolver

open Session

theorem Project.exportsOf_congr {p q : Project} (h : q.modules = p.modules) (address : String) :
    q.exportsOf address = p.exportsOf address := by
  simp only [exportsOf, module?, h]

theorem Project.exportsOf_addModule (p : Project) (address other : String) :
    (p.addModule address).exportsOf other = p.exportsOf other := by
  rw [Linking.exportsOf_eq, Linking.exportsOf_eq, module?_addModule]
  split
  · cases p.module? other <;> rfl
  · rfl

theorem Session.Reads.exportsOf {Tree Value Listener : Type} {s t : Session Tree Value Listener}
    {id : UnitId} {u : SourceUnit Tree Value Listener} {tree : Tree} {imports : List UnitId}
    (h : Reads s t id u tree imports) (address : String) :
    t.project.exportsOf address = s.project.exportsOf address := by
  rw [h.project, Project.exportsOf_addModule]
  refine Project.exportsOf_congr ?_ address
  simp only [Project.setParsed]
  split <;> rfl

theorem lasting_regular [Text.Xid] (resolver : Resolver) :
    Lasting fun s : Session Program Value (UnitLoader.Listener Value) => s.Regular resolver where
  still := by
    intro s t hs hstill hundisturbed
    exact
      { toPerformance :=
          (lasting_performance resolver).still s t hs.toPerformance hstill hundisturbed
        toExporting := hs.toExporting.of_same hs.toPerformed hundisturbed.settled hstill.deeds
          (Project.exportsOf_congr hstill.modules) }
  gains := by
    intro s t w hrest hs hgains hnew hundisturbed
    exact
      { toPerformance :=
          (lasting_performance resolver).gains s t w hrest hs.toPerformance hgains hnew hundisturbed
        toExporting := hs.toExporting.of_same hs.toPerformed hundisturbed.settled hgains.deeds
          (Project.exportsOf_congr hgains.modules) }
  moves := by
    intro m n hm hs hmove
    have hsettled := (hmove.develops hm).keepsSettled
    have hexporting : n.session.Exporting resolver := by
      cases hmove.turns hm with
      | still still =>
        exact hs.toExporting.of_same hs.toPerformed hsettled still.deeds
          (Project.exportsOf_congr still.modules)
      | reads unit loaded sound reads still =>
        have hdeeds := deeds_append reads.history (by simp [Event.deed?])
        exact hs.toExporting.of_same hs.toPerformed hsettled (still.deeds.trans hdeeds)
          fun address => (Project.exportsOf_congr still.modules address).trans
            (reads.exportsOf address)
      | stops ready falls still =>
        have hdeeds : m.session.analysedSession.deeds = m.session.deeds :=
          deeds_append rfl (by simp [analyzedEvent, Event.deed?])
        have hanalyses : Analyses m.session n.session [] :=
          { settled := hsettled
            calm := falls.calm
            stem := fun id u hu => by
              obtain ⟨v, hv, he⟩ := still.get? hu
              exact ⟨v, hv, SourceUnit.stem_of_core he⟩
            exports := Project.exportsOf_congr still.modules
            deeds := by rw [still.deeds, hdeeds, List.append_nil]
            parsed := by simp [unitsOf]
            sound := fun hne => absurd rfl hne }
        exact hanalyses.exporting hs.toProvenance hs.toPerformed hs.toExporting
      | executes executes still ends =>
        have hanalyses : Analyses m.session n.session m.session.batchRun.deeds :=
          { settled := hsettled
            calm := executes.calm ends
            stem := fun id u hu => executes.stem still hu
            exports := Project.exportsOf_congr still.modules
            deeds := still.deeds.trans m.session.deeds_executedSession
            parsed := fun id hid => executes.isIn_parsed hid
            sound := fun _ => executes.analysis_sound hs.toProvenance.plain.tools }
        exact hanalyses.exporting hs.toProvenance hs.toPerformed hs.toExporting
    exact
      { toPerformance := (lasting_performance resolver).moves m n hm hs.toPerformance hmove
        toExporting := hexporting }

theorem regular_opened [Text.Xid] (setup : Setup Program Value) (plain : setup.tools = Lang.toolchain)
    (ns : Namespace Value) : (Host.opened setup ns).Regular setup.resolver := by
  have hnone (id : UnitId) : (Host.opened setup ns).cache.get? id = none := rfl
  have hdeeds : (Host.opened setup ns).deeds = [] := rfl
  have hexports (address : String) : (Host.opened setup ns).project.exportsOf address = [] := rfl
  constructor
  · refine ⟨⟨⟨plain, rfl⟩, ?_, ?_⟩, ⟨?_, ?_, ?_⟩, ⟨?_, ?_, ?_⟩⟩ <;> simp [hnone, hdeeds, unitsOf]
  · refine ⟨?_, ?_, ?_⟩ <;> simp [hexports, hdeeds, unitsOf]

/-- What is known of a session of the plain language is known of it at every time. -/
theorem Host.Chronicle.regular [Text.Xid] {loader : Nat} {deeds : List (Deed Value)}
    {h : Host Program Value} {seat : Seat Program Value} (c : Chronicle loader deeds h)
    (hs : h.seats[loader]? = some seat) (plain : seat.session.tools = Lang.toolchain) :
    seat.session.Regular seat.session.project.resolver := by
  have hall := c.induct
    (P := fun _ _ s => s.tools = Lang.toolchain → ∃ resolver, s.Regular resolver) ?_ ?_
  · obtain ⟨resolver, hregular⟩ := hall.2 seat hs plain
    rwa [hregular.plain.resolver]
  · intro setup _ ns _ plain
    exact ⟨setup.resolver, regular_opened setup plain ns⟩
  · intro sharing _ s defined t _ rest hs halters _ plain
    have htools := (lasting_tools s.tools).alters rest rfl halters
    obtain ⟨resolver, hregular⟩ := hs (htools.symm.trans plain)
    exact ⟨resolver, (lasting_regular resolver).alters rest hregular halters⟩

end UnitLoader
