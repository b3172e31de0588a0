import UnitLoader.Proofs.Units
import UnitLoader.Session

/-! How a parsed unit gets to its imports. The addresses that its specifiers lead to
are looked up in the order of the specifiers, and a unit is added for each address
that has none. -/

namespace UnitLoader

namespace Cache

variable {Tree Value Listener : Type}

/-- A cache with further units, none of them started. -/
def Extends (c d : Cache Tree Value Listener) : Prop :=
  ∃ more, d.units = c.units ++ more ∧ ∀ u ∈ more, ∃ address kind, u = .new address kind .load

variable {c d e : Cache Tree Value Listener}

theorem Extends.refl (c : Cache Tree Value Listener) : c.Extends c :=
  ⟨[], by simp, by simp⟩

theorem Extends.trans (h : c.Extends d) (h' : d.Extends e) : c.Extends e := by
  obtain ⟨us, hu, hn⟩ := h
  obtain ⟨vs, hv, hn'⟩ := h'
  refine ⟨us ++ vs, by rw [hv, hu, List.append_assoc], fun u hm => ?_⟩
  rcases List.mem_append.mp hm with hm | hm
  · exact hn u hm
  · exact hn' u hm

theorem Extends.of_units (h : d.units = c.units) : c.Extends d :=
  ⟨[], by simp [h], by simp⟩

theorem Extends.get? (h : c.Extends d) {id : UnitId} {u : SourceUnit Tree Value Listener}
    (hu : c.get? id = some u) : d.get? id = some u := by
  obtain ⟨more, hm, -⟩ := h
  have hlt := index_lt_of_get? hu
  simp only [Cache.get?, hm, size] at hu hlt ⊢
  rw [List.getElem?_append_left hlt, hu]

theorem Extends.get?_new (h : c.Extends d) {id : UnitId} {u : SourceUnit Tree Value Listener}
    (hu : d.get? id = some u) (hn : c.get? id = none) :
    ∃ address kind, u = .new address kind .load := by
  obtain ⟨more, hm, hnew⟩ := h
  have hle := get?_eq_none_iff.mp hn
  simp only [Cache.get?, hm, size] at hu hle
  rw [List.getElem?_append_right hle] at hu
  exact hnew u (List.mem_of_getElem? hu)

theorem Extends.lookup (h : c.Extends d) {address : String} {kind : Kind} {id : UnitId}
    (hl : c.lookup address kind = some id) : d.lookup address kind = some id := by
  obtain ⟨more, hm, -⟩ := h
  obtain ⟨i, hi, rfl⟩ := Option.map_eq_some_iff.mp hl
  simp only [Cache.lookup, hm, List.findIdx?_append, hi, Option.some_or, Option.map_some]

theorem getOrInsert_extends (c : Cache Tree Value Listener) (address : String) (kind : Kind) :
    c.Extends (c.getOrInsert address kind).cache := by
  simp only [getOrInsert]
  cases c.lookup address kind with
  | some id => exact .of_units rfl
  | none => exact ⟨[.new address kind .load], rfl, fun u hu => ⟨address, kind, List.mem_singleton.mp hu⟩⟩

theorem lookup_getOrInsert (c : Cache Tree Value Listener) (address : String) (kind : Kind) :
    (c.getOrInsert address kind).cache.lookup address kind =
      some (c.getOrInsert address kind).id := by
  simp only [getOrInsert]
  cases h : c.lookup address kind with
  | some id => exact h
  | none =>
    have hn : c.units.findIdx? (isAt address kind) = none := Option.map_eq_none_iff.mp h
    simp [Cache.lookup, push, List.findIdx?_append, hn, List.findIdx?_cons, isAt,
      SourceUnit.new, size]

theorem lookup_modify {id : UnitId}
    {f : SourceUnit Tree Value Listener → SourceUnit Tree Value Listener}
    (hf : ∀ address kind u, isAt address kind (f u) = isAt address kind u) (address : String)
    (kind : Kind) : (c.modify id f).lookup address kind = c.lookup address kind := by
  have hmap : (c.units.modify id.index f).map (isAt address kind) =
      c.units.map (isAt address kind) := by
    refine List.ext_getElem? fun i => ?_
    simp only [List.getElem?_map, List.getElem?_modify]
    cases c.units[i]? with
    | none => simp
    | some u => by_cases hi : id.index = i <;> simp [hi, hf]
  have hfind (l : List (SourceUnit Tree Value Listener)) :
      l.findIdx? (isAt address kind) = (l.map (isAt address kind)).findIdx? fun b => b := by
    rw [List.findIdx?_map]
    rfl
  simp only [Cache.lookup, modify, hfind, hmap]

end Cache

namespace Session

variable {Tree Value Listener : Type}

/-- The addresses that specifiers lead to, in order and without repetition. -/
def importAddresses (resolve : String → String) (specifiers : List String)
    (addresses : List String) : List String :=
  specifiers.foldl
    (fun found specifier =>
      if resolve specifier ∈ found then found else found ++ [resolve specifier])
    addresses

/-- Units found one by one under the addresses of a list. -/
def FoundAt (c : Cache Tree Value Listener) : List String → List UnitId → Prop :=
  List.Forall₂ fun address id => c.lookup address .module = some id

theorem FoundAt.mono {c d : Cache Tree Value Listener} {addresses : List String}
    {ids : List UnitId} (h : FoundAt c addresses ids) (he : c.Extends d) :
    FoundAt d addresses ids :=
  h.imp fun _ _ hl => he.lookup hl

theorem FoundAt.exists_address {c : Cache Tree Value Listener} {addresses : List String}
    {ids : List UnitId} (h : FoundAt c addresses ids) {id : UnitId} (hid : id ∈ ids) :
    ∃ address ∈ addresses, c.lookup address .module = some id := by
  induction h with
  | nil => cases hid
  | cons hab _ ih =>
    rcases List.mem_cons.mp hid with rfl | hid
    · exact ⟨_, List.mem_cons_self, hab⟩
    · obtain ⟨address, ha, hl⟩ := ih hid
      exact ⟨address, List.mem_cons_of_mem _ ha, hl⟩

theorem FoundAt.mem_iff {c : Cache Tree Value Listener} {addresses : List String}
    {ids : List UnitId} (h : FoundAt c addresses ids) {address : String} {id : UnitId}
    (hl : c.lookup address .module = some id) : address ∈ addresses ↔ id ∈ ids := by
  induction h with
  | nil => simp
  | cons hab _ ih =>
    rename_i a i as js
    simp only [List.mem_cons, ih]
    refine or_congr_left ⟨?_, ?_⟩
    · rintro rfl
      exact Option.some.inj (hl.symm.trans hab)
    · rintro rfl
      obtain ⟨u, hu, -, ha, -⟩ := Cache.lookup_eq_some hl
      obtain ⟨v, hv, -, hb, -⟩ := Cache.lookup_eq_some hab
      obtain rfl := Option.some.inj (hu.symm.trans hv)
      exact ha.symm.trans hb

theorem importUnits_spec (referrer : String) (specifiers : List String) (ids : List UnitId)
    (b : Build Tree Value Listener) {addresses : List String}
    (h : FoundAt b.cache addresses ids) :
    let found := importUnits referrer specifiers ids b
    found.2 = { b with cache := found.2.cache } ∧
      b.cache.Extends found.2.cache ∧
      FoundAt found.2.cache
        (importAddresses (b.project.resolve · referrer) specifiers addresses) found.1 ∧
      (∀ id ∈ ids, id ∈ found.1) ∧
      ∀ id u, found.2.cache.get? id = some u → b.cache.get? id = none → id ∈ found.1 := by
  induction specifiers generalizing ids b addresses with
  | nil => exact ⟨rfl, .refl _, h, fun _ hid => hid, fun id u hu hn => by simp_all [importUnits]⟩
  | cons specifier rest ih =>
    have hext := b.cache.getOrInsert_extends (b.project.resolve specifier referrer) .module
    have hlook := b.cache.lookup_getOrInsert (b.project.resolve specifier referrer) .module
    have hcases := b.cache.getOrInsert_cases (b.project.resolve specifier referrer) .module
    simp only [importUnits, importAddresses, List.foldl_cons]
    generalize b.cache.getOrInsert (b.project.resolve specifier referrer) .module = found at *
    have hmem := (h.mono hext).mem_iff hlook
    have hnext : FoundAt found.cache
        (if b.project.resolve specifier referrer ∈ addresses then addresses
          else addresses ++ [b.project.resolve specifier referrer])
        (if found.id ∈ ids then ids else ids ++ [found.id]) := by
      by_cases hin : found.id ∈ ids
      · rw [if_pos hin, if_pos (hmem.mpr hin)]
        exact h.mono hext
      · rw [if_neg hin, if_neg fun ha => hin (hmem.mp ha)]
        exact List.rel_append (h.mono hext) (.cons hlook .nil)
    have hkept (id : UnitId) (hid : id ∈ ids ∨ id = found.id) :
        id ∈ if found.id ∈ ids then ids else ids ++ [found.id] := by
      split
      · next hin => exact hid.elim (fun h => h) fun h => h ▸ hin
      · exact List.mem_append.mpr (hid.imp_right List.mem_singleton.mpr)
    obtain ⟨heq, hext', hfound, hids, hnew⟩ := ih _ { b with cache := found.cache } hnext
    refine ⟨heq, hext.trans hext', hfound, fun id hid => hids id (hkept id (.inl hid)), ?_⟩
    intro id u hu hn
    cases hf : found.cache.get? id with
    | none => exact hnew id u hu hf
    | some v =>
      refine hids id (hkept id (.inr ?_))
      rcases hcases with ⟨-, -, -, -, -, hsame⟩ | ⟨-, hid, hpush⟩
      · have hget : found.cache.get? id = b.cache.get? id := by simp [Cache.get?, hsame]
        exact absurd ((hn.symm.trans hget.symm).trans hf) (by simp)
      · rw [hpush, Cache.get?_push] at hf
        split at hf
        · next hi => rw [hid, UnitId.ext_iff, hi]
        · exact absurd (hn.symm.trans hf) (by simp)

/-! ### Reading a unit -/

def understood (s : Session Tree Value Listener) (id : UnitId) : Session Tree Value Listener :=
  ((({ s with toBuild := (s.toBuild.parse s.tools id).build }).modifyUnit id
    (·.advance .parsed)).onBuild (·.register id)).discover id

theorem referrer_of_load {s : Session Tree Value Listener} {id : UnitId}
    {u : SourceUnit Tree Value Listener} (hu : s.cache.get? id = some u) (load : u.origin = .load) :
    s.referrer id = u.address := by
  simp [referrer, hu, load, Origin.resolvesAgainstBase]

/-- What reading a unit does to a session; `imports` are the units that it leads to. -/
structure Reads (s t : Session Tree Value Listener) (id : UnitId)
    (u : SourceUnit Tree Value Listener) (tree : Tree) (imports : List UnitId) : Prop where
  unit : t.cache.get? id =
    some { u with tree := some tree, state := .parsed, dependencies := some imports }
  other : ∀ j v, id ≠ j → s.cache.get? j = some v → t.cache.get? j = some v
  fresh : ∀ j v, t.cache.get? j = some v → s.cache.get? j = none →
    j ∈ imports ∧ ∃ address kind, v = .new address kind .load
  found : FoundAt t.cache
    (importAddresses (s.project.resolve · (s.referrer id))
      ((s.tools.specifiers tree).mergeSort (· ≤ ·)) []) imports
  project : t.project =
    ((s.project.addFile ⟨u.address, u.text.getD ""⟩).setParsed u.address).addModule u.address
  history : t.history = s.history ++ [.parsed id u.address u.kind]
  same : t = { s with toBuild := t.toBuild }

def isSound (s : Session Tree Value Listener) (u : SourceUnit Tree Value Listener) : Bool :=
  !(s.tools.parse ⟨u.address, u.text.getD ""⟩ u.kind).diagnostics.any Diagnostic.isError

theorem parse_passed {s : Session Tree Value Listener} {id : UnitId}
    {u : SourceUnit Tree Value Listener} (hu : s.cache.get? id = some u) :
    (s.toBuild.parse s.tools id).passed = s.isSound u := by
  simp only [Build.parse, hu, isSound]
  split <;> simp_all

theorem parse_of_not_sound {s : Session Tree Value Listener} {id : UnitId}
    {u : SourceUnit Tree Value Listener} (hu : s.cache.get? id = some u)
    (h : s.isSound u = false) :
    ∃ reporter project, (s.toBuild.parse s.tools id).build =
      { s.toBuild with
        reporter := reporter
        project := project
        history := s.history ++ [.parsed id u.address u.kind] } := by
  simp only [isSound, Bool.not_eq_false'] at h
  simp only [Build.parse, hu, h, if_true]
  exact ⟨_, _, rfl⟩

theorem resolve_addModule (p : Project) (address specifier base : String) :
    (p.addModule address).resolve specifier base = p.resolve specifier base := by
  simp only [Project.addModule]
  split <;> rfl

theorem resolve_setParsed (p : Project) (name specifier base : String) :
    (p.setParsed name).resolve specifier base = p.resolve specifier base := by
  simp only [Project.setParsed]
  split <;> rfl

theorem module?_setParsed (p : Project) (name address : String) :
    (p.setParsed name).module? address = p.module? address := by
  simp only [Project.setParsed]
  split <;> rfl

/-- The build of a session once a unit was parsed, before its imports are looked up. -/
def parsedBuild (s : Session Tree Value Listener) (id : UnitId) : Build Tree Value Listener :=
  ((s.toBuild.parse s.tools id).build.modify id (·.advance .parsed)).register id

/-- What parsing a unit does to a build. -/
structure Parses (s : Session Tree Value Listener) (id : UnitId)
    (u : SourceUnit Tree Value Listener) (tree : Tree) (b : Build Tree Value Listener) : Prop where
  unit : b.cache.get? id = some { u with tree := some tree, state := .parsed }
  other : ∀ j, id ≠ j → b.cache.get? j = s.cache.get? j
  project : b.project =
    ((s.project.addFile ⟨u.address, u.text.getD ""⟩).setParsed u.address).addModule u.address
  history : b.history = s.history ++ [.parsed id u.address u.kind]

section Parsing

variable {s : Session Tree Value Listener} {id : UnitId} {u : SourceUnit Tree Value Listener}
  {tree : Tree} {b : Build Tree Value Listener}

theorem parses_parsedBuild (hu : s.cache.get? id = some u) (hs : s.isSound u = true)
    (hl : u.state = .loaded) :
    Parses s id u (s.tools.parse ⟨u.address, u.text.getD ""⟩ u.kind).value (s.parsedBuild id) := by
  simp only [isSound, Bool.not_eq_true'] at hs
  refine ⟨?_, fun j hj => ?_, ?_, ?_⟩
  · simp [parsedBuild, Build.parse, Build.register, Build.modify, Cache.get?_modify, hu, hs,
      SourceUnit.advance, State.mayBecome, State.rank, hl]
  · simp [parsedBuild, Build.parse, Build.register, Build.modify, Cache.get?_modify, hu, hs, hj]
  · simp [parsedBuild, Build.parse, Build.register, Build.modify, Cache.get?_modify, hu, hs,
      SourceUnit.advance, State.mayBecome, State.rank, hl]
  · simp [parsedBuild, Build.parse, Build.register, Build.modify, Cache.get?_modify, hu, hs]

theorem Parses.specifiers (h : Parses s id u tree b) :
    b.specifiers s.tools id = s.tools.specifiers tree := by
  simp [Build.specifiers, h.unit]

theorem Parses.referrer (h : Parses s id u tree b) (hu : s.cache.get? id = some u) :
    ({ s with toBuild := b } : Session Tree Value Listener).referrer id = s.referrer id := by
  simp [Session.referrer, h.unit, hu]

theorem Parses.resolve (h : Parses s id u tree b) (specifier base : String) :
    b.project.resolve specifier base = s.project.resolve specifier base := by
  rw [h.project, resolve_addModule, resolve_setParsed]
  rfl

end Parsing

theorem reads_understood {s : Session Tree Value Listener} {id : UnitId}
    {u : SourceUnit Tree Value Listener} (hu : s.cache.get? id = some u)
    (hs : s.isSound u = true) (hl : u.state = .loaded) (hd : u.dependencies = none) :
    ∃ imports, Reads s (s.understood id) id u
      (s.tools.parse ⟨u.address, u.text.getD ""⟩ u.kind).value imports := by
  have hform : s.understood id = { s with toBuild := s.parsedBuild id }.discover id := rfl
  have hparses := parses_parsedBuild hu hs hl
  generalize (s.tools.parse ⟨u.address, u.text.getD ""⟩ u.kind).value = tree at hparses ⊢
  generalize s.parsedBuild id = b at hform hparses
  have hnil : FoundAt b.cache [] [] := .nil
  have hspec := importUnits_spec (s.referrer id) ((s.tools.specifiers tree).mergeSort (· ≤ ·)) [] b
    hnil
  rw [hform]
  simp only [discover, hparses.specifiers, hparses.referrer hu]
  generalize importUnits (s.referrer id) ((s.tools.specifiers tree).mergeSort (· ≤ ·)) [] b = found
    at hspec
  obtain ⟨heq, hext, hfound, -, hnew⟩ := hspec
  have hfixed : found.2.cache.get? id = some { u with tree := some tree, state := .parsed } :=
    hext.get? hparses.unit
  refine ⟨found.1, ?_, ?_, ?_, ?_, ?_, ?_, rfl⟩
  · simp [Build.modify, Cache.get?_modify, hfixed, SourceUnit.fixDependencies, hd]
  · intro j v hj hv
    simp [Build.modify, Cache.get?_modify, hj, hext.get? ((hparses.other j hj).trans hv)]
  · intro j v hv hn
    have hj : id ≠ j := by
      rintro rfl
      exact absurd (hn.symm.trans hu) (by simp)
    simp only [Build.modify, Cache.get?_modify, hj, if_false] at hv
    have hn' := (hparses.other j hj).trans hn
    exact ⟨hnew j v hv hn', hext.get?_new hv hn'⟩
  · simp only [hparses.resolve] at hfound
    refine List.Forall₂.imp (fun address j hl => ?_) hfound
    have hkeep : (found.2.cache.modify id (·.fixDependencies found.1)).lookup address .module =
        found.2.cache.lookup address .module :=
      Cache.lookup_modify (f := (·.fixDependencies found.1)) (fun _ _ _ => rfl) address .module
    exact hkeep.trans hl
  · rw [heq]
    exact hparses.project
  · rw [heq]
    exact hparses.history

end Session

end UnitLoader
