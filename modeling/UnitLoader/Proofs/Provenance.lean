import UnitLoader.Proofs.Answering
import UnitLoader.Proofs.Plain
import UnitLoader.Proofs.Postorder
import UnitLoader.Proofs.Writing

/-! Where the units of a session are from. Each has its address for itself, its tree is what
its text was read as, and it imports the modules at the addresses that its specifiers lead
to. A unit that has not settled imports none that failed. -/

namespace UnitLoader

variable {Tree Value Listener : Type}

namespace SourceUnit

/-- A unit apart from what becomes of it once it has been read. -/
def stem (u : SourceUnit Tree Value Listener) : SourceUnit Tree Value Listener :=
  { u.core with result := none }

variable {u v : SourceUnit Tree Value Listener}

theorem stem_of_core (h : v.core = u.core) : v.stem = u.stem := by
  rw [stem, stem, h]

theorem fields_of_stem (h : v.stem = u.stem) : v.address = u.address ∧ v.kind = u.kind ∧
    v.origin = u.origin ∧ v.tree = u.tree ∧ v.dependencies = u.dependencies :=
  ⟨congrArg (·.address) h, congrArg (·.kind) h, congrArg (·.origin) h, congrArg (·.tree) h,
    congrArg (·.dependencies) h⟩

theorem dependencyIds_of_stem (h : v.stem = u.stem) : v.dependencyIds = u.dependencyIds :=
  congrArg (·.dependencies.getD []) h

end SourceUnit

namespace Cache

variable {c : Cache Tree Value Listener}

theorem lookup_eq_none_iff {address : String} {kind : Kind} :
    c.lookup address kind = none ↔ ∀ id u, c.get? id = some u → isAt address kind u = false := by
  simp only [lookup, Option.map_eq_none_iff, List.findIdx?_eq_none_iff]
  constructor
  · intro h id u hu
    exact h u (List.mem_of_getElem? hu)
  · intro h u hu
    obtain ⟨i, hi⟩ := List.getElem?_of_mem hu
    exact h ⟨i⟩ u hi

end Cache

namespace Session

variable {s t : Session Tree Value Listener}

theorem Still.keeps (h : Still s t) : s.cache.Keeps t.cache := by
  intro id u hu
  obtain ⟨v, hv, he⟩ := h.get? hu
  exact ⟨v, hv, SourceUnit.place_of_core he⟩

theorem Develops.keeps (h : Develops s t) : s.cache.Keeps t.cache := by
  intro id u hu
  obtain ⟨v, hv, huv⟩ := h.unit id u hu
  exact ⟨v, hv, huv.address, huv.kind, huv.origin⟩

theorem FoundAt.keeps {c d : Cache Tree Value Listener} {addresses : List String}
    {ids : List UnitId} (h : FoundAt c addresses ids) (keeps : c.Keeps d) :
    FoundAt d addresses ids :=
  h.imp fun _ _ hl => keeps.lookup hl

theorem FoundAt.exists_unit {c : Cache Tree Value Listener} {addresses : List String}
    {ids : List UnitId} (h : FoundAt c addresses ids) {address : String} (ha : address ∈ addresses) :
    ∃ id ∈ ids, c.lookup address .module = some id := by
  induction h with
  | nil => cases ha
  | cons hab _ ih =>
    rcases List.mem_cons.mp ha with rfl | ha
    · exact ⟨_, List.mem_cons_self, hab⟩
    · obtain ⟨id, hid, hl⟩ := ih ha
      exact ⟨id, List.mem_cons_of_mem _ hid, hl⟩

theorem mem_importAddresses {resolve : String → String} {specifiers addresses : List String}
    {address : String} : address ∈ importAddresses resolve specifiers addresses ↔
      address ∈ addresses ∨ ∃ specifier ∈ specifiers, resolve specifier = address := by
  induction specifiers generalizing addresses with
  | nil => simp [importAddresses]
  | cons first rest ih =>
    rw [importAddresses, List.foldl_cons, ← importAddresses, ih, List.exists_mem_cons_iff]
    split
    · next hin =>
      have hfirst : resolve first = address → address ∈ addresses := fun he => he ▸ hin
      exact ⟨fun h => h.imp_right .inr, fun h => h.elim .inl (·.imp_left hfirst)⟩
    · rw [List.mem_append, List.mem_singleton, or_assoc, eq_comm]

theorem Gains.get? {w : SourceUnit Tree Value Listener} (h : Gains s t w) {id : UnitId}
    {u : SourceUnit Tree Value Listener} (hu : s.cache.get? id = some u) :
    ∃ v, t.cache.get? id = some v ∧ v.core = u.core := by
  have hcore : t.cache.cores[id.index]? = some u.core := by
    have hlt : id.index < s.cache.cores.length := by
      simpa [Cache.cores, Cache.size] using Cache.index_lt_of_get? hu
    rw [h.cores, List.getElem?_append_left hlt, Cache.cores_getElem?, hu, Option.map_some]
  rw [Cache.cores_getElem?] at hcore
  exact Option.map_eq_some_iff.mp hcore

theorem Gains.keeps {w : SourceUnit Tree Value Listener} (h : Gains s t w) :
    s.cache.Keeps t.cache := by
  intro id u hu
  obtain ⟨v, hv, he⟩ := h.get? hu
  exact ⟨v, hv, SourceUnit.place_of_core he⟩

theorem Executes.stem_back (h : s.Executes) (still : Still s.executedSession t) {id : UnitId}
    {v : SourceUnit Tree Value Listener} (hv : t.cache.get? id = some v) :
    ∃ u, s.cache.get? id = some u ∧ v.stem = u.stem := by
  obtain ⟨u, hu, he⟩ := h.get?_back still hv
  refine ⟨u, hu, ?_⟩
  cases hl : s.batchRun.results.lookup id with
  | none =>
    rw [hl] at he
    exact SourceUnit.stem_of_core he
  | some value =>
    rw [hl] at he
    exact SourceUnit.stem_of_core (u := { u with result := some value }) he

/-- What a unit was before a turn: the same, or about to be read, or not there. -/
inductive Was (s t : Session Tree Value Listener) (id : UnitId)
    (v : SourceUnit Tree Value Listener) : Prop
  | same {u : SourceUnit Tree Value Listener} (unit : s.cache.get? id = some u)
      (stem : v.stem = u.stem)
  | unread {u : SourceUnit Tree Value Listener} {imports : List UnitId}
      (unit : s.cache.get? id = some u) (loaded : u.state = .loaded)
      (stem : v.stem =
        { u.stem with tree := some (s.readTree u), dependencies := some imports })
      (found : FoundAt t.cache (importAddresses (s.project.resolve · (s.referrer id))
        ((s.tools.specifiers (s.readTree u)).mergeSort (· ≤ ·)) []) imports)
      (fine : (∀ d ∈ imports, t.cache.isIn .error d = false) ∨ t.Calm)
  | absent (none : s.cache.get? id = none) (address : String)
      (stem : v.stem = (SourceUnit.new address .module .load).stem)
      (found : t.cache.lookup address .module = some id)

theorem Turns.was (h : Turns s t) {id : UnitId} {v : SourceUnit Tree Value Listener}
    (hv : t.cache.get? id = some v) : Was s t id v := by
  cases h with
  | still still =>
    obtain ⟨u, hu, he⟩ := still.get?_back hv
    exact .same hu (SourceUnit.stem_of_core he)
  | reads unit loaded sound reads still fine =>
    obtain ⟨w, hw, he⟩ := still.get?_back hv
    have hfound := reads.found.keeps still.keeps
    rcases reads.get?_back hw with ⟨rfl, rfl⟩ | ⟨-, hw⟩ | ⟨hnone, himport, address, kind, rfl⟩
    · exact .unread unit loaded (SourceUnit.stem_of_core he) hfound fine
    · exact .same hw (SourceUnit.stem_of_core he)
    · obtain ⟨other, -, hl⟩ := hfound.exists_address himport
      obtain ⟨x, hx, -, ha, hk⟩ := Cache.lookup_eq_some hl
      obtain rfl := Option.some.inj (hv.symm.trans hx)
      have haddress : v.address = address := congrArg (·.address) he
      have hkind : v.kind = kind := congrArg (·.kind) he
      obtain rfl := ha.symm.trans haddress
      obtain rfl := hk.symm.trans hkind
      exact .absent hnone _ (SourceUnit.stem_of_core he) hl
  | stops ready falls still =>
    obtain ⟨u, hu, he⟩ := still.get?_back hv
    exact .same hu (SourceUnit.stem_of_core he)
  | executes executes still ends =>
    obtain ⟨u, hu, stem⟩ := executes.stem_back still hv
    exact .same hu stem

variable {id : UnitId} {u v : SourceUnit Tree Value Listener}

theorem isSettled_of_kept (keeps : s.KeepsSettled t) (hu : s.cache.get? id = some u)
    (hv : t.cache.get? id = some v) (hset : v.state.isSettled = false) :
    u.state.isSettled = false := by
  refine Bool.eq_false_iff.mpr fun hs => ?_
  obtain rfl := Option.some.inj (hv.symm.trans (keeps id u hu hs))
  simp [hs] at hset

/-- When a unit fails, everything settles; so where no unsettled unit had an import that
failed, none has. -/
theorem Was.fine (was : Was s t id v)
    (h : ∀ id u, s.cache.get? id = some u → u.state.isSettled = false →
      ∀ d ∈ u.dependencyIds, s.cache.isIn .error d = false)
    (develops : Develops s t) (hv : t.cache.get? id = some v) (hset : v.state.isSettled = false) :
    ∀ d ∈ v.dependencyIds, t.cache.isIn .error d = false := by
  have hcalm : ¬ t.Calm := fun hc => by simp [hc.settled id v hv] at hset
  intro d hd
  cases was with
  | @same u unit stem =>
    rw [SourceUnit.dependencyIds_of_stem stem] at hd
    have hfine := h id u unit (isSettled_of_kept develops.keepsSettled unit hv hset) d hd
    refine Bool.eq_false_iff.mpr fun he => ?_
    obtain ⟨w, hw, hs⟩ := Cache.isIn_iff.mp he
    obtain ⟨x, hx, hs⟩ := (develops.failure d w hw hs).resolve_right hcalm
    simp [Cache.isIn_eq hx, hs] at hfine
  | @unread u imports unit loaded stem found fine =>
    have hdependencies : v.dependencies = some imports := congrArg (·.dependencies) stem
    rw [SourceUnit.dependencyIds, hdependencies] at hd
    exact fine.resolve_right hcalm d hd
  | absent none address stem found =>
    have hdependencies : v.dependencies = Option.none := congrArg (·.dependencies) stem
    rw [SourceUnit.dependencyIds, hdependencies] at hd
    cases hd

/-- A new unit that was asked for is found under its address, as none was found there before. -/
theorem lookup_of_new {w : SourceUnit Tree Value Listener} (hgains : Gains s t w) (hnew : IsNew s w)
    (hid : id = ⟨s.cache.size⟩) (hv : t.cache.get? id = some v) (hcore : v.core = w.core)
    (load : v.origin = .load) : t.cache.lookup v.address v.kind = some id := by
  cases hnew with
  | eval => cases load.symm.trans (congrArg (·.origin) hcore)
  | @load address kind absent =>
    have haddress : v.address = address := congrArg (·.address) hcore
    have hkind : v.kind = kind := congrArg (·.kind) hcore
    rw [haddress, hkind, Cache.lookup_eq_some_iff]
    refine ⟨⟨v, hv, by simp [Cache.isAt, haddress, hkind, load]⟩, fun j x hj hx => ?_⟩
    -- the units before it were there when none was found
    rcases hgains.get?_back hx with ⟨y, hy, he⟩ | ⟨rfl, -⟩
    · have hat := Cache.lookup_eq_none_iff.mp absent j y hy
      obtain ⟨haddress, hkind, horigin⟩ := SourceUnit.place_of_core he
      simpa [Cache.isAt, haddress, hkind, horigin] using hat
    · rw [hid] at hj
      exact absurd hj (Nat.lt_irrefl _)

end Session

namespace Session

variable [Text.Xid] {resolver : Resolver} {s t : Session Program UnitLoader.Value Listener}
  {id : UnitId} {u v : SourceUnit Program UnitLoader.Value Listener}

/-- A unit with what can be told of it from its address, its origin and its text. -/
structure Stems (resolver : Resolver) (s : Session Program UnitLoader.Value Listener)
    (id : UnitId) (u : SourceUnit Program UnitLoader.Value Listener) : Prop where
  given : u.origin = .eval → u.kind = .script
  found : u.origin = .load → s.cache.lookup u.address u.kind = some id
  read : ∀ tree, u.tree = some tree → ∃ text base ids,
    (Lang.parse ⟨u.address, text⟩ u.kind).value = tree ∧ u.dependencies = some ids ∧
      (u.origin = .load → base = u.address) ∧ FoundAt s.cache
        (importAddresses (resolver · base) (tree.specifiers.mergeSort (· ≤ ·)) []) ids

theorem Stems.mono (h : Stems resolver s id u) (keeps : s.cache.Keeps t.cache)
    (stem : v.stem = u.stem) : Stems resolver t id v := by
  obtain ⟨haddress, hkind, horigin, htree, hdependencies⟩ := SourceUnit.fields_of_stem stem
  refine ⟨?_, ?_, ?_⟩
  · rw [horigin, hkind]
    exact h.given
  · rw [horigin, haddress, hkind]
    exact fun ho => keeps.lookup (h.found ho)
  · rw [htree, haddress, hkind, hdependencies, horigin]
    intro tree ht
    obtain ⟨text, base, ids, hparse, hids, hbase, hfound⟩ := h.read tree ht
    exact ⟨text, base, ids, hparse, hids, hbase, hfound.keeps keeps⟩

theorem stems_of_new {w : SourceUnit Program UnitLoader.Value Listener} (hgains : Gains s t w)
    (hnew : IsNew s w) (hid : id = ⟨s.cache.size⟩) (hv : t.cache.get? id = some v)
    (hcore : v.core = w.core) : Stems resolver t id v := by
  have hkind : v.kind = w.kind := congrArg (·.kind) hcore
  have horigin : v.origin = w.origin := congrArg (·.origin) hcore
  have htree : v.tree = w.tree := congrArg (·.tree) hcore
  refine ⟨?_, fun load => lookup_of_new hgains hnew hid hv hcore load, ?_⟩
  · cases hnew with
    | eval => exact fun _ => hkind
    | load absent => exact fun he => by cases horigin.symm.trans he
  · have hnone : v.tree = none := by cases hnew <;> exact htree
    simp [hnone]

theorem stems_of_was (plain : s.Plain resolver) (keeps : s.cache.Keeps t.cache)
    (hs : ∀ id u, s.cache.get? id = some u → Stems resolver s id u) (was : Was s t id v) :
    Stems resolver t id v := by
  cases was with
  | same unit stem => exact (hs id _ unit).mono keeps stem
  | @unread u imports unit loaded stem found fine =>
    have haddress : v.address = u.address := congrArg (·.address) stem
    have hkind : v.kind = u.kind := congrArg (·.kind) stem
    have horigin : v.origin = u.origin := congrArg (·.origin) stem
    have htree : v.tree = some (s.readTree u) := congrArg (·.tree) stem
    have hdependencies : v.dependencies = some imports := congrArg (·.dependencies) stem
    have hold := hs id u unit
    refine ⟨?_, ?_, ?_⟩
    · rw [horigin, hkind]
      exact hold.given
    · rw [horigin, haddress, hkind]
      exact fun ho => keeps.lookup (hold.found ho)
    · rw [htree, haddress, hkind, hdependencies, horigin]
      intro tree ht
      obtain rfl := Option.some.inj ht
      have hparse : (Lang.parse ⟨u.address, u.text.getD ""⟩ u.kind).value = s.readTree u := by
        rw [readTree, plain.tools]
        rfl
      have hresolve : (s.project.resolve · (s.referrer id)) = (resolver · (s.referrer id)) := by
        funext specifier
        rw [Project.resolve, plain.resolver]
      rw [hresolve, plain.tools] at found
      refine ⟨u.text.getD "", s.referrer id, imports, hparse, rfl, fun ho => ?_, found⟩
      exact referrer_of_load unit ho
  | absent none address stem found =>
    have haddress : v.address = address := congrArg (·.address) stem
    have hkind : v.kind = .module := congrArg (·.kind) stem
    have horigin : v.origin = .load := congrArg (·.origin) stem
    have htree : v.tree = Option.none := congrArg (·.tree) stem
    refine ⟨by simp [horigin], fun _ => ?_, by simp [htree]⟩
    rw [haddress, hkind]
    exact found

end Session

/-- A session of the plain language, its units, and how they depend on each other. -/
structure Session.Provenance [Text.Xid] (resolver : Resolver)
    (s : Session Program UnitLoader.Value Listener) : Prop where
  plain : s.Plain resolver
  stems : ∀ id u, s.cache.get? id = some u → s.Stems resolver id u
  fine : ∀ id u, s.cache.get? id = some u → u.state.isSettled = false →
    ∀ d ∈ u.dependencyIds, s.cache.isIn .error d = false

namespace Session

variable [Text.Xid] {resolver : Resolver} {s t : Session Program UnitLoader.Value Listener}
  {id : UnitId} {u v : SourceUnit Program UnitLoader.Value Listener}

theorem Provenance.linked (h : s.Provenance resolver) (hu : s.cache.get? id = some u)
    {tree : Program} (ht : u.tree = some tree) : ∀ d ∈ u.dependencyIds, d.index < s.cache.size := by
  obtain ⟨text, base, ids, -, hids, -, hfound⟩ := (h.stems id u hu).read tree ht
  intro d hd
  rw [SourceUnit.dependencyIds, hids] at hd
  obtain ⟨address, -, hl⟩ := hfound.exists_address hd
  obtain ⟨v, hv, -⟩ := Cache.lookup_eq_some hl
  exact Cache.index_lt_of_get? hv

/-- Where an import of a loaded unit leads, there is a module, and the unit depends on it. -/
theorem Provenance.exists_import (h : s.Provenance resolver) (hu : s.cache.get? id = some u)
    (load : u.origin = .load) {tree : Program} (ht : u.tree = some tree) {line : Line}
    (hline : line ∈ tree.lines) {names : List String} {specifier : String}
    (hs : line.stmt = .imports names specifier) : ∃ j m,
      s.cache.lookup (resolver specifier u.address) .module = some j ∧ s.cache.get? j = some m ∧
        m.address = resolver specifier u.address ∧ m.kind = .module ∧ j ∈ u.dependencyIds := by
  obtain ⟨text, base, ids, -, hids, hbase, hfound⟩ := (h.stems id u hu).read tree ht
  obtain rfl := hbase load
  have hspecifier : specifier ∈ tree.specifiers.mergeSort (· ≤ ·) := by
    rw [List.mem_mergeSort, Program.specifiers, List.mem_filterMap]
    exact ⟨line, hline, by simp [hs]⟩
  obtain ⟨j, hj, hl⟩ := hfound.exists_unit
    (mem_importAddresses.mpr (.inr ⟨specifier, hspecifier, rfl⟩))
  obtain ⟨m, hm, -, haddress, hkind⟩ := Cache.lookup_eq_some hl
  exact ⟨j, m, hl, hm, haddress, hkind, by rwa [SourceUnit.dependencyIds, hids]⟩

theorem Provenance.fine_of_undisturbed (h : s.Provenance resolver) (undisturbed : s.Undisturbed t)
    (hu : s.cache.get? id = some u) (hv : t.cache.get? id = some v) (stem : v.stem = u.stem)
    (hset : v.state.isSettled = false) : ∀ d ∈ v.dependencyIds, t.cache.isIn .error d = false := by
  intro d hd
  rw [SourceUnit.dependencyIds_of_stem stem] at hd
  have hfine := h.fine id u hu (isSettled_of_kept undisturbed.settled hu hv hset) d hd
  exact Bool.eq_false_iff.mpr fun he => by simp [undisturbed.failed d he] at hfine

end Session

open Session in
theorem lasting_provenance [Text.Xid] (resolver : Resolver) :
    Lasting fun s : Session Program UnitLoader.Value (UnitLoader.Listener UnitLoader.Value) =>
      s.Provenance resolver where
  still := by
    intro s t hs hstill hundisturbed
    have hkeeps : s.cache.Keeps t.cache := Still.keeps (t := { t with ns := s.ns }) hstill
    have hback {id : UnitId} {v} (hv : t.cache.get? id = some v) :
        ∃ u, s.cache.get? id = some u ∧ v.stem = u.stem := by
      obtain ⟨u, hu, he⟩ := Still.get?_back hstill hv
      exact ⟨u, hu, SourceUnit.stem_of_core he⟩
    refine ⟨(lasting_plain resolver).still s t hs.plain hstill hundisturbed, fun id v hv => ?_,
      fun id v hv hset => ?_⟩
    · obtain ⟨u, hu, he⟩ := hback hv
      exact (hs.stems id u hu).mono hkeeps he
    · obtain ⟨u, hu, he⟩ := hback hv
      exact hs.fine_of_undisturbed hundisturbed hu hv he hset
  gains := by
    intro s t w hrest hs hgains hnew hundisturbed
    refine ⟨(lasting_plain resolver).gains s t w hrest hs.plain hgains hnew hundisturbed,
      fun id v hv => ?_, fun id v hv hset => ?_⟩
    · rcases hgains.get?_back hv with ⟨u, hu, he⟩ | ⟨hid, he⟩
      · exact (hs.stems id u hu).mono hgains.keeps (SourceUnit.stem_of_core he)
      · exact stems_of_new hgains hnew hid hv he
    · rcases hgains.get?_back hv with ⟨u, hu, he⟩ | ⟨-, he⟩
      · exact hs.fine_of_undisturbed hundisturbed hu hv (SourceUnit.stem_of_core he) hset
      · have hdependencies : v.dependencyIds = w.dependencyIds :=
          SourceUnit.dependencyIds_of_stem (SourceUnit.stem_of_core he)
        have hnone : w.dependencyIds = [] := by cases hnew <;> rfl
        rw [hdependencies, hnone]
        simp
  moves := by
    intro m n hm hs hmove
    have hturns := hmove.turns hm
    have hdevelops := hmove.develops hm
    exact ⟨(lasting_plain resolver).moves m n hm hs.plain hmove,
      fun id v hv => stems_of_was hs.plain hdevelops.keeps hs.stems (hturns.was hv),
      fun id v hv hset => (hturns.was hv).fine hs.fine hdevelops hv hset⟩

end UnitLoader
