import UnitLoader.Proofs.NormalForm
import UnitLoader.Proofs.Owed
import UnitLoader.Proofs.Provenance
import UnitLoader.Text.Unicode

/-! Asking a loader with an address that it gave back. An address is resolved against the
base whenever it is asked for, so one that has been resolved is resolved again: when a module
is asked for as an import, and when a unit is asked for with its own address. Below an
absolute base nothing changes; relative to a base that does not go down as often as it climbs,
the second resolution leads elsewhere. -/

namespace UnitLoader

namespace Address

/-- Relative to a base, resolving an address twice is resolving it once. -/
def Settles (base address : String) : Prop :=
  isAbsolute address = true ∨ isAbsolute base = true ∨
    climbs (directory base.toList) = descends (directory base.toList)

/-- Relative to a base, a normal address leads to itself. -/
def Recalls (base address : String) : Prop :=
  isAbsolute address = true ∨ (isAbsolute base = false ∧
    climbs (directory base.toList) = descends (directory base.toList) ∧
    climbs (directory base.toList) ≤ climbs address.toList)

instance (base address : String) : Decidable (Settles base address) :=
  inferInstanceAs (Decidable (_ ∨ _))

instance (base address : String) : Decidable (Recalls base address) :=
  inferInstanceAs (Decidable (_ ∨ _))

theorem resolve_resolve_iff (address base : String) :
    resolve (resolve address base) base = resolve address base ↔ Settles base address := by
  rw [resolve, resolve, String.ofList_inj, String.toList_ofList]
  exact resolveChars_resolveChars_iff _ _

theorem resolve_eq_self_iff {address base : String}
    (hnormal : normalizeChars address.toList = address.toList) :
    resolve address base = address ↔ Recalls base address := by
  rw [resolve, ← String.toList_inj, String.toList_ofList]
  exact resolveChars_eq_self_iff hnormal

end Address

variable {Tree Value : Type}

namespace Session

variable {s t : Session Tree Value (Listener Value)} {id : UnitId}
  {u v : SourceUnit Tree Value (Listener Value)} {address : String} {kind : Kind}

/-! ### Where loaded units are -/

/-- A unit that was asked for is the one that its address and kind lead to. -/
def FindsLoaded (s : Session Tree Value (Listener Value)) : Prop :=
  ∀ id u, s.cache.get? id = some u → u.origin = .load →
    s.cache.lookup u.address u.kind = some id

theorem FindsLoaded.kept (h : s.FindsLoaded) (keeps : s.cache.Keeps t.cache)
    (hu : s.cache.get? id = some u) (stem : v.stem = u.stem) (load : v.origin = .load) :
    t.cache.lookup v.address v.kind = some id := by
  obtain ⟨haddress, hkind, horigin, -⟩ := SourceUnit.fields_of_stem stem
  rw [haddress, hkind]
  exact keeps.lookup (h id u hu (horigin.symm.trans load))

theorem lasting_findsLoaded :
    Lasting (FindsLoaded : Session Tree Value (Listener Value) → Prop) where
  still := by
    intro s t hs hstill _ id v hv load
    obtain ⟨u, hu, he⟩ := Still.get?_back hstill hv
    have hkeeps : s.cache.Keeps t.cache := Still.keeps (t := { t with ns := s.ns }) hstill
    exact hs.kept hkeeps hu (SourceUnit.stem_of_core he) load
  gains := by
    intro s t w _ hs hgains hnew _ id v hv load
    rcases hgains.get?_back hv with ⟨u, hu, he⟩ | ⟨hid, he⟩
    · exact hs.kept hgains.keeps hu (SourceUnit.stem_of_core he) load
    · exact lookup_of_new hgains hnew hid hv he load
  moves := by
    intro m n hm hs hmove id v hv load
    have hkeeps := (hmove.develops hm).keeps
    cases (hmove.turns hm).was hv with
    | same unit stem => exact hs.kept hkeeps unit stem load
    | @unread u imports unit loaded stem found fine =>
      have haddress : v.address = u.address := congrArg (·.address) stem
      have hkind : v.kind = u.kind := congrArg (·.kind) stem
      have horigin : v.origin = u.origin := congrArg (·.origin) stem
      rw [haddress, hkind]
      exact hkeeps.lookup (hs id u unit (horigin.symm.trans load))
    | absent none address stem found =>
      have haddress : v.address = address := congrArg (·.address) stem
      have hkind : v.kind = .module := congrArg (·.kind) stem
      rw [haddress, hkind]
      exact found

/-- A unit that a turn adds is at an address that a specifier leads to, from the base address or
from a unit that was asked for. -/
theorem Turns.address_of_new (h : Turns s t) (hv : t.cache.get? id = some v)
    (absent : s.cache.get? id = none) : ∃ specifier base,
      v.address = s.project.resolve specifier base ∧ (base = s.baseAddress ∨
        ∃ j w, s.cache.get? j = some w ∧ w.origin = .load ∧ base = w.address) := by
  have hold (u : SourceUnit Tree Value (Listener Value)) (hu : s.cache.get? id = some u) :
      False := by
    cases absent.symm.trans hu
  cases h with
  | still still =>
    obtain ⟨u, hu, -⟩ := still.get?_back hv
    exact (hold u hu).elim
  | @reads j u imports m unit loaded sound reads still fine =>
    obtain ⟨w, hw, he⟩ := still.get?_back hv
    have haddress : v.address = w.address := (SourceUnit.place_of_core he).1
    rcases reads.get?_back hw with ⟨rfl, -⟩ | ⟨-, hw⟩ | ⟨-, himport, address, kind, rfl⟩
    · exact (hold u unit).elim
    · exact (hold w hw).elim
    · obtain ⟨a, ha, hl⟩ := reads.found.exists_address himport
      obtain ⟨x, hx, -, hxa, -⟩ := Cache.lookup_eq_some hl
      obtain rfl := Option.some.inj (hw.symm.trans hx)
      rcases mem_importAddresses.mp ha with hnil | ⟨specifier, -, rfl⟩
      · cases hnil
      · refine ⟨specifier, s.referrer j, haddress.trans hxa, ?_⟩
        rw [referrer, unit]
        cases ho : u.origin with
        | eval => exact .inl (by simp [ho, Origin.resolvesAgainstBase])
        | load => exact .inr ⟨j, u, unit, ho, by simp [ho, Origin.resolvesAgainstBase]⟩
  | stops ready falls still =>
    obtain ⟨u, hu, -⟩ := still.get?_back hv
    exact (hold u hu).elim
  | executes executes still ends =>
    obtain ⟨u, hu, -⟩ := executes.get?_back still hv
    exact (hold u hu).elim

/-- The address of a unit that was asked for is normal, and absolute below an absolute base. -/
structure Placed (s : Session Tree Value (Listener Value)) (address : String) : Prop where
  normal : Address.normalizeChars address.toList = address.toList
  absolute : Address.isAbsolute s.baseAddress = true → Address.isAbsolute address = true

theorem placed_resolve (s : Session Tree Value (Listener Value)) (specifier : String)
    {base : String} (h : Address.isAbsolute s.baseAddress = true → Address.isAbsolute base = true) :
    s.Placed (Address.resolve specifier base) := by
  have htext : (Address.resolve specifier base).toList =
      Address.resolveChars specifier.toList base.toList := String.toList_ofList
  refine ⟨by rw [htext, Address.normalizeChars_resolveChars], fun hbase => ?_⟩
  have habsolute := h hbase
  rw [Address.isAbsolute] at habsolute ⊢
  rw [htext, Address.isAbsoluteChars_resolveChars, habsolute, Bool.or_true]

/-- As long as specifiers are resolved as paths, all units that were asked for are placed. -/
def PlacesLoaded (s : Session Tree Value (Listener Value)) : Prop :=
  s.tools.KeepsResolver → s.project.resolver = Address.resolve →
    ∀ id u, s.cache.get? id = some u → u.origin = .load → s.Placed u.address

theorem Placed.kept (h : s.Placed address) (base : t.baseAddress = s.baseAddress) :
    t.Placed address :=
  ⟨h.normal, base ▸ h.absolute⟩

theorem lasting_placesLoaded :
    Lasting (PlacesLoaded : Session Tree Value (Listener Value) → Prop) where
  still := by
    intro s t hs hstill _ keeps paths id v hv load
    have htools : t.tools = s.tools := hstill.tools
    have hresolver : t.project.resolver = s.project.resolver := hstill.resolver
    obtain ⟨u, hu, he⟩ := Still.get?_back hstill hv
    obtain ⟨haddress, -, horigin⟩ := SourceUnit.place_of_core he
    rw [haddress]
    exact (hs (htools ▸ keeps) (hresolver ▸ paths) id u hu (horigin.symm.trans load)).kept
      hstill.baseAddress
  gains := by
    intro s t w _ hs hgains hnew _ keeps paths id v hv load
    rw [hgains.tools] at keeps
    rw [hgains.resolver] at paths
    rcases hgains.get?_back hv with ⟨u, hu, he⟩ | ⟨-, he⟩
    · obtain ⟨haddress, -, horigin⟩ := SourceUnit.place_of_core he
      rw [haddress]
      exact (hs keeps paths id u hu (horigin.symm.trans load)).kept hgains.baseAddress
    · obtain ⟨haddress, -, horigin⟩ := SourceUnit.place_of_core he
      rw [haddress]
      cases hnew with
      | eval => cases horigin.symm.trans load
      | load absent asked =>
        obtain ⟨requested, rfl⟩ := asked
        have hplaced : s.Placed (s.resolveAddress requested) := by
          rw [resolveAddress, Project.resolve, paths]
          exact placed_resolve s requested fun h => h
        exact hplaced.kept hgains.baseAddress
  moves := by
    intro m n hm hs hmove keeps paths id v hv load
    have hturns := hmove.turns hm
    have hdevelops := hmove.develops hm
    have hbase := hdevelops.setting.baseAddress
    rw [hturns.tools] at keeps
    rw [hturns.resolver_of_keeps keeps] at paths
    cases hu : m.session.cache.get? id with
    | some u =>
      obtain ⟨w, hw, haddress, -, horigin⟩ := hdevelops.keeps id u hu
      obtain rfl := Option.some.inj (hv.symm.trans hw)
      rw [haddress]
      exact (hs keeps paths id u hu (horigin.symm.trans load)).kept hbase
    | none =>
      obtain ⟨specifier, base, haddress, hfrom⟩ := hturns.address_of_new hv hu
      rw [haddress, Project.resolve, paths]
      refine (placed_resolve m.session specifier fun h => ?_).kept hbase
      rcases hfrom with rfl | ⟨j, w, hw, hload, rfl⟩
      · exact h
      · exact (hs keeps paths j w hw hload).absolute h

/-! ### Modules asked for as imports -/

/-- A unit is that of the module which was asked for at an address, which had been resolved
before and was resolved again. -/
structure ImportedAs (s : Session Tree Value (Listener Value)) (id : UnitId) (address : String) :
    Prop where
  unit : ∃ u, s.cache.get? id = some u ∧ u.kind = .module ∧ u.address = s.resolveAddress address
  asked : ∃ requested, address = s.resolveAddress requested

theorem ImportedAs.kept (h : s.ImportedAs id address) (keeps : s.cache.Keeps t.cache)
    (base : t.baseAddress = s.baseAddress)
    (resolver : t.project.resolver = s.project.resolver) : t.ImportedAs id address := by
  have hresolve (a : String) : t.resolveAddress a = s.resolveAddress a := by
    rw [resolveAddress, resolveAddress, Project.resolve, Project.resolve, base, resolver]
  obtain ⟨u, hu, hkind, haddress⟩ := h.unit
  obtain ⟨v, hv, ha, hk, -⟩ := keeps id u hu
  obtain ⟨requested, hr⟩ := h.asked
  exact ⟨⟨v, hv, hk.trans hkind, by rw [ha, haddress, hresolve]⟩, requested, by rw [hr, hresolve]⟩

theorem lasting_importedAs (id : UnitId) (address : String) :
    Lasting fun s : Session Tree Value (Listener Value) =>
      s.tools.KeepsResolver → s.ImportedAs id address where
  still := by
    intro s t hs hstill _ keeps
    have htools : t.tools = s.tools := hstill.tools
    have hkeeps : s.cache.Keeps t.cache := Still.keeps (t := { t with ns := s.ns }) hstill
    exact (hs (htools ▸ keeps)).kept hkeeps hstill.baseAddress hstill.resolver
  gains := by
    intro s t w _ hs hgains _ _ keeps
    rw [hgains.tools] at keeps
    exact (hs keeps).kept hgains.keeps hgains.baseAddress hgains.resolver
  moves := by
    intro m n hm hs hmove keeps
    have hturns := hmove.turns hm
    have hdevelops := hmove.develops hm
    rw [hturns.tools] at keeps
    exact (hs keeps).kept hdevelops.keeps hdevelops.setting.baseAddress
      (hturns.resolver_of_keeps keeps)

theorem importedAs_find (s : Session Tree Value (Listener Value)) (requested : String) :
    (s.find (s.resolveAddress requested) .module).session.ImportedAs
      (s.find (s.resolveAddress requested) .module).id (s.resolveAddress requested) := by
  have hl := s.cache.lookup_getOrInsert (s.resolveAddress (s.resolveAddress requested)) .module
  obtain ⟨u, hu, -, ha, hk⟩ := Cache.lookup_eq_some hl
  exact ⟨⟨u, hu, hk, ha⟩, requested, rfl⟩

theorem importedAs_loadWith (rest : s.AtRest) {requested : String} {listener : Listener Value}
    (hid : (s.loadWith (s.resolveAddress requested) .module listener).1 = .ok id)
    (keeps : (s.loadWith (s.resolveAddress requested) .module listener).2.tools.KeepsResolver) :
    (s.loadWith (s.resolveAddress requested) .module listener).2.ImportedAs id
      (s.resolveAddress requested) := by
  have hm := rest.sound_find (s.resolveAddress requested) .module
  have hfound := s.importedAs_find requested
  simp only [loadWith] at hid keeps ⊢
  rcases Session.addListener_cases _ (s.find (s.resolveAddress requested) .module).id listener with
    ⟨e, he, -⟩ | ⟨u, hu, hset, hok⟩
  · rw [he] at hid
    cases hid
  · rw [hok] at hid keeps ⊢
    obtain rfl := Except.ok.inj hid
    have hm' := sound_listening hm hu hset listener
    obtain ⟨hworks, -⟩ := works_loadUnit s.depth hm'
    have hlisten := (lasting_importedAs _ _).still _ _ (fun _ => hfound)
      (still_listening _ _ listener).apart (undisturbed_listening hu hset listener)
    exact (lasting_importedAs _ _).throughout.run_moves hm' hlisten hworks.moves keeps

/-! ### Asking again -/

theorem find_of_lookup (hl : s.lookup address kind = some id) : (s.find address kind).id = id := by
  rw [lookup] at hl
  simp [find, Cache.getOrInsert, hl]

theorem loadWith_resolveAddress (h : s.resolveAddress (s.resolveAddress address) =
    s.resolveAddress address) (kind : Kind) (listener : Listener Value) :
    s.loadWith (s.resolveAddress address) kind listener = s.loadWith address kind listener ∧
      s.load (s.resolveAddress address) kind = s.load address kind := by
  have hfind : s.find (s.resolveAddress address) kind = s.find address kind := by
    rw [find, find, h]
  exact ⟨by rw [loadWith, loadWith, hfind], by rw [load, load, hfind]⟩

/-- A loaded unit is found with its own address if that leads to itself, and not otherwise. -/
theorem lookup_own_iff (finds : s.FindsLoaded) (hu : s.cache.get? id = some u)
    (load : u.origin = .load) :
    s.lookup u.address u.kind = some id ↔ s.resolveAddress u.address = u.address := by
  rw [lookup]
  constructor
  · intro hl
    obtain ⟨v, hv, -, haddress, -⟩ := Cache.lookup_eq_some hl
    obtain rfl := Option.some.inj (hu.symm.trans hv)
    exact haddress.symm
  · intro he
    rw [he]
    exact finds id u hu load

end Session

namespace Host

variable {ledger : List Registration} {h : Host Tree Value} {loader : Nat}
  {s : Session Tree Value (Listener Value)}

/-- Whatever was asked for is found again. -/
theorem Run.findsLoaded (run : Run ledger h) (hs : h.session? loader = some s) :
    s.FindsLoaded :=
  Session.lasting_findsLoaded.run (fun setup ns id u hu => by
    cases (get?_opened setup ns id).symm.trans hu) run hs

/-- What comes of asking a loader with an address that it gave back. Importing an address asks
for the unit that loading it asks for, and the listener is told the address of its unit, exactly
when the address settles relative to the base. A unit that was asked for is found again with its
own address exactly when that is recalled; below an absolute base all of them are. -/
theorem Run.asking_again (run : Run ledger h) (hs : h.session? loader = some s)
    (keeps : s.tools.KeepsResolver) (paths : s.project.resolver = Address.resolve) :
    (∀ address, Address.Settles s.baseAddress address → ∀ kind listener,
      s.loadWith (s.resolveAddress address) kind listener = s.loadWith address kind listener ∧
        s.load (s.resolveAddress address) kind = s.load address kind) ∧
    (∀ id label address value exports,
      .imported loader id label address value exports ∈ h.log →
      ∃ u requested, s.cache.get? id = some u ∧ u.kind = .module ∧
        address = s.resolveAddress requested ∧ u.address = s.resolveAddress address ∧
        (u.address = address ↔ Address.Settles s.baseAddress requested)) ∧
    (∀ id u, s.cache.get? id = some u → u.origin = .load →
      (s.lookup u.address u.kind = some id ↔ Address.Recalls s.baseAddress u.address) ∧
      (Address.Recalls s.baseAddress u.address → (s.load u.address u.kind).id = id ∧
        s.exportsOf u.address = s.toBuild.moduleExports s.tools u.address s.ns) ∧
      (Address.isAbsolute s.baseAddress = true → Address.Recalls s.baseAddress u.address)) := by
  have hresolve (address : String) :
      s.resolveAddress address = Address.resolve address s.baseAddress := by
    rw [Session.resolveAddress, Project.resolve, paths]
  have hsettles (address : String) : s.resolveAddress (s.resolveAddress address) =
      s.resolveAddress address ↔ Address.Settles s.baseAddress address := by
    rw [hresolve, hresolve]
    exact Address.resolve_resolve_iff address s.baseAddress
  refine ⟨fun address hsettled kind listener => ?_, fun id label address value exports hn => ?_,
    fun id u hu load => ?_⟩
  · exact Session.loadWith_resolveAddress ((hsettles address).mpr hsettled) kind listener
  · obtain ⟨t, ht, hrequested⟩ := run.owed Session.lasting_importedAs
      (fun _ _ _ _ rest hid => Session.importedAs_loadWith rest hid) (.told hn)
    obtain rfl := Option.some.inj (hs.symm.trans ht)
    obtain ⟨⟨u, hu, hkind, haddress⟩, requested, rfl⟩ := hrequested keeps
    refine ⟨u, requested, hu, hkind, rfl, haddress, ?_⟩
    rw [haddress]
    exact hsettles requested
  · have hfinds := run.findsLoaded hs
    have hplaced : s.PlacesLoaded := Session.lasting_placesLoaded.run
      (fun setup ns _ _ id u hu => by cases (get?_opened setup ns id).symm.trans hu) run hs
    have hplace := hplaced keeps paths id u hu load
    have hrecalls : Address.resolve u.address s.baseAddress = u.address ↔
        Address.Recalls s.baseAddress u.address := Address.resolve_eq_self_iff hplace.normal
    rw [Session.lookup_own_iff hfinds hu load, hresolve]
    refine ⟨hrecalls, fun hr => ⟨?_, ?_⟩, fun habsolute => .inl (hplace.absolute habsolute)⟩
    · refine Session.find_of_lookup ((Session.lookup_own_iff hfinds hu load).mpr ?_)
      rw [hresolve, hrecalls.mpr hr]
    · rw [Session.exportsOf, hresolve, hrecalls.mpr hr]

/-- A loader with blocking fetches whose base has one directory, and two modules below it. -/
def importingBelow (base : String) : Setup Program UnitLoader.Value :=
  .plain Lang.toolchain { Config.default with baseAddress := base, sync := true }
    (.ofList [("lib/x", .ok "export v = 1"), ("lib/lib/x", .ok "export v = 2"),
      ("/lib/x", .ok "export v = 3")] false)

/-- The module that a host asks for as an import has just been loaded. -/
def imported (base : String) :
    Session Program UnitLoader.Value (Listener UnitLoader.Value) :=
  ((opened (importingBelow base) .empty).loadWith
    ((opened (importingBelow base) .empty).resolveAddress "x") .module
    ⟨"m", some ((opened (importingBelow base) .empty).resolveAddress "x"), []⟩).2

theorem Run.asking_again_absoluteBase :
    (imported "/lib/main").baseAddress = "/lib/main" ∧
      (imported "/lib/main").lookup "/lib/x" .module = some ⟨0⟩ := by
  have joined := Run.empty.join (importingBelow "/lib/main") false rfl
  have run := (joined.ask (.subscribe 0 (.module "x") "m" [])).tick
  obtain ⟨s, hs⟩ : ∃ s, s = imported "/lib/main" := ⟨_, rfl⟩
  have hplain : s.Plain Address.resolve := by
    rw [hs]
    exact (lasting_plain Address.resolve).advance (Session.atRest_fresh ..) ⟨rfl, rfl⟩
      (.loadWith _ _ _ _)
  have hunit : (s.cache.get? ⟨0⟩).map (fun u => (u.address, u.kind, u.origin)) =
      some ("/lib/x", .module, .load) := by
    rw [hs]
    decide +kernel
  have hbase : s.baseAddress = "/lib/main" := by
    rw [hs]
    decide +kernel
  obtain ⟨u, hu, he⟩ := Option.map_eq_some_iff.mp hunit
  obtain ⟨haddress, hkind, hload⟩ : u.address = "/lib/x" ∧ u.kind = .module ∧ u.origin = .load := by
    simpa using he
  have hown := (Run.asking_again run (show Host.session? _ 0 = some s by rw [hs]; rfl)
    (hplain.tools ▸ Lang.keepsResolver_toolchain) hplain.resolver).2.2 ⟨0⟩ u hu hload
  rw [← hs, ← haddress, ← hkind]
  exact ⟨hbase, hown.1.mpr (hown.2.2 (by rw [hbase]; decide))⟩

/-- The address that a listener for a module of a loader was told. -/
def toldFor (loader : Nat) (unit : UnitId) (notes : List (Note Value)) : List String :=
  notes.filterMap fun
    | .imported l u _ address _ _ => if l = loader ∧ u = unit then some address else none
    | _ => none

/-- Below a relative base, an import asks for another module than a load of the same address, its
listener is told the address of that other one, and its own unit is not found again. -/
theorem Run.import_relativeBase : ∃ (ledger : List Registration) (h : Host Program UnitLoader.Value)
    (s : Session Program UnitLoader.Value (Listener UnitLoader.Value)),
      Run ledger h ∧ h.session? 0 = some s ∧ s.baseAddress = "lib/main" ∧
      s.resolveAddress "x" = "lib/x" ∧ s.cache.addressOf ⟨0⟩ = "lib/lib/x" ∧
      toldFor 0 ⟨0⟩ h.log = ["lib/x"] ∧ (s.load "x" .module).id = ⟨1⟩ ∧
      s.lookup (s.cache.addressOf ⟨0⟩) .module = none := by
  have joined := Run.empty.join (importingBelow "lib/main") false rfl
  -- the request, the flush of the outbox and the call of the listener
  have run := (joined.ask (.subscribe 0 (.module "x") "m" [])).tick.tick.tick
  obtain ⟨h, hh⟩ : ∃ h : Host Program UnitLoader.Value, h = Host.tick (Host.tick (Host.tick
      (((ofSeats []).addLoader (importingBelow "lib/main") false).toOption.get rfl |>.first
        [.carryOut (.subscribe 0 (.module "x") "m" [])]))) := ⟨_, rfl⟩
  have hsession : (h.session? 0).map (fun s => (s.baseAddress, s.resolveAddress "x",
      s.cache.addressOf ⟨0⟩, (s.load "x" .module).id,
      s.lookup (s.cache.addressOf ⟨0⟩) .module)) =
        some ("lib/main", "lib/x", "lib/lib/x", ⟨1⟩, none) := by
    rw [hh]
    decide +kernel
  have hlog : toldFor 0 ⟨0⟩ h.log = ["lib/x"] := by
    rw [hh]
    decide +kernel
  obtain ⟨s, hs, he⟩ := Option.map_eq_some_iff.mp hsession
  simp only [Prod.mk.injEq] at he
  exact ⟨_, h, s, hh ▸ run, hs, he.1, he.2.1, he.2.2.1, hlog, he.2.2.2⟩

end Host

end UnitLoader
