import UnitLoader.Proofs.Addressing
import UnitLoader.Proofs.Onward
import UnitLoader.Proofs.Referrers
import UnitLoader.Text.Unicode

/-! Units of one kind at one address. A unit that was asked for is the only such unit at its
address, and the units of evaluated texts are numbered, so no two of these share an address.
The two ways of naming units meet where a script is asked for at the address of an evaluated
text. -/

namespace UnitLoader

variable {Tree Value Listener : Type}

namespace Address

theorem toString_inj {m n : Nat} (h : toString m = toString n) : m = n := by
  rw [Nat.toString_eq_ofList_toDigits, Nat.toString_eq_ofList_toDigits, String.ofList_inj] at h
  have := congrArg (Nat.ofDigitChars 10 · 0) h
  simpa [Nat.ofDigitChars_toDigits] using this

theorem evalAddress_inj {base : String} {m n : Nat}
    (h : base ++ "#eval-" ++ toString m = base ++ "#eval-" ++ toString n) : m = n := by
  rw [← String.toList_inj, String.toList_append, String.toList_append (t := toString n)] at h
  exact toString_inj (String.toList_inj.mp (List.append_cancel_left h))

end Address

namespace Cache

variable {c d : Cache Tree Value Listener} {i j : UnitId}

def origins (c : Cache Tree Value Listener) : List Origin :=
  c.units.map (·.origin)

/-- How many evaluated texts had units before a unit was there. -/
def evalsBefore (c : Cache Tree Value Listener) (id : UnitId) : Nat :=
  (c.origins.take id.index).count .eval

theorem origins_getElem? (c : Cache Tree Value Listener) (id : UnitId) :
    c.origins[id.index]? = (c.get? id).map (·.origin) :=
  List.getElem?_map

theorem Keeps.origins (h : c.Keeps d) : c.origins <+: d.origins := by
  refine List.prefix_iff_getElem?.mpr fun i hi => ?_
  have hlt : (⟨i⟩ : UnitId).index < c.size := by simpa [Cache.origins, size] using hi
  obtain ⟨u, hu⟩ := get?_of_index_lt hlt
  obtain ⟨v, hv, -, -, horigin⟩ := h ⟨i⟩ u hu
  have hc := c.origins_getElem? ⟨i⟩
  have hd := d.origins_getElem? ⟨i⟩
  rw [hu, Option.map_some] at hc
  rw [hv, Option.map_some, horigin, ← hc] at hd
  rw [hd, List.getElem?_eq_getElem hi]

/-- Units that come later do not change the number of a unit. -/
theorem Keeps.evalsBefore (h : c.Keeps d) (le : i.index ≤ c.size) :
    d.evalsBefore i = c.evalsBefore i := by
  obtain ⟨more, hmore⟩ := h.origins
  have hle : i.index ≤ c.origins.length := by simpa [Cache.origins, size] using le
  rw [Cache.evalsBefore, Cache.evalsBefore, ← hmore, List.take_append_of_le_length hle]

theorem evalsBefore_size (c : Cache Tree Value Listener) :
    c.evalsBefore ⟨c.size⟩ = c.countOf .eval := by
  rw [evalsBefore, List.take_of_length_le (by simp [origins, size]), origins, countOf,
    List.count, List.countP_map]
  rfl

theorem evalsBefore_lt {u : SourceUnit Tree Value Listener} (hu : c.get? i = some u)
    (given : u.origin = .eval) (lt : i.index < j.index) : c.evalsBefore i < c.evalsBefore j := by
  have hi : c.origins[i.index]? = some .eval := by
    rw [origins_getElem?, hu, Option.map_some, given]
  have hone : c.evalsBefore i + 1 = (c.origins.take (i.index + 1)).count .eval := by
    simp [evalsBefore, List.take_add_one, hi]
  have hle : (c.origins.take (i.index + 1)).count .eval ≤ c.evalsBefore j :=
    (List.take_prefix_take_left (by omega)).sublist.count_le _
  omega

end Cache

namespace Session

variable {s t : Session Tree Value Listener} {id : UnitId} {u v : SourceUnit Tree Value Listener}

/-- The units of evaluated texts are scripts, and their addresses are numbered in order. -/
def EvalsNumbered (s : Session Tree Value Listener) : Prop :=
  ∀ id u, s.cache.get? id = some u → u.origin = .eval → u.kind = .script ∧
    u.address = s.baseAddress ++ "#eval-" ++ toString (s.cache.evalsBefore id)

theorem EvalsNumbered.kept (h : s.EvalsNumbered) (keeps : s.cache.Keeps t.cache)
    (base : t.baseAddress = s.baseAddress) (hu : s.cache.get? id = some u)
    (address : v.address = u.address) (kind : v.kind = u.kind) (origin : v.origin = u.origin)
    (given : v.origin = .eval) : v.kind = .script ∧
      v.address = t.baseAddress ++ "#eval-" ++ toString (t.cache.evalsBefore id) := by
  rw [address, kind, base, keeps.evalsBefore (Cache.index_lt_of_get? hu).le]
  exact h id u hu (origin.symm.trans given)

theorem lasting_evalsNumbered :
    Lasting (EvalsNumbered : Session Tree Value (UnitLoader.Listener Value) → Prop) where
  still := by
    intro s t hs hstill _ id v hv given
    have hkeeps : s.cache.Keeps t.cache := Still.keeps (t := { t with ns := s.ns }) hstill
    obtain ⟨u, hu, he⟩ := Still.get?_back hstill hv
    obtain ⟨haddress, hkind, horigin⟩ := SourceUnit.place_of_core he
    exact hs.kept hkeeps hstill.baseAddress hu haddress hkind horigin given
  gains := by
    intro s t w _ hs hgains hnew _ id v hv given
    rcases hgains.get?_back hv with ⟨u, hu, he⟩ | ⟨rfl, he⟩
    · obtain ⟨haddress, hkind, horigin⟩ := SourceUnit.place_of_core he
      exact hs.kept hgains.keeps hgains.baseAddress hu haddress hkind horigin given
    · obtain ⟨haddress, hkind, horigin⟩ := SourceUnit.place_of_core he
      cases hnew with
      | load => cases horigin.symm.trans given
      | eval =>
        have hnumber : t.cache.evalsBefore ⟨s.cache.size⟩ = s.cache.countOf .eval :=
          (hgains.keeps.evalsBefore (Nat.le_refl s.cache.size)).trans s.cache.evalsBefore_size
        refine ⟨hkind, ?_⟩
        rw [haddress, hgains.baseAddress, hnumber]
        rfl
  moves := by
    intro m n hm hs hmove id v hv given
    have hdevelops := hmove.develops hm
    rcases (hmove.turns hm).unit hv with ⟨u, hu, haddress, hkind, horigin⟩ | ⟨-, hload⟩
    · exact hs.kept hdevelops.keeps hdevelops.setting.baseAddress hu haddress hkind horigin given
    · cases hload.symm.trans given

theorem EvalsNumbered.unique (h : s.EvalsNumbered) {i j : UnitId} (hu : s.cache.get? i = some u)
    (hv : s.cache.get? j = some v) (given : u.origin = .eval) (given' : v.origin = .eval)
    (address : u.address = v.address) : i = j := by
  rw [(h i u hu given).2, (h j v hv given').2] at address
  have hsame := Address.evalAddress_inj address
  rcases Nat.lt_trichotomy i.index j.index with hlt | heq | hgt
  · exact absurd hsame (Cache.evalsBefore_lt hu given hlt).ne
  · exact UnitId.ext_iff.mpr heq
  · exact absurd hsame (Cache.evalsBefore_lt hv given' hgt).ne'

end Session

namespace Session

variable {s : Session Tree Value (UnitLoader.Listener Value)} {i j k : UnitId}
  {u v w : SourceUnit Tree Value (UnitLoader.Listener Value)}

theorem FindsLoaded.unique (h : s.FindsLoaded) (hu : s.cache.get? i = some u)
    (hv : s.cache.get? j = some v) (load : u.origin = .load) (load' : v.origin = .load)
    (address : u.address = v.address) (kind : u.kind = v.kind) : i = j := by
  have hi := h i u hu load
  rw [address, kind, h j v hv load'] at hi
  exact (Option.some.inj hi).symm

/-- A script that was asked for at an address, and the unit of an evaluated text that has the
same address. -/
structure Namesakes (s : Session Tree Value (UnitLoader.Listener Value)) (loaded given : UnitId)
    (address : String) : Prop where
  found : s.cache.lookup address .script = some loaded
  evaluated : (s.cache.get? given).map (fun v => (v.origin, v.kind)) = some (.eval, .script)
  numbered : address = s.baseAddress ++ "#eval-" ++ toString (s.cache.evalsBefore given)
  normal : Address.normalize address = address

theorem namesakes_of_same (finds : s.FindsLoaded) (numbers : s.EvalsNumbered)
    (normal : Address.normalize u.address = u.address) (hu : s.cache.get? i = some u)
    (hv : s.cache.get? j = some v) (load : u.origin = .load) (given : v.origin = .eval)
    (address : u.address = v.address) (kind : u.kind = v.kind) :
    s.Namesakes i j u.address ∧ ∀ k w, s.cache.get? k = some w → w.kind = u.kind →
      w.address = u.address → k = i ∨ k = j := by
  obtain ⟨hscript, hnumbered⟩ := numbers j v hv given
  refine ⟨⟨?_, ?_, address.trans hnumbered, normal⟩, fun k w hw hkind haddress => ?_⟩
  · rw [← hscript, ← kind]
    exact finds i u hu load
  · rw [hv, Option.map_some, given, hscript]
  · cases ho : w.origin with
    | load => exact .inl (finds.unique hw hu ho load haddress hkind)
    | eval => exact .inr (numbers.unique hw hv ho given (haddress.trans address))

end Session

namespace Host

variable {ledger : List Registration} {h : Host Tree Value} {loader : Nat}
  {s : Session Tree Value (UnitLoader.Listener Value)} {i j k : UnitId}
  {u v w : SourceUnit Tree Value (UnitLoader.Listener Value)}

/-- When specifiers are resolved as paths, units of one kind have different addresses, except
that a script may have been asked for at the address of an evaluated text. The address is its own
normal form then, and there is no third such unit. -/
theorem Run.namesakes (run : Run ledger h) (hs : h.session? loader = some s)
    (keeps : s.tools.KeepsResolver) (paths : s.project.resolver = Address.resolve)
    (hu : s.cache.get? i = some u) (hv : s.cache.get? j = some v) (distinct : i ≠ j)
    (kind : u.kind = v.kind) (address : u.address = v.address) :
    (s.Namesakes i j u.address ∨ s.Namesakes j i u.address) ∧
      ∀ k w, s.cache.get? k = some w → w.kind = u.kind → w.address = u.address →
        k = i ∨ k = j := by
  have hfinds := run.findsLoaded hs
  have hnumbers : s.EvalsNumbered := Session.lasting_evalsNumbered.run (fun setup ns id u hu => by
    cases (get?_opened setup ns id).symm.trans hu) run hs
  have hplaced : s.PlacesLoaded := Session.lasting_placesLoaded.run
    (fun setup ns _ _ id u hu => by cases (get?_opened setup ns id).symm.trans hu) run hs
  have hnormal {id : UnitId} {u} (hu : s.cache.get? id = some u) (load : u.origin = .load) :
      Address.normalize u.address = u.address := by
    rw [Address.normalize, (hplaced keeps paths id u hu load).normal, String.ofList_toList]
  cases ho : u.origin with
  | load =>
    cases ho' : v.origin with
    | load => exact absurd (hfinds.unique hu hv ho ho' address kind) distinct
    | eval =>
      exact (Session.namesakes_of_same hfinds hnumbers (hnormal hu ho) hu hv ho ho' address
        kind).imp_left .inl
  | eval =>
    cases ho' : v.origin with
    | load =>
      obtain ⟨hsame, hthird⟩ := Session.namesakes_of_same hfinds hnumbers (hnormal hv ho') hv hu ho'
        ho address.symm kind.symm
      rw [← address, ← kind] at hthird
      exact ⟨.inr (address ▸ hsame), fun k w hw hkind haddress => (hthird k w hw hkind haddress).symm⟩
    | eval => exact absurd (hnumbers.unique hu hv ho ho' address) distinct

/-! ### A script where a text is evaluated -/

/-- A script at the address that the first evaluated text gets, and a module with one export. -/
def crowded : Setup Program UnitLoader.Value :=
  .plain Lang.toolchain .default (.ofList
    [("/#eval-0", .ok "5"), ("/m", .ok "export y = 1")] true)

def crowdedHost : Host Program UnitLoader.Value :=
  ((ofSeats []).addLoader crowded false).toOption.get rfl

/-- The script is asked for, a text that imports from the module is evaluated, and what both wait
for arrives. -/
def crowdedLater : Host Program UnitLoader.Value :=
  (((crowdedHost.take 9 (.request 0 (.load "/#eval-0" .script))).2.take 9
    (.request 0 (.eval "import x from \"/m\"\nx"))).2.take 9 (.request 0 .poll)).2

theorem leads_crowdedLater : Leads crowdedHost crowdedLater :=
  ((leads_take _ _ _).trans (leads_take _ _ _)).trans (leads_take _ _ _)

theorem run_crowded : ∃ (ledger : List Registration) (h : Host Program UnitLoader.Value)
    (s : Session Program UnitLoader.Value (UnitLoader.Listener UnitLoader.Value)),
    Run ledger h ∧ h.session? 0 = some s ∧ s.Plain Address.resolve ∧
      (s.cache.get? ⟨0⟩).map (fun u => (u.address, u.kind, u.origin)) =
        some ("/#eval-0", .script, .load) ∧
      (s.cache.get? ⟨1⟩).map (fun v => (v.address, v.kind, v.origin)) =
        some ("/#eval-0", .script, .eval) ∧
      (s.cache.get? ⟨0⟩).map (fun u => (u.tree.map (·.specifiers), u.error)) =
        some (some [],
          some (.analysis "/#eval-0" "module '/m' has no export 'x' (available: y)")) := by
  have joined : Run [] crowdedHost := Run.empty.join crowded false rfl
  obtain ⟨ledger, run⟩ := joined.leads leads_crowdedLater
  have hopen : crowdedHost.session? 0 = some (opened crowded .empty) := rfl
  obtain ⟨s, hs, plain⟩ := joined.lasting (lasting_plain Address.resolve) hopen ⟨rfl, rfl⟩
    leads_crowdedLater
  have hloaded : (crowdedLater.session? 0).bind (fun s => (s.cache.get? ⟨0⟩).map fun u =>
      (u.address, u.kind, u.origin)) = some ("/#eval-0", .script, .load) := by
    decide +kernel
  have hevaluated : (crowdedLater.session? 0).bind (fun s => (s.cache.get? ⟨1⟩).map fun v =>
      (v.address, v.kind, v.origin)) = some ("/#eval-0", .script, .eval) := by
    decide +kernel
  have herror : (crowdedLater.session? 0).bind (fun s => (s.cache.get? ⟨0⟩).map fun u =>
      (u.tree.map (·.specifiers), u.error)) = some (some [],
        some (.analysis "/#eval-0" "module '/m' has no export 'x' (available: y)")) := by
    decide +kernel
  rw [hs, Option.bind_some] at hloaded hevaluated herror
  exact ⟨_, crowdedLater, s, run, hs, plain, hloaded, hevaluated, herror⟩

/-- Two scripts with one address. The one that was asked for imports nothing, and what is wrong
with the imports of the other one is its error. -/
theorem Run.shared_address : ∃ (ledger : List Registration) (h : Host Program UnitLoader.Value)
    (s : Session Program UnitLoader.Value (UnitLoader.Listener UnitLoader.Value))
    (u v : SourceUnit Program UnitLoader.Value (UnitLoader.Listener UnitLoader.Value)),
    Run ledger h ∧ h.session? 0 = some s ∧ s.project.resolver = Address.resolve ∧
      s.cache.get? ⟨0⟩ = some u ∧ s.cache.get? ⟨1⟩ = some v ∧ u.kind = v.kind ∧
      u.address = v.address ∧ u.tree.map (·.specifiers) = some [] ∧
      u.error = some (.analysis v.address "module '/m' has no export 'x' (available: y)") := by
  obtain ⟨ledger, h, s, run, hs, plain, hloaded, hevaluated, herror⟩ := run_crowded
  obtain ⟨u, hu, hloaded⟩ := Option.map_eq_some_iff.mp hloaded
  obtain ⟨v, hv, hevaluated⟩ := Option.map_eq_some_iff.mp hevaluated
  rw [hu, Option.map_some, Option.some.injEq] at herror
  simp only [Prod.mk.injEq] at hloaded hevaluated herror
  obtain ⟨haddress, hkind, -⟩ := hloaded
  obtain ⟨haddress', hkind', -⟩ := hevaluated
  exact ⟨ledger, h, s, u, v, run, hs, plain.resolver, hu, hv, hkind.trans hkind'.symm,
    haddress.trans haddress'.symm, herror.1, haddress' ▸ herror.2⟩

theorem Run.namesakes_crowded :
    ∃ s : Session Program UnitLoader.Value (UnitLoader.Listener UnitLoader.Value),
      s.Namesakes ⟨0⟩ ⟨1⟩ "/#eval-0" := by
  obtain ⟨ledger, h, s, run, hs, plain, hloaded, hevaluated, -⟩ := run_crowded
  obtain ⟨u, hu, hloaded⟩ := Option.map_eq_some_iff.mp hloaded
  obtain ⟨v, hv, hevaluated⟩ := Option.map_eq_some_iff.mp hevaluated
  simp only [Prod.mk.injEq] at hloaded hevaluated
  obtain ⟨haddress, hkind, hload⟩ := hloaded
  obtain ⟨haddress', hkind', -⟩ := hevaluated
  obtain ⟨hsame | hsame, -⟩ := Run.namesakes run hs (plain.tools ▸ Lang.keepsResolver_toolchain)
    plain.resolver hu hv (by decide) (hkind.trans hkind'.symm) (haddress.trans haddress'.symm)
  · exact ⟨s, haddress ▸ hsame⟩
  · have := hsame.evaluated
    rw [hu, Option.map_some, hload] at this
    simp at this

end Host

end UnitLoader
