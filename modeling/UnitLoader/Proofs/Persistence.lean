import UnitLoader.Proofs.Onward
import UnitLoader.Proofs.Parsing
import UnitLoader.Proofs.Steady
import UnitLoader.Text.Unicode

/-! What is settled about a unit stays settled, whatever happens to its loader. The unit is
never lost and never changes its place, its state does not go back, and its dependencies,
its error and its result are what they are once they are there. -/

namespace UnitLoader

variable {Tree Value : Type}

namespace SourceUnit

variable {Listener : Type} {u v w : SourceUnit Tree Value Listener}

/-- A unit, and the same unit seen again later on. -/
structure Persists (u v : SourceUnit Tree Value Listener) : Prop where
  address : v.address = u.address
  kind : v.kind = u.kind
  origin : v.origin = u.origin
  forward : u.state.rank ≤ v.state.rank
  final : u.state.isSettled = true → v.state = u.state
  dependencies : ∀ ids, u.dependencies = some ids → v.dependencies = some ids
  error : ∀ e, u.error = some e → v.error = some e
  result : u.state = .complete → v.result = u.result

/-- What a unit never loses, its dependencies among it, and a settled one never changes. -/
structure Endures (u v : SourceUnit Tree Value Listener) : Prop extends Becomes u v where
  dependencies : ∀ ids, u.dependencies = some ids → v.dependencies = some ids

theorem Endures.refl (u : SourceUnit Tree Value Listener) : Endures u u :=
  ⟨.refl u, fun _ hids => hids⟩

theorem Endures.trans (h : Endures u v) (h' : Endures v w) : Endures u w :=
  ⟨h.toBecomes.trans h'.toBecomes, fun ids hids => h'.dependencies ids (h.dependencies ids hids)⟩

theorem endures_of_core (core : v.core = u.core) (settled : u.state.isSettled = true → v = u) :
    Endures u v := by
  obtain ⟨haddress, hkind, horigin⟩ := place_of_core core
  have hdependencies : v.dependencies = u.dependencies := congrArg (·.dependencies) core
  exact ⟨⟨haddress, hkind, horigin, settled⟩, fun ids hids => hdependencies.trans hids⟩

end SourceUnit

namespace Session

variable {Listener : Type} {r s t : Session Tree Value Listener} {id : UnitId}
  {u : SourceUnit Tree Value Listener}

def Endures (s t : Session Tree Value Listener) : Prop :=
  ∀ id u, s.cache.get? id = some u → ∃ v, t.cache.get? id = some v ∧ u.Endures v

theorem Endures.refl (s : Session Tree Value Listener) : s.Endures s :=
  fun _ u hu => ⟨u, hu, .refl u⟩

theorem Endures.trans (h : r.Endures s) (h' : s.Endures t) : r.Endures t := by
  intro id u hu
  obtain ⟨v, hv, huv⟩ := h id u hu
  obtain ⟨w, hw, hvw⟩ := h' id v hv
  exact ⟨w, hw, huv.trans hvw⟩

theorem endures_of_undisturbed (undisturbed : s.Undisturbed t)
    (cores : ∀ id u, s.cache.get? id = some u → ∃ v, t.cache.get? id = some v ∧ v.core = u.core) :
    s.Endures t := by
  intro id u hu
  obtain ⟨v, hv, hcore⟩ := cores id u hu
  refine ⟨v, hv, SourceUnit.endures_of_core hcore fun hs => ?_⟩
  exact Option.some.inj (hv.symm.trans (undisturbed.settled id u hu hs))

end Session

open Session

/-- A unit has no dependencies before it is read, and is read once. -/
theorem Move.endures {Listener : Type} {m n : Moment Tree Value Listener} (hmove : Move m n)
    (hm : m.Sound) : m.session.Endures n.session := by
  intro id u hu
  obtain ⟨v, hv, hbecomes⟩ := (hmove.develops hm).unit id u hu
  refine ⟨v, hv, hbecomes, fun ids hids => ?_⟩
  have hread : u.state ≠ .loaded := fun loaded => by
    have hnone := (hm.fits id u hu).proper.dependencies (by rw [loaded]; rfl)
    cases hnone.symm.trans hids
  exact ((hmove.turns hm).dependencies_eq hu hv hread).trans hids

theorem lasting_endures (r : Session Tree Value (UnitLoader.Listener Value)) :
    Lasting fun s => r.Endures s where
  still := fun _ _ hs still undisturbed =>
    hs.trans (endures_of_undisturbed undisturbed fun _ _ hu => Still.get? still hu)
  gains := fun _ _ _ _ hs gains _ undisturbed =>
    hs.trans (endures_of_undisturbed undisturbed fun _ _ hu => gains.get? hu)
  moves := fun _ _ hm hs hmove => hs.trans (hmove.endures hm)

namespace Session

variable {Listener : Type} {s t : Session Tree Value Listener} {id : UnitId}
  {u : SourceUnit Tree Value Listener}

/-- At rest a unit that was parsed has its dependencies, and one with an error has settled. -/
theorem AtRest.exists_later (rest : s.AtRest) (later : t.AtRest) (endures : s.Endures t)
    (faultless : s.Faultless) (hu : s.cache.get? id = some u) (learned : s.Learned u) :
    ∃ v, t.cache.get? id = some v ∧ u.Persists v := by
  obtain ⟨v, hv, huv⟩ := endures id u hu
  have hstate := later.state id hv
  have herror (e : LoadError) (he : u.error = some e) : u.state.isSettled = true := by
    cases hs : u.state.isSettled with
    | true => rfl
    | false => cases (faultless id u hu hs).symm.trans he
  refine ⟨v, hv, huv.address, huv.kind, huv.origin, ?_, fun hs => by rw [huv.settled hs],
    huv.dependencies, fun e he => by rw [huv.settled (herror e he), he],
    fun hs => by rw [huv.settled (by rw [hs]; rfl)]⟩
  rcases rest.state id hu with hs | hs | hs | hs
  · rcases hstate with hv | hv | hv | hv <;> simp [hs, hv, State.rank]
  · have htree := (rest.sound.fits id u hu).proper.tree hs
    obtain ⟨ids, hids⟩ : ∃ ids, u.dependencies = some ids := by
      cases hd : u.dependencies with
      | some ids => exact ⟨ids, rfl⟩
      | none => simp [learned.unread hd] at htree
    have hpast : v.state ≠ .loading := fun hloading => by
      have hnone := (later.sound.fits id v hv).proper.dependencies (by rw [hloading]; rfl)
      cases hnone.symm.trans (huv.dependencies ids hids)
    rcases hstate with hv | hv | hv | hv
    · exact absurd hv hpast
    all_goals simp [hs, hv, State.rank]
  all_goals rw [huv.settled (by rw [hs]; rfl)]

end Session

namespace Host

/-- Whatever a loader goes through, none of its units is lost, and what was settled about them
stays as it was. At any time the dependencies of a unit are fixed if it was parsed without an
error, and only then, and they are modules that are there. -/
theorem Run.persists {ledger : List Registration} {h h' : Host Tree Value} {loader : Nat}
    {s : Session Tree Value (Listener Value)} (run : Run ledger h) (later : Leads h h')
    (hs : h.session? loader = some s) :
    ∃ t, h'.session? loader = some t ∧
      (∀ id u, s.cache.get? id = some u → ∃ v, t.cache.get? id = some v ∧ u.Persists v) ∧
      ∀ id v, t.cache.get? id = some v → t.Fixes id v := by
  obtain ⟨t, ht, hendures⟩ := run.lasting (lasting_endures s) hs (.refl s) later
  obtain ⟨more, hrun⟩ := run.leads later
  have hrest := run.orderly.rest loader s hs
  have hlater := hrun.orderly.rest loader t ht
  refine ⟨t, ht, fun id u hu => ?_, fun id v hv => hrun.fixes ht hv⟩
  exact hrest.exists_later hlater hendures (run.records hs).faultless hu (run.learned hs hu)

/-- A script that imports from a module. -/
def importing : Setup Program UnitLoader.Value :=
  .plain Lang.toolchain .default (.ofList
    [("/s", .ok "import y from \"/m\"\ny"), ("/m", .ok "export y = 1")] true)

def importingHost : Host Program UnitLoader.Value :=
  ((ofSeats []).addLoader importing false).toOption.get rfl

/-- The text of the script has arrived, and that of the module is on its way. -/
def halfwayHost : Host Program UnitLoader.Value :=
  ((importingHost.take 9 (.request 0 (.load "/s" .script))).2.first
    [.carryOut (.request 0 .poll)]).run 2

theorem leads_halfwayHost : Leads importingHost halfwayHost :=
  ((leads_take _ _ _).tail (.ask _)).trans (leads_run _ _)

/-- The script waits for its import, and is complete when that has arrived. -/
theorem Run.persists_halfway :
    ∃ (s t : Session Program UnitLoader.Value (UnitLoader.Listener UnitLoader.Value))
      (u v : SourceUnit Program UnitLoader.Value (UnitLoader.Listener UnitLoader.Value)),
      halfwayHost.session? 0 = some s ∧ (halfwayHost.run 2).session? 0 = some t ∧
        s.cache.get? ⟨0⟩ = some u ∧ t.cache.get? ⟨0⟩ = some v ∧
        u.state = .parsed ∧ u.dependencies = some [⟨1⟩] ∧ u.Persists v ∧ v.state = .complete ∧
        t.Fixes ⟨0⟩ v := by
  have joined : Run [] importingHost := Run.empty.join importing false rfl
  obtain ⟨ledger, run⟩ := joined.leads leads_halfwayHost
  have hbefore : (halfwayHost.session? 0).bind (fun s => (s.cache.get? ⟨0⟩).map fun u =>
      (u.state, u.dependencies)) = some (.parsed, some [⟨1⟩]) := by
    decide +kernel
  have hafter : ((halfwayHost.run 2).session? 0).bind (fun t => t.cache.state? ⟨0⟩) =
      some .complete := by
    decide +kernel
  obtain ⟨s, hs, hbefore⟩ := Option.bind_eq_some_iff.mp hbefore
  obtain ⟨u, hu, hbefore⟩ := Option.map_eq_some_iff.mp hbefore
  obtain ⟨hstate, hdependencies⟩ := Prod.mk.inj hbefore
  obtain ⟨t, ht, hpersists, hfixes⟩ := Run.persists run (leads_run halfwayHost 2) hs
  obtain ⟨v, hv, huv⟩ := hpersists ⟨0⟩ u hu
  rw [ht, Option.bind_some, Cache.state?, hv, Option.map_some, Option.some.injEq] at hafter
  exact ⟨s, t, u, v, hs, ht, hu, hv, hstate, hdependencies, huv, hafter, hfixes _ v hv⟩

end Host

end UnitLoader
