import UnitLoader.Proofs.Tracing
import UnitLoader.Text.Unicode

/-! A namespace that nobody else reads while its loader is called. A host may hold a
namespace for a time, as long as it leaves the loader alone then. -/

namespace UnitLoader

variable {Tree Value : Type}

namespace Session

variable {s t : Session Tree Value (Listener Value)}

theorem Beside.apart (h : Beside s t) : s.Apart t := by
  rw [Apart, h.same]

theorem Outside.apart {Listener : Type} {s t : Session Tree Value Listener} (h : Outside s t) :
    s.Apart t := by
  unfold Apart
  rw [h]

theorem Apart.refl (s : Session Tree Value (Listener Value)) : s.Apart s :=
  rfl

theorem Apart.cache (h : s.Apart t) : t.cache = s.cache := by
  rw [h]

theorem Apart.tools (h : s.Apart t) : t.tools = s.tools := by
  rw [h]

end Session

open Session

namespace Host

variable {h h' : Host Tree Value} {loader other : Nat}

/-- Whether the next task is a call of a loader. -/
def calls (h : Host Tree Value) (loader : Nat) : Bool :=
  match h.agenda with
  | .carryOut (.request other _) :: _ => other = loader
  | .carryOut (.subscribe other _ _ _) :: _ => other = loader
  | .poll other _ :: _ => other = loader
  | _ => false

/-- A loader is left alone, whatever else happens. -/
def Spares (loader : Nat) (h h' : Host Tree Value) : Prop :=
  ∀ t, h'.session? loader = some t → ∃ s, h.session? loader = some s ∧ s.Apart t

theorem spares_of_seats (seats : h'.seats = h.seats) : Spares loader h h' := by
  intro t ht
  refine ⟨t, ?_, .refl t⟩
  rwa [session?, ← seats]

theorem spares_reseat {s t : Session Tree Value (Listener Value)} (hs : h.session? other = some s)
    (apart : other = loader → s.Apart t) (seats : h'.seats = reseat h.seats other t) :
    Spares loader h h' := by
  intro u hu
  rw [session?, seats] at hu
  rcases session?_reseat hu with ⟨rfl, rfl⟩ | ⟨-, v, hv, hout⟩
  · exact ⟨s, hs, apart rfl⟩
  · exact ⟨v, hv, hout.apart⟩

theorem spares_beside {s t : Session Tree Value (Listener Value)}
    (hs : h.session? other = some s) (change : Beside s t)
    (seats : h'.seats = reseat h.seats other t) : Spares loader h h' :=
  spares_reseat hs (fun _ => change.apart) seats

theorem spares_withLoader {f : Session Tree Value (Listener Value) → Host Tree Value}
    (hf : ∀ s, h.session? other = some s → Spares loader h (f s)) :
    Spares loader h (h.withLoader other f) := by
  simp only [withLoader]
  split
  · exact spares_of_seats rfl
  · next seat hseat =>
    split
    · exact spares_of_seats rfl
    · exact hf _ (session?_eq hseat)

theorem spares_request {s : Session Tree Value (Listener Value)} (hs : h.session? other = some s)
    (hne : other ≠ loader) (r : Request Value) : Spares loader h (h.request other s r) := by
  have hput (t : Session Tree Value (Listener Value)) {k : Host Tree Value}
      (seats : k.seats = reseat h.seats other t) : Spares loader h k :=
    spares_reseat hs (fun he => absurd he hne) seats
  cases r with
  | load | loadSync | eval => exact hput _ rfl
  | define name value =>
    simp only [Host.request]
    split
    · exact spares_of_seats rfl
    · exact hput _ rfl
  | tryUntilIdle =>
    simp only [Host.request]
    split <;> exact spares_of_seats rfl
  | _ => exact spares_of_seats rfl

theorem spares_subscribe {s : Session Tree Value (Listener Value)} (hs : h.session? other = some s)
    (hne : other ≠ loader) (label : String) (followUps : List (Step Value)) (subject : Subject) :
    Spares loader h (h.subscribe other s label followUps subject) := by
  have hput (t : Session Tree Value (Listener Value)) {k : Host Tree Value}
      (seats : k.seats = reseat h.seats other t) : Spares loader h k :=
    spares_reseat hs (fun he => absurd he hne) seats
  cases subject with
  | load | module | unit =>
    simp only [Host.subscribe]
    split
    · first | exact hput _ rfl | exact spares_of_seats rfl
    · exact hput _ rfl
  | eval code => exact hput _ rfl

theorem spares_supply {s : Session Tree Value (Listener Value)} (hs : h.session? other = some s)
    (r : Supply) : Spares loader h (h.supply other s r) := by
  cases r with
  | release address => exact spares_beside hs (beside_release s address) rfl
  | releaseAll => exact spares_beside hs (beside_releaseAll s) rfl
  | insert address text =>
    exact spares_reseat (t := { s with fetcher := s.fetcher.insert address text }) hs
      (fun _ => rfl) rfl
  | respond address result => exact spares_beside hs (beside_respond s address result) rfl
  | forget address => exact spares_beside hs (beside_respond s address _) rfl
  | fetches | requests => exact spares_of_seats rfl

theorem spares_carryOut {step : Step Value} {rest : List (Task Value)}
    (quiet : ({ h with agenda := .carryOut step :: rest } : Host Tree Value).calls loader = false) :
    Spares loader h (h.carryOut step) := by
  cases step with
  | request other r =>
    exact spares_withLoader fun s hs => spares_request hs (of_decide_eq_false quiet) r
  | supply other r =>
    simp only [carryOut]
    split
    · exact spares_of_seats rfl
    · next s hs => exact spares_supply hs r
  | subscribe other subject label followUps =>
    exact spares_withLoader fun s hs =>
      spares_subscribe hs (of_decide_eq_false quiet) label followUps subject
  | hold other steps =>
    exact spares_withLoader fun s hs =>
      spares_reseat (t := { s with held := true }) hs (fun _ => rfl) rfl
  | drop other =>
    have hsame : (h.carryOut (.drop other)).session? loader = h.session? loader := by
      simp only [session?, carryOut, answer, List.getElem?_modify]
      cases h.seats[loader]? with
      | none => rfl
      | some seat => by_cases he : other = loader <;> simp [he]
    exact fun t ht => ⟨t, hsame ▸ ht, .refl t⟩
  | isAlive | unclear => exact spares_of_seats rfl

theorem spares_perform {task : Task Value} {rest : List (Task Value)}
    (quiet : ({ h with agenda := task :: rest } : Host Tree Value).calls loader = false) :
    Spares loader h (h.perform task) := by
  cases task with
  | carryOut step => exact spares_carryOut quiet
  | flush other =>
    simp only [perform]
    cases hs : h.session? other with
    | none => exact spares_of_seats rfl
    | some s =>
      simp only [Option.map_some, Option.getD_some, Host.flush]
      split
      · exact spares_of_seats rfl
      · exact spares_reseat (t := { s with outbox := [] }) hs (fun _ => rfl) rfl
  | settle other id =>
    simp only [perform]
    cases h.session? other <;> exact spares_of_seats rfl
  | poll other taken =>
    simp only [perform]
    split
    · exact spares_of_seats rfl
    · next t hr =>
      obtain ⟨s, hs, -⟩ := Option.bind_eq_some_iff.mp hr
      exact spares_reseat hs (fun he => absurd he (of_decide_eq_false quiet)) rfl
  | quiet other wait =>
    simp only [perform]
    split
    · exact spares_of_seats rfl
    · exact spares_of_seats h.seats_takeCount
  | drain other rounds =>
    simp only [perform]
    split
    · exact spares_of_seats rfl
    · next s hs => exact spares_beside hs (beside_releaseAll s) rfl
  | drained other rounds released =>
    have hcount := h.seats_takeCount
    simp only [perform]
    split <;> exact spares_of_seats hcount
  | note =>
    simp only [perform]
    split <;> exact spares_of_seats rfl
  | letGo other before steps =>
    simp only [perform]
    split
    · exact spares_of_seats rfl
    · next s hs => exact spares_reseat (t := { s with held := before }) hs (fun _ => rfl) rfl
  | tell | reply => exact spares_of_seats rfl

theorem spares_tick (quiet : h.calls loader = false) : Spares loader h h.tick := by
  cases ha : h.agenda with
  | nil => exact spares_of_seats (by simp [tick, ha])
  | cons task rest =>
    have htick : h.tick = ({ h with agenda := rest } : Host Tree Value).perform task := by
      simp [tick, ha]
    have hquiet : ({ h with agenda := task :: rest } : Host Tree Value).calls loader = false := by
      rw [← ha]
      exact quiet
    have hspares := spares_perform (h := { h with agenda := rest }) hquiet
    rw [htick]
    exact hspares

/-! ### Runs -/

/-- The hosts that runs lead to in which, whenever a loader is called, nobody else reads its
namespace. -/
inductive Unheld (loader : Nat) : Host Tree Value → Prop
  | empty : Unheld loader (.ofSeats [])
  | join {h h' : Host Tree Value} (before : Unheld loader h) (setup : Setup Tree Value)
      (sharing : Bool) (joins : h.addLoader setup sharing = .ok h') : Unheld loader h'
  | ask {h : Host Tree Value} (before : Unheld loader h) (step : Step Value) :
      Unheld loader (h.first [.carryOut step])
  | tick {h : Host Tree Value} (before : Unheld loader h)
      (free : h.calls loader = true → ∀ s, h.session? loader = some s → s.held = false) :
      Unheld loader h.tick
  | collect {h : Host Tree Value} (before : Unheld loader h) {reply : Reply Value}
      {rest : List (Reply Value)} (replies : h.replies = reply :: rest) :
      Unheld loader { h with replies := rest }

theorem Unheld.run (unheld : Unheld loader h) : ∃ ledger, Run ledger h := by
  induction unheld with
  | empty => exact ⟨_, .empty⟩
  | join _ setup sharing joins ih => exact ih.imp fun _ run => run.join setup sharing joins
  | ask _ step ih => exact ih.imp fun _ run => run.ask step
  | tick _ _ ih =>
    obtain ⟨ledger, run⟩ := ih
    exact ⟨_, run.tick⟩
  | collect _ replies ih => exact ih.imp fun _ run => run.collect replies

theorem session?_of_join {setup : Setup Tree Value} {sharing : Bool}
    (joins : h.addLoader setup sharing = .ok h') {t : Session Tree Value (Listener Value)}
    (ht : h'.session? loader = some t) :
    (∃ ns, t = opened setup ns) ∨ ∃ s, h.session? loader = some s ∧ s.Apart t := by
  obtain ⟨ns, -, hseats⟩ := addLoader_eq joins
  rw [session?, hseats] at ht
  rcases session?_reseat ht with ⟨-, rfl⟩ | ⟨hne, s, hs, hout⟩
  · exact .inl ⟨ns, rfl⟩
  · obtain ⟨seat, hseat, rfl⟩ := Option.map_eq_some_iff.mp hs
    have hlt : loader < h.seats.length := by
      have := (List.getElem?_eq_some_iff.mp hseat).1
      simp only [List.length_append, List.length_singleton] at this
      omega
    rw [List.getElem?_append_left hlt] at hseat
    exact .inr ⟨seat.session, session?_eq hseat, hout.apart⟩

end Host

theorem Session.AtRest.traceable_alters {s t : Session Tree Value (Listener Value)}
    (rest : s.AtRest) (h : s.cache.Traceable) (locates : s.tools.Locates) (free : s.held = false)
    {sharing : Bool} {defined : List (Deed Value)} (halters : s.Alters sharing defined t) :
    t.cache.Traceable := by
  cases halters with
  | act step => exact rest.traceable_advance h locates free step.advance
  | listen unit unsettled listener =>
    exact h.modify (f := fun u => { u with listeners := u.listeners ++ [listener] }) fun _ _ => rfl
  | define name value => exact h
  | beside change => rwa [change.apart.cache]
  | shared shares ns held => exact h

namespace Host

variable {h : Host Tree Value} {loader : Nat}

/-- What is kept as long as nobody else reads the namespace holds of a loader that is only
called then. -/
theorem Unheld.holds {P : Session Tree Value (Listener Value) → Prop} (unheld : Unheld loader h)
    (start : ∀ setup ns, P (opened setup ns)) (apart : ∀ s t, P s → s.Apart t → P t)
    (alters : ∀ s t sharing defined, s.AtRest → s.held = false → P s →
      Session.Alters sharing s defined t → P t)
    {s : Session Tree Value (Listener Value)} (hs : h.session? loader = some s) : P s := by
  induction unheld generalizing s with
  | empty => cases hs
  | join before setup sharing joins ih =>
    rcases session?_of_join joins hs with ⟨ns, rfl⟩ | ⟨u, hu, hsu⟩
    · exact start setup ns
    · exact apart u s (ih hu) hsu
  | ask before step ih => exact ih hs
  | @tick h before free ih =>
    cases hc : h.calls loader with
    | false =>
      obtain ⟨u, hu, hsu⟩ := spares_tick hc s hs
      exact apart u s (ih hu) hsu
    | true =>
      obtain ⟨ledger, run⟩ := before.run
      obtain ⟨seat', hseat', rfl⟩ := seat_of_session? hs
      have halters := h.alters_tick
      obtain ⟨seat, hseat⟩ : ∃ seat, h.seats[loader]? = some seat := by
        refine ⟨_, List.getElem?_eq_getElem ?_⟩
        rw [← halters.length]
        exact (List.getElem?_eq_some_iff.mp hseat').1
      have hsession := session?_eq hseat
      obtain ⟨seat'', hseat'', -, hchange⟩ := halters.seat loader seat hseat
      obtain rfl := Option.some.inj (hseat'.symm.trans hseat'')
      exact alters _ _ _ _ (run.orderly.rest loader _ hsession) (free hc _ hsession) (ih hsession)
        hchange
  | collect before replies ih => exact ih hs

theorem Unheld.traceable (unheld : Unheld loader h) {s : Session Tree Value (Listener Value)}
    (hs : h.session? loader = some s) (locates : s.tools.Locates) : s.cache.Traceable := by
  refine unheld.holds (P := fun s => s.tools.Locates → s.cache.Traceable) ?_ ?_ ?_ hs locates
  · exact fun setup ns _ id x hx => nomatch hx
  · intro s t ih happart locates
    rw [happart.cache]
    exact ih (happart.tools ▸ locates)
  · intro s t sharing defined rest free ih halters locates
    have hlocates : s.tools.Locates :=
      (lasting_tools s.tools).alters rest rfl halters ▸ locates
    exact rest.traceable_alters (ih hlocates) hlocates free halters

/-- A unit of a plain-language loader has an error when it failed and only then, under its
own address; and if it was aborted, the cause is the very error of a unit that failed by
itself. -/
theorem Unheld.traces [Text.Xid] {h : Host Program UnitLoader.Value} (unheld : Unheld loader h)
    {s : Session Program UnitLoader.Value (Listener UnitLoader.Value)}
    (hs : h.session? loader = some s) (plain : s.tools = Lang.toolchain) {id : UnitId}
    {u : SourceUnit Program UnitLoader.Value (Listener UnitLoader.Value)}
    (hu : s.cache.get? id = some u) :
    (u.error.isSome = true ↔ u.state = .error) ∧
      (∀ e, u.error = some e → e.address = u.address) ∧
      ∀ address cause, u.error = some (.aborted address cause) →
        cause.isAborted = false ∧ ∃ culprit v, s.cache.get? culprit = some v ∧
          v.error = some cause ∧ v.address = cause.address := by
  have htraceable := unheld.traceable hs (plain ▸ Lang.locates_toolchain)
  obtain ⟨hfailed, hown, hcause⟩ := htraceable id _ (Cache.standing?_eq hu)
  refine ⟨?_, hown, fun address cause he => ?_⟩
  · have hiff : u.error.isSome = decide (u.state = .error) := hfailed
    simp [hiff]
  · obtain ⟨hroot, culprit, y, hy, hye⟩ := hcause address cause he
    obtain ⟨v, hv, rfl⟩ := Option.map_eq_some_iff.mp hy
    exact ⟨hroot, culprit, v, hv, hye, ((htraceable culprit _ hy).own cause hye).symm⟩

def unexportedName : Setup Program UnitLoader.Value :=
  .plain Lang.toolchain .default (.ofList
    [("/main", .ok "import x from \"/a\"\nx"), ("/a", .ok "export y = 1")] false)

/-- A module that was aborted because the script that imports it failed in analysis. -/
theorem Unheld.traces_unexportedName :
    ∃ (s : Session Program UnitLoader.Value (Listener UnitLoader.Value))
      (u v : SourceUnit Program UnitLoader.Value (Listener UnitLoader.Value))
      (cause : LoadError) (culprit : UnitId),
      s.cache.get? ⟨1⟩ = some u ∧ u.error = some (.aborted "/a" cause) ∧
        s.cache.get? culprit = some v ∧ v.error = some cause ∧ v.address = "/main" := by
  have joined := (Unheld.empty : Unheld 0 (.ofSeats [])).join unexportedName false rfl
  have unheld := (joined.ask (.request 0 (.loadSync "/main" .script))).tick fun _ s hs => by
    rw [← Option.some.inj hs]
    rfl
  obtain ⟨s, hs⟩ : ∃ s, ((opened unexportedName .empty).loadSync "/main" .script).session = s :=
    ⟨_, rfl⟩
  have hplain : s.tools = Lang.toolchain := by
    rw [← hs]
    exact (lasting_tools Lang.toolchain).advance (Session.atRest_fresh ..) rfl (.loadSync _ _ _)
  have hunit : (s.cache.get? ⟨1⟩).bind (·.error) =
      some (.aborted "/a" (.analysis "/main"
        "module '/a' has no export 'x' (available: y)")) := by
    rw [← hs]
    decide +kernel
  obtain ⟨u, hu, he⟩ := Option.bind_eq_some_iff.mp hunit
  obtain ⟨-, -, hcause⟩ := Unheld.traces unheld
    (show Host.session? _ 0 = some s by rw [← hs]; rfl) hplain hu
  obtain ⟨-, culprit, v, hv, hve, ha⟩ := hcause _ _ he
  exact ⟨s, u, v, _, culprit, hu, he, hv, hve, ha⟩

end Host

end UnitLoader
