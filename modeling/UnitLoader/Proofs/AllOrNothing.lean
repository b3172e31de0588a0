import UnitLoader.Lang.Toolchain
import UnitLoader.Proofs.Orderly
import UnitLoader.Text.Unicode

/-! A batch comes to one end. The units that were parsed when the barrier opened are all
complete at the end of the step, or they have all failed; and a step that fails a unit
leaves nothing open in the whole cache. -/

namespace UnitLoader

variable {Tree Value : Type}

namespace Session

variable {Listener : Type} {s t : Session Tree Value Listener}

/-- The units that wait at the barrier. -/
def batch (s : Session Tree Value Listener) : List UnitId :=
  s.cache.ids.filter (s.cache.isIn .parsed)

/-- On the way of a step the barrier opens for a session in between. -/
def Opens (s t m : Session Tree Value Listener) : Prop :=
  ∃ registered sync first last ahead, Steps s t registered sync first last ∧
    Moves first ⟨m, ahead, .nothing⟩ ∧ m.barrierReached = true ∧
    Moves ⟨m.checkBarrier, ahead, .nothing⟩ ⟨last, [], .nothing⟩

/-- What a step from one session to another holds to. A barrier that opens is known by
the analysis of its batch. -/
structure AllOrNothing (s t : Session Tree Value Listener) : Prop where
  batch : ∃ events, t.history = s.history ++ events ∧
    (∀ m, Opens s t m → .analyzed m.batch (m.batch.map m.cache.addressOf) ∈ events) ∧
    ∀ ids addresses, .analyzed ids addresses ∈ events →
      (∀ id ∈ ids, t.cache.isIn .complete id = true) ∨
        ((∀ id ∈ ids, t.cache.isIn .error id = true) ∧
          ∀ n ∈ t.outbox, n.unit ∈ ids → ∃ error, n.outcome = .failed error)
  failure : ∀ id, t.cache.isIn .error id = true → s.cache.isIn .error id = false →
    (∀ j v, t.cache.get? j = some v → v.state.isSettled = true) ∧ t.pending = []
  kept : ∀ id u, s.cache.get? id = some u → u.state = .complete → t.cache.get? id = some u

/-! ### The batch in the history -/

theorem Ready.targets_eq (h : s.Ready) :
    (Build.targets s.cache).map (fun t => (t.1, t.2.address)) =
      s.batch.map fun id => (id, s.cache.addressOf id) := by
  simp only [Build.targets, batch]
  induction s.cache.ids with
  | nil => rfl
  | cons id ids ih =>
    cases hp : s.cache.isIn .parsed id with
    | true =>
      obtain ⟨u, hu, hs⟩ := Cache.isIn_iff.mp hp
      obtain ⟨tree, ht⟩ := Option.isSome_iff_exists.mp (h.tree id u hu hs)
      have htarget : Build.target? s.cache id = some (id, ⟨u.address, u.kind, tree⟩) := by
        simp [Build.target?, hu, hs, ht]
      rw [List.filterMap_cons_some htarget, List.filter_cons_of_pos hp, List.map_cons, ih,
        List.map_cons]
      simp [Cache.addressOf, hu]
    | false =>
      have htarget : Build.target? s.cache id = none := by
        simp only [Build.target?]
        cases hu : s.cache.get? id with
        | none => rfl
        | some u =>
          have hs : u.state ≠ .parsed := by simpa [Cache.isIn_eq hu] using hp
          simp [hs]
      rw [List.filterMap_cons_none htarget, List.filter_cons_of_neg (by simp [hp]), ih]

theorem Ready.analyzedEvent_eq (h : s.Ready) :
    s.analyzedEvent = .analyzed s.batch (s.batch.map s.cache.addressOf) := by
  have hpairs := h.targets_eq
  have hids := congrArg (List.map Prod.fst) hpairs
  have haddresses := congrArg (List.map Prod.snd) hpairs
  simp only [List.map_map, Function.comp_def, List.map_id'] at hids haddresses
  rw [analyzedEvent, hids, haddresses]

theorem Ready.history_checkBarrier (h : s.Ready) (hb : s.barrierReached = true) :
    ∃ rest, s.checkBarrier.history =
      s.history ++ .analyzed s.batch (s.batch.map s.cache.addressOf) :: rest := by
  by_cases hp : s.Passes
  · exact ⟨_, h.analyzedEvent_eq ▸ (h.completes hb hp).history⟩
  · obtain ⟨rest, hh, -⟩ := (h.falls hb hp).history
    exact ⟨rest, h.analyzedEvent_eq ▸ hh⟩

/-! ### Steps -/

/-- Preparing a step settles no unit and changes none that is settled. -/
structure Prepares (s t : Session Tree Value Listener) : Prop where
  settled : ∀ id u, s.cache.get? id = some u → u.state.isSettled = true →
    t.cache.get? id = some u
  unsettled : ∀ id, t.cache.isIn .error id = true → s.cache.isIn .error id = true
  history : t.history = s.history

theorem Prepares.trans {m : Session Tree Value Listener} (h : Prepares s m) (h' : Prepares m t) :
    Prepares s t where
  settled := fun id u hu hs => h'.settled id u (h.settled id u hu hs) hs
  unsettled := fun id he => h.unsettled id (h'.unsettled id he)
  history := h'.history.trans h.history

theorem prepares_push {w : SourceUnit Tree Value Listener} (cache : t.cache = s.cache.push w)
    (new : w.state ≠ .error) (history : t.history = s.history) : Prepares s t where
  settled := fun id u hu _ => by rw [cache, Cache.get?_push_of_get? hu]
  unsettled := by
    intro id he
    obtain ⟨v, hv, hs⟩ := Cache.isIn_iff.mp he
    rw [cache, Cache.get?_push] at hv
    split at hv
    · obtain rfl := Option.some.inj hv
      exact absurd hs new
    · exact Cache.isIn_iff.mpr ⟨v, hv, hs⟩
  history := history

theorem prepares_find (s : Session Tree Value Listener) (address : String) (kind : Kind) :
    Prepares s (s.find address kind).session := by
  rcases s.find_cases address kind with ⟨-, -, hunits⟩ | ⟨-, hcache⟩
  · have hget (id : UnitId) : (s.find address kind).session.cache.get? id = s.cache.get? id := by
      rw [Cache.get?, hunits]
      rfl
    refine ⟨fun id u hu _ => by rw [hget, hu], fun id he => ?_, rfl⟩
    rwa [Cache.isIn, Cache.state?, hget] at he
  · exact prepares_push hcache (by simp [SourceUnit.new, Origin.initialState]) rfl

theorem prepares_modify {id : UnitId}
    {f : SourceUnit Tree Value Listener → SourceUnit Tree Value Listener}
    (unsettled : ∀ u, s.cache.get? id = some u → u.state.isSettled = false)
    (state : ∀ u, (f u).state = u.state) : Prepares s (s.modifyUnit id f) where
  settled := by
    intro j u hu hs
    simp only [modifyUnit, onBuild, Build.modify]
    rw [Cache.get?_modify_of_ne, hu]
    rintro rfl
    simp [unsettled u hu] at hs
  unsettled := by
    intro j he
    obtain ⟨v, hv, hs⟩ := Cache.isIn_iff.mp he
    simp only [modifyUnit, onBuild, Build.modify, Cache.get?_modify] at hv
    split at hv
    · obtain ⟨u, hu, rfl⟩ := Option.map_eq_some_iff.mp hv
      exact Cache.isIn_iff.mpr ⟨u, hu, (state u).symm.trans hs⟩
    · exact Cache.isIn_iff.mpr ⟨v, hv, hs⟩
  history := rfl

theorem prepares_evaluating (s : Session Tree Value Listener) (code : String)
    (listener : Option Listener) : Prepares s (s.evaluating code listener) := by
  have hpush : Prepares s { s with cache := (s.cache.insertEval s.baseAddress .script).cache } :=
    prepares_push rfl (by simp [SourceUnit.new, Origin.initialState]) rfl
  refine hpush.trans (prepares_modify (fun u hu => ?_) fun _ => rfl)
  simp only [Cache.insertEval, Cache.get?_push, if_pos, Option.some.injEq] at hu
  obtain rfl := hu
  rfl

theorem Enters.prepares {registered : List (UnitId × Listener)} {m : Moment Tree Value Listener}
    (h : Enters s registered m) : Prepares s m.session := by
  cases h with
  | find address kind => exact prepares_find s address kind
  | subscribe address kind unit unsettled listener =>
    refine (prepares_find s address kind).trans (prepares_modify (fun v hv => ?_) fun _ => rfl)
    rwa [← Option.some.inj (unit.symm.trans hv)]
  | evaluate code listener => exact prepares_evaluating s code listener
  | receive => exact ⟨fun _ _ hu _ => hu, fun _ he => he, rfl⟩

/-- The step notes down the analysis of every batch that the barrier opens for. -/
theorem AtRest.analyzed_of_opens (h : s.AtRest) {m : Session Tree Value Listener}
    (ho : Opens s t m) {events : List (Event Value)} (history : t.history = s.history ++ events) :
    .analyzed m.batch (m.batch.map m.cache.addressOf) ∈ events := by
  obtain ⟨registered, sync, first, last, ahead, hsteps, hbefore, hb, hafter⟩ := ho
  have hfirst := hsteps.enters.sound (h.withSync sync)
  have hsound := Moves.sound hbefore hfirst
  obtain ⟨before, hm, -⟩ := (Moves.develops hbefore hfirst).history
  obtain ⟨rest, hc⟩ := (hsound.ready hb).history_checkBarrier hb
  obtain ⟨after, hl, -⟩ := (Moves.develops hafter ((Move.pass hb).sound hsound)).history
  have hprepared : first.session.history = s.history := hsteps.enters.prepares.history
  have hlast : t.history = last.history := by rw [hsteps.leaves]
  have heq : s.history ++ events =
      s.history ++ (before ++ .analyzed m.batch (m.batch.map m.cache.addressOf) :: (rest ++ after)) := by
    rw [← history, hlast, hl, hc, hm, hprepared]
    simp
  rw [List.append_cancel_left heq]
  simp

theorem AtRest.allOrNothing (h : s.AtRest) (ha : Advance s t) : AllOrNothing s t := by
  obtain ⟨registered, sync, m, last, hsteps⟩ := h.steps ha
  have hprepares := hsteps.enters.prepares
  have hdevelops := Moves.develops hsteps.moves (hsteps.enters.sound (h.withSync sync))
  have hr := h.advance ha
  obtain rfl := hsteps.leaves
  obtain ⟨events, he, hend⟩ := hdevelops.history
  rw [hprepares.history] at he
  refine ⟨⟨events, he, fun m ho => h.analyzed_of_opens ho he, fun ids addresses hm => ?_⟩,
    fun id ht hs => ?_, fun id u hu hc => ?_⟩
  · refine (hend ids addresses hm).imp_right fun herror => ⟨herror, fun n hn hid => ?_⟩
    cases ho : n.outcome with
    | failed error => exact ⟨error, rfl⟩
    | complete value =>
      obtain ⟨u, hu, hc, -⟩ := ho ▸ hr.sound.outbox n hn
      obtain ⟨v, hv, hve⟩ := Cache.isIn_iff.mp (herror n.unit hid)
      obtain rfl := Option.some.inj (hu.symm.trans hv)
      cases hc.symm.trans hve
  · obtain ⟨v, hv, hve⟩ := Cache.isIn_iff.mp ht
    rcases hdevelops.failure id v hv hve with ⟨u, hu, hue⟩ | hcalm
    · have hold := hprepares.unsettled id (Cache.isIn_iff.mpr ⟨u, hu, hue⟩)
      exact absurd (hold.symm.trans hs) (by simp)
    · exact ⟨hcalm.settled, hcalm.pending⟩
  · have hset : u.state.isSettled = true := by rw [hc]; rfl
    obtain ⟨v, hv, huv⟩ := hdevelops.unit id u (hprepares.settled id u hu hset)
    rwa [huv.settled hset] at hv

end Session

namespace Host

/-- Every step of every session in a run is all or nothing. -/
theorem Run.step_allOrNothing {ledger : List Registration} {h : Host Tree Value} (run : Run ledger h)
    (loader : Nat) {s t : Session Tree Value (Listener Value)}
    (hs : h.session? loader = some s) (step : Session.Advance s t) : Session.AllOrNothing s t :=
  (run.orderly.rest loader s hs).allOrNothing step

/-- A loader with a module that needs nothing, one that imports from another, and one that
throws. -/
def gathering : Setup Program UnitLoader.Value :=
  .plain Lang.toolchain .default (.ofList [("/done", .ok "1"),
    ("/a", .ok "import y from \"/b\"\ny"), ("/b", .ok "export y = 1"),
    ("/c", .ok "throw \"no\"")] false)

/-- One module is complete, the second waits at the barrier, and the others are on their way. -/
def gatheringHost : Host Program UnitLoader.Value :=
  (((ofSeats []).addLoader gathering false).toOption.get rfl).takeAll 9
    [.request 0 (.load "/done" .module), .supply 0 (.release "/done"), .request 0 .poll,
      .request 0 (.load "/a" .module), .supply 0 (.release "/a"), .request 0 .poll,
      .request 0 (.load "/c" .module)]

/-- The import of the second one has arrived as well. -/
def gatheredHost : Host Program UnitLoader.Value :=
  gatheringHost.takeAll 9 [.supply 0 (.release "/b"), .request 0 .poll]

theorem run_gathering : ∃ ledger, Run ledger gatheringHost :=
  (Run.empty.join gathering false rfl).takeAll 9 _

/-- The import fails while another module is on its way, or it arrives and the other module
throws. Either way all fail but the one that was complete. -/
theorem Run.step_allOrNothing_failure :
    ∃ s t s' t' : Session Program UnitLoader.Value (Listener UnitLoader.Value),
      (gatheringHost.session? 0 = some s ∧ s.Advance t ∧
        s.cache.units.map (·.state) = [.complete, .parsed, .loading, .loading] ∧
        t.cache.units.map (·.state) = [.complete, .error, .error, .error] ∧
        Session.AllOrNothing s t) ∧
      gatheredHost.session? 0 = some s' ∧ s'.Advance t' ∧
        s'.cache.units.map (·.state) = [.complete, .parsed, .parsed, .loading] ∧
        t'.history.any (· matches .analyzed [⟨1⟩, ⟨2⟩, ⟨3⟩] _) = true ∧
        t'.cache.units.map (·.state) = [.complete, .error, .error, .error] ∧
        Session.AllOrNothing s' t' := by
  obtain ⟨ledger, run⟩ := run_gathering
  obtain ⟨more, run'⟩ := run.takeAll 9 [.supply 0 (.release "/b"), .request 0 .poll]
  have hfails : (gatheringHost.session? 0).map (fun s => (s.cache.units.map (·.state),
      (s.complete ⟨⟨2⟩, "/b", .error (.notFound "/b")⟩).cache.units.map (·.state))) =
        some ([.complete, .parsed, .loading, .loading], [.complete, .error, .error, .error]) := by
    decide +kernel
  have hthrows : (gatheredHost.session? 0).map (fun s => (s.cache.units.map (·.state),
      (s.complete ⟨⟨3⟩, "/c", .ok "throw \"no\""⟩).history.any
        (· matches .analyzed [⟨1⟩, ⟨2⟩, ⟨3⟩] _),
      (s.complete ⟨⟨3⟩, "/c", .ok "throw \"no\""⟩).cache.units.map (·.state))) =
        some ([.complete, .parsed, .parsed, .loading], true,
          [.complete, .error, .error, .error]) := by
    decide +kernel
  obtain ⟨s, hs, he⟩ := Option.map_eq_some_iff.mp hfails
  obtain ⟨s', hs', he'⟩ := Option.map_eq_some_iff.mp hthrows
  simp only [Prod.mk.injEq] at he he'
  refine ⟨s, _, s', _, ⟨hs, .complete s ⟨⟨2⟩, "/b", .error (.notFound "/b")⟩, he.1, he.2, ?_⟩,
    hs', .complete s' ⟨⟨3⟩, "/c", .ok "throw \"no\""⟩, he'.1, he'.2.1, he'.2.2, ?_⟩
  · exact Run.step_allOrNothing run 0 hs (.complete s _)
  · exact Run.step_allOrNothing run' 0 hs' (.complete s' _)

end Host

end UnitLoader
