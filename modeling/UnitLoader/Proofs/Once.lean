import UnitLoader.Proofs.Tallies

/-! No unit is taken through a stage twice, and what is analysed is the whole batch that has
gathered. -/

namespace UnitLoader

variable {Tree Value : Type}

open Session Moment

variable {Listener : Type}

namespace Session

variable {s t : Session Tree Value Listener}

theorem Writes.analyzed {events : List (Event Value)} (h : s.Writes events) :
    ∃ rest, events = s.analyzedEvent :: rest ∧ ∀ e ∈ rest, e.isAnalysis = false := by
  cases h with
  | analysed => exact ⟨[], rfl, by simp⟩
  | lowered => exact ⟨_, rfl, s.isAnalysis_transformed⟩
  | executed =>
    refine ⟨_, rfl, fun e he => ?_⟩
    rcases List.mem_append.mp he with he | he
    · exact s.isAnalysis_transformed e he
    · exact isAnalysis_executed he

/-- A batch as it goes to the analysis: the units that are parsed, each with its tree, and
no unit of the cache has less than that behind it. -/
structure Gathers (m : Session Tree Value Listener) (ids : List UnitId) (addresses : List String) :
    Prop where
  units : ids = m.batch
  addresses : addresses = m.batch.map m.cache.addressOf
  targets : (Build.targets m.cache).map (·.1) = ids
  all : ∀ id u, m.cache.get? id = some u → u.state.isPastParsing = true

theorem Ready.gathers (h : s.Ready) {ids : List UnitId} {addresses : List String}
    (he : .analyzed ids addresses = s.analyzedEvent) : s.Gathers ids addresses := by
  obtain ⟨hids, haddresses⟩ := Event.analyzed.inj (he.trans h.analyzedEvent_eq)
  refine ⟨hids, haddresses, (Event.analyzed.inj he).1.symm, fun id u hu => ?_⟩
  rcases h.state id u hu with hs | hs
  · simp [hs, State.isPastParsing, State.rank]
  · cases hstate : u.state <;> simp_all [State.isPastParsing, State.isSettled, State.rank]

end Session

/-- Each analysis among the events of some moves is one for which the barrier opened. -/
theorem Moves.opens {first n : Moment Tree Value Listener} (hmoves : Moves first n)
    (hfirst : first.Sound) : ∃ events, n.session.history = first.session.history ++ events ∧
      ∀ before ids addresses after, events = before ++ .analyzed ids addresses :: after →
        ∃ m ahead, Moves first ⟨m, ahead, .nothing⟩ ∧ m.barrierReached = true ∧
          Moves ⟨m.checkBarrier, ahead, .nothing⟩ n ∧
          m.history = first.session.history ++ before ∧ m.Gathers ids addresses := by
  induction hmoves with
  | refl => exact ⟨[], (List.append_nil _).symm, by simp⟩
  | @tail p n hp hmove ih =>
    obtain ⟨events, hhistory, hopens⟩ := ih
    have hsound := Moves.sound hp hfirst
    obtain ⟨more, hmore, hwrites⟩ := hmove.writes hsound
    refine ⟨events ++ more, by rw [hmore, hhistory, List.append_assoc],
      fun before ids addresses after hsplit => ?_⟩
    rcases append_eq_append_cons hsplit with ⟨rest, hold⟩ | ⟨front, rfl, hnew⟩
    · obtain ⟨m, ahead, hbefore, hreached, hafter, hm⟩ := hopens _ _ _ _ hold
      exact ⟨m, ahead, hbefore, hreached, hafter.tail hmove, hm⟩
    · rcases hwrites with hquiet | ⟨hhand, hreached, rfl, hwrites⟩
      · have := hquiet (.analyzed ids addresses) (by rw [hnew]; simp)
        simp [Event.ofBatch] at this
      · -- the analysis is the first that the batch notes down
        obtain ⟨rest, rfl, hrest⟩ := hwrites.analyzed
        obtain ⟨s, ahead, hand⟩ := p
        obtain rfl : hand = .nothing := hhand
        cases front with
        | nil =>
          obtain ⟨he, -⟩ := List.cons.inj hnew
          refine ⟨s, ahead, hp, hreached, .refl, ?_, (hsound.ready hreached).gathers he.symm⟩
          rw [List.append_nil]
          exact hhistory
        | cons e front =>
          obtain ⟨-, hin⟩ := List.cons.inj hnew
          have := hrest (.analyzed ids addresses) (by rw [hin]; simp)
          simp [Event.isAnalysis] at this

/-- What is analysed in a step. -/
theorem Session.AtRest.opens {s t : Session Tree Value Listener} (h : s.AtRest) (step : Advance s t) :
    ∃ events, t.history = s.history ++ events ∧
      ∀ before ids addresses after, events = before ++ .analyzed ids addresses :: after →
        ∃ m, Opens s t m ∧ m.history = s.history ++ before ∧ m.Gathers ids addresses := by
  obtain ⟨registered, sync, first, last, hsteps⟩ := h.steps step
  obtain ⟨events, hhistory, hopens⟩ :=
    Moves.opens hsteps.moves (hsteps.enters.sound (h.withSync sync))
  have hprepared : first.session.history = s.history := hsteps.enters.prepares.history
  refine ⟨events, ?_, fun before ids addresses after hsplit => ?_⟩
  · rw [hsteps.leaves, ← hprepared]
    exact hhistory
  · obtain ⟨m, ahead, hbefore, hreached, hafter, hm, hgathers⟩ := hopens _ _ _ _ hsplit
    exact ⟨m, ⟨registered, sync, first, last, ahead, hsteps, hbefore, hreached, hafter⟩,
      hprepared ▸ hm, hgathers⟩

theorem Session.Alters.opens {sharing : Bool} {s t : Session Tree Value (UnitLoader.Listener Value)}
    {defined : List (Deed Value)} (h : Session.Alters sharing s defined t) (rest : s.AtRest) :
    ∃ events, t.history = s.history ++ events ∧
      ∀ before ids addresses after, events = before ++ .analyzed ids addresses :: after →
        ∃ m, Opens s t m ∧ m.history = s.history ++ before ∧ m.Gathers ids addresses := by
  cases h with
  | act step => exact rest.opens step.advance
  | beside change =>
    refine ⟨[], ?_, by simp⟩
    rw [change.same, List.append_nil]
  | _ => exact ⟨[], (List.append_nil _).symm, by simp⟩

namespace Host

variable {ledger : List Registration} {h : Host Tree Value} {loader : Nat}
  {s : Session Tree Value (UnitLoader.Listener Value)}

/-- In every session of every run, no unit has been taken through a stage twice, and a unit
that is complete has been through each of them, but for the fetch if it was given its text.
Whatever the next task makes the session analyse is what was parsed at that moment, and all
units were parsed at least. -/
theorem Run.stages_once (run : Run ledger h) (hs : h.session? loader = some s) :
    (∀ stage id, s.times stage id ≤ 1) ∧
    (∀ id u, s.cache.get? id = some u → u.state = .complete →
      ∀ stage, s.times stage id = u.due stage) ∧
    ∀ t, h.tick.session? loader = some t → ∃ events, t.history = s.history ++ events ∧
      ∀ before ids addresses after, events = before ++ .analyzed ids addresses :: after →
        ∃ m, Session.Opens s t m ∧ m.history = s.history ++ before ∧ m.Gathers ids addresses := by
  have htallies : ∀ id, Moment.Tallies ⟨s, [], .nothing⟩ id :=
    throughout_tallies.run (fun setup ns id => by
      have hnone : (opened setup ns).cache.get? id = none := rfl
      exact
        { once := fun _ => Nat.zero_le _
          ahead := fun _ _ => rfl
          behind := fun u hu => by cases hnone.symm.trans hu
          given := fun u hu => by cases hnone.symm.trans hu }) run hs
  have hrest := run.orderly.rest loader s hs
  refine ⟨fun stage id => (htallies id).once stage, fun id u hu hc stage => ?_, fun t ht => ?_⟩
  · refine (htallies id).behind u hu (by simp [hc]) (by simp) stage ?_
    rw [progress_eq hu, hc]
    cases stage <;> simp [Stage.point, State.rank, InHand.unit?]
  · obtain ⟨seat, hseat, rfl⟩ := seat_of_session? hs
    obtain ⟨seat', hseat', -, halters⟩ := h.alters_tick.seat loader seat hseat
    obtain rfl := Option.some.inj ((session?_eq hseat').symm.trans ht)
    exact halters.opens hrest

/-- A module that was asked for again under another spelling of its address. -/
theorem Run.stages_once_respelled :
    ∃ (s : Session Program UnitLoader.Value (UnitLoader.Listener UnitLoader.Value))
      (u : SourceUnit Program UnitLoader.Value (UnitLoader.Listener UnitLoader.Value)),
      s.cache.hits = 1 ∧ s.cache.get? ⟨1⟩ = some u ∧ u.state = .complete ∧
        ∀ stage, s.times stage ⟨1⟩ = 1 := by
  have joined := Run.empty.join importingScript false rfl
  have first := (joined.ask (.request 0 (.loadSync "/main" .script))).tick
  have run := (first.ask (.request 0 (.loadSync "/x/../a" .module))).tick
  obtain ⟨s, hs⟩ : ∃ s, (((opened importingScript .empty).loadSync "/main" .script).session.loadSync
      "/x/../a" .module).session = s := ⟨_, rfl⟩
  obtain ⟨-, hcomplete, -⟩ := Run.stages_once run
    (show Host.session? _ 0 = some s by rw [← hs]; rfl)
  have hhits : s.cache.hits = 1 := by
    rw [← hs]
    decide +kernel
  have hunit : (s.cache.get? ⟨1⟩).map (fun u => (u.state, u.origin)) = some (.complete, .load) := by
    rw [← hs]
    decide +kernel
  obtain ⟨u, hu, he⟩ := Option.map_eq_some_iff.mp hunit
  obtain ⟨hc, ho⟩ := Prod.mk.inj he
  refine ⟨s, u, hhits, hu, hc, fun stage => ?_⟩
  rw [hcomplete ⟨1⟩ u hu hc stage, SourceUnit.due, ho]
  rfl

end Host

end UnitLoader
