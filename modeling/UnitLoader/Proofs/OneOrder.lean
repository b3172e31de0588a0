import UnitLoader.Proofs.Once
import UnitLoader.Proofs.Visiting
import UnitLoader.Text.Unicode

/-! A batch is transformed in the order in which it is executed. Transforming visits the
parsed units only, and executing walks through all units of the cache; since no settled unit
imports one of the batch, both come upon the batch in the same order. -/

namespace UnitLoader

variable {Tree Value : Type}

namespace Event

/-- The unit that is transformed. -/
def transformed? : Event Value → Option UnitId
  | transformed id _ _ => some id
  | _ => none

/-- The unit that is executed. -/
def executed? : Event Value → Option UnitId
  | executed id _ _ => some id
  | _ => none

theorem executed?_eq (e : Event Value) : e.executed? = e.deed?.bind Deed.unit? := by
  cases e <;> rfl

end Event

namespace Session

variable {Listener : Type} {s t m : Session Tree Value Listener}

/-- The units that wait at the barrier, as a walk through the whole cache comes upon them. -/
def batchOrder (s : Session Tree Value Listener) : List UnitId :=
  s.cache.evaluationOrder.filter (s.cache.isIn .parsed)

/-- What a batch has written down of its transforms and executions. Whatever was transformed
was transformed in the order of the batch, and executed in that order until something failed. -/
structure InOneOrder (s : Session Tree Value Listener) (written : List (Event Value)) : Prop where
  transformed : (∀ d ∈ s.analysis.diagnostics, d.isError = false) →
    written.filterMap Event.transformed? = s.batchOrder
  executed : written.filterMap Event.executed? <+: written.filterMap Event.transformed?
  through : s.Passes → written.filterMap Event.executed? = s.batchOrder

theorem Ready.transformOrder_eq (h : s.Ready) (grounded : s.Grounded) :
    Build.transformOrder s.cache s.cache.ids = s.batchOrder := by
  refine Build.transformOrder_ids_eq fun id hid d hd => ?_
  cases hu : s.cache.get? id with
  | none => simp [Cache.dependencyIds, hu] at hd
  | some u =>
    -- a unit that is not of the batch has settled, and so have its imports
    have hsettled : u.state.isSettled = true :=
      (h.state id u hu).resolve_left (by simpa [Cache.isIn_eq hu] using hid)
    obtain ⟨v, hv, hvs⟩ := grounded.settled id u hu hsettled d (Cache.dependencyIds_eq hu ▸ hd)
    refine Cache.isIn_eq_false_of_settled rfl fun w hw => ?_
    rwa [← Option.some.inj (hv.symm.trans hw)]

theorem Ready.transformed_lowered (h : s.Ready) :
    s.loweredEvents.filterMap Event.transformed? = Build.transformOrder s.cache s.cache.ids := by
  rw [← h.map_fst_lowerings, loweredEvents, List.filterMap_map, ← List.filterMap_eq_map]
  rfl

theorem executed_lowered (s : Session Tree Value Listener) :
    s.loweredEvents.filterMap Event.executed? = [] :=
  List.filterMap_eq_nil_iff.mpr fun e he => by
    obtain ⟨t, -, rfl⟩ := List.mem_map.mp he
    rfl

theorem transformed_batchRun (s : Session Tree Value Listener) :
    s.batchRun.events.filterMap Event.transformed? = [] :=
  List.filterMap_eq_nil_iff.mpr fun e he => by
    obtain ⟨id, code, result, rfl⟩ := Toolchain.executed_of_mem_events he
    rfl

theorem executed_batchRun (s : Session Tree Value Listener) :
    s.batchRun.events.filterMap Event.executed? = unitsOf s.batchRun.deeds := by
  rw [unitsOf, Ran.deeds, List.filterMap_filterMap]
  exact List.filterMap_congr fun e _ => e.executed?_eq

theorem Writes.inOneOrder {written : List (Event Value)} (h : s.Writes written) (ready : s.Ready)
    (grounded : s.Grounded) : s.InOneOrder written := by
  have horder := ready.transformOrder_eq grounded
  cases h with
  | analysed errors =>
    have hnot : ¬ ∀ d ∈ s.analysis.diagnostics, d.isError = false := fun hall =>
      errors (List.filter_eq_nil_iff.mpr fun d hd => by simp [hall d hd])
    exact ⟨fun hall => absurd hall hnot, List.nil_prefix, fun hp => absurd hp.analysis hnot⟩
  | lowered stopped =>
    have htransformed : (s.analyzedEvent :: s.loweredEvents).filterMap Event.transformed? =
        s.batchOrder := by
      rw [List.filterMap_cons_none rfl, ready.transformed_lowered, horder]
    have hexecuted : (s.analyzedEvent :: s.loweredEvents).filterMap Event.executed? = [] := by
      rw [List.filterMap_cons_none rfl, executed_lowered]
    refine ⟨fun _ => htransformed, hexecuted ▸ List.nil_prefix, fun hp => ?_⟩
    rcases stopped with herrors | hheld
    · refine absurd (List.filter_eq_nil_iff.mpr fun d hd => ?_) herrors
      obtain ⟨target, ht, hd⟩ := List.mem_flatMap.mp hd
      simp [hp.transform target ht d hd]
    · cases hheld.symm.trans hp.free
  | executed executes =>
    have htransformed : (s.analyzedEvent :: (s.loweredEvents ++ s.batchRun.events)).filterMap
        Event.transformed? = s.batchOrder := by
      rw [List.filterMap_cons_none rfl, List.filterMap_append, transformed_batchRun,
        List.append_nil, ready.transformed_lowered, horder]
    have hexecuted : (s.analyzedEvent :: (s.loweredEvents ++ s.batchRun.events)).filterMap
        Event.executed? = unitsOf s.batchRun.deeds := by
      rw [List.filterMap_cons_none rfl, List.filterMap_append, executed_lowered,
        List.nil_append, executed_batchRun]
    have hprefix : unitsOf s.batchRun.deeds <+: s.codes.map (·.1) :=
      s.tools.unitsOf_deeds_prefix s.ns s.codes
    rw [ready.map_fst_codes] at hprefix
    refine ⟨fun _ => htransformed, ?_, fun hp => ?_⟩
    · rw [hexecuted, htransformed]
      exact hprefix
    · have hall : unitsOf s.batchRun.deeds = s.codes.map (·.1) :=
        Toolchain.unitsOf_deeds_of_passed hp.run
      rw [hexecuted, hall, ready.map_fst_codes]
      rfl

/-- What the barrier writes down when it opens, and that the step goes on from there. -/
theorem Opens.writes (h : s.AtRest) (ho : Opens s t m) : ∃ written later,
    m.checkBarrier.history = m.history ++ written ∧
      t.history = m.checkBarrier.history ++ later ∧ m.Ready ∧ m.Writes written := by
  obtain ⟨registered, sync, first, last, ahead, hsteps, hbefore, hb, hafter⟩ := ho
  have hsound := Moves.sound hbefore (hsteps.enters.sound (h.withSync sync))
  have hready := hsound.ready hb
  obtain ⟨written, hwrites, hcalls⟩ := hready.writes hb
  obtain ⟨later, hlater, -⟩ := (Moves.develops hafter ((Move.pass hb).sound hsound)).history
  refine ⟨written, later, ?_, by rw [hsteps.leaves]; exact hlater, hready, hwrites⟩
  rw [hcalls.history, cancellations, hready.pending, List.map_nil, List.append_nil]

end Session

open Session

/-- What holds throughout holds whenever the barrier opens. -/
theorem Throughout.opens {P : Moment Tree Value (Listener Value) → Prop} (h : Throughout P)
    {s t m : Session Tree Value (Listener Value)} (rest : s.AtRest) (hs : P ⟨s, [], .nothing⟩)
    (ho : Opens s t m) : ∃ ahead, P ⟨m, ahead, .nothing⟩ := by
  obtain ⟨registered, sync, first, last, ahead, hsteps, hbefore, -⟩ := ho
  have hsync : P ⟨{ s with sync := sync }, [], .nothing⟩ := h.apart s _ hs rfl
  have hfirst : P first := h.enters _ _ _ (rest.withSync sync) hsync hsteps.enters
  exact ⟨ahead, h.run_moves (hsteps.enters.sound (rest.withSync sync)) hfirst hbefore⟩

namespace Host

variable {ledger : List Registration} {h : Host Tree Value} {loader : Nat}
  {s t : Session Tree Value (Listener Value)}

/-- Each batch of every session in every run is transformed in the order in which a walk
through the whole cache comes upon it, unless its analysis finds an error, and it is executed
in that order too: until one of its units fails, or all of it. -/
theorem Run.one_order (run : Run ledger h) (hs : h.session? loader = some s)
    (ht : h.tick.session? loader = some t) : ∃ events, t.history = s.history ++ events ∧
      ∀ before ids addresses after, events = before ++ .analyzed ids addresses :: after →
        ∃ m written later, Opens s t m ∧ m.history = s.history ++ before ∧
          .analyzed ids addresses :: after = written ++ later ∧
          m.checkBarrier.history = m.history ++ written ∧ m.InOneOrder written := by
  have hrest := run.orderly.rest loader s hs
  obtain ⟨seat, hseat, rfl⟩ := seat_of_session? hs
  obtain ⟨seat', hseat', -, halters⟩ := h.alters_tick.seat loader seat hseat
  obtain rfl := Option.some.inj ((session?_eq hseat').symm.trans ht)
  obtain ⟨events, hhistory, hopens⟩ := halters.opens hrest
  refine ⟨events, hhistory, fun before ids addresses after hsplit => ?_⟩
  obtain ⟨m, ho, hm, -⟩ := hopens before ids addresses after hsplit
  obtain ⟨written, later, hwritten, hlater, hready, hwrites⟩ := ho.writes hrest
  obtain ⟨ahead, hfounded⟩ := throughout_founded.opens hrest (run.founded hs) ho
  refine ⟨m, written, later, ho, hm, ?_, hwritten,
    hwrites.inOneOrder hready hfounded.toGrounded⟩
  have hboth : seat.session.history ++ (before ++ .analyzed ids addresses :: after) =
      seat.session.history ++ (before ++ (written ++ later)) := by
    rw [← hsplit, ← hhistory, hlater, hwritten, hm]
    simp only [List.append_assoc]
  exact List.append_cancel_left (List.append_cancel_left hboth)

def twoScripts : Setup Program UnitLoader.Value :=
  .plain Lang.toolchain .default (.ofList
    [("/main", .ok "import x from \"/a\"\nx"), ("/a", .ok "export x = 1"),
      ("/more", .ok "import y from \"/b\"\ny"), ("/b", .ok "import \"/c\"\nexport y = 2"),
      ("/c", .ok "import \"/b\"\nexport z = 3")] false)

/-- A second batch with two modules that import each other, on top of a first one. -/
theorem Run.one_order_scripts :
    ∃ s t m : Session Program UnitLoader.Value (Listener UnitLoader.Value), ∃ written later,
      s.cache.isIn .complete ⟨1⟩ = true ∧ Opens s t m ∧
      m.checkBarrier.history = m.history ++ written ∧ m.InOneOrder written ∧
      t.history = m.history ++ (written ++ later) ∧
      t.history.filterMap Event.transformed? = [⟨1⟩, ⟨0⟩, ⟨4⟩, ⟨3⟩, ⟨2⟩] ∧
      t.history.filterMap Event.executed? = [⟨1⟩, ⟨0⟩, ⟨4⟩, ⟨3⟩, ⟨2⟩] := by
  have joined := Run.empty.join twoScripts false rfl
  have run := (joined.ask (.request 0 (.loadSync "/main" .script))).tick.ask
    (.request 0 (.loadSync "/more" .script))
  obtain ⟨s, hs⟩ : ∃ s, ((opened twoScripts .empty).loadSync "/main" .script).session = s :=
    ⟨_, rfl⟩
  obtain ⟨t, ht⟩ : ∃ t, (s.loadSync "/more" .script).session = t := ⟨_, rfl⟩
  obtain ⟨events, hhistory, hpasses⟩ := Run.one_order run
    (show Host.session? _ 0 = some s by rw [← hs]; rfl)
    (show Host.session? _ 0 = some t by rw [← ht, ← hs]; rfl)
  have hcomplete : s.cache.isIn .complete ⟨1⟩ = true := by
    rw [← hs]
    decide +kernel
  obtain ⟨hanalysed, hunits⟩ : (t.history.drop s.history.length).any Event.isAnalysis = true ∧
      t.history.filterMap Event.transformed? = [⟨1⟩, ⟨0⟩, ⟨4⟩, ⟨3⟩, ⟨2⟩] ∧
      t.history.filterMap Event.executed? = [⟨1⟩, ⟨0⟩, ⟨4⟩, ⟨3⟩, ⟨2⟩] := by
    rw [← ht, ← hs]
    decide +kernel
  rw [hhistory, List.drop_left] at hanalysed
  obtain ⟨e, he, hanalysis⟩ := List.any_eq_true.mp hanalysed
  cases e <;> simp only [Event.isAnalysis, Bool.false_eq_true] at hanalysis
  obtain ⟨before, after, hsplit⟩ := List.append_of_mem he
  obtain ⟨m, written, later, ho, hm, hafter, hwritten, horder⟩ := hpasses _ _ _ _ hsplit
  refine ⟨s, t, m, written, later, hcomplete, ho, hwritten, horder, ?_, hunits⟩
  rw [hhistory, hsplit, hm, hafter, List.append_assoc]

end Host

end UnitLoader
