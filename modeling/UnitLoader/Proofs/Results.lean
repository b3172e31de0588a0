import UnitLoader.Lang.Toolchain
import UnitLoader.Proofs.Lasting
import UnitLoader.Text.Unicode

/-! The results that units keep. A result is kept from the moment a unit was executed with
a value, also when a later unit of the same batch fails and takes the whole batch with it.
Only then does a unit that is not complete have a result. -/

namespace UnitLoader

variable {Tree Value : Type}

/-- A unit was executed with a value, and after it nothing but units with a value, until
one of its batch failed. -/
def Overrun (deeds : List (Deed Value)) (id : UnitId) (value : Value) : Prop :=
  ∃ before code between failing code' message after,
    deeds = before ++ .executed id code (.ok value) ::
      (between ++ .executed failing code' (.error message) :: after) ∧
    ∀ d ∈ between, ∃ j c v, d = .executed j c (.ok v)

theorem Overrun.append {deeds : List (Deed Value)} {id : UnitId} {value : Value}
    (h : Overrun deeds id value) (more : List (Deed Value)) : Overrun (deeds ++ more) id value := by
  obtain ⟨before, code, between, failing, code', message, after, he, hb⟩ := h
  exact ⟨before, code, between, failing, code', message, after ++ more, by simp [he], hb⟩

theorem Overrun.prepend {deeds : List (Deed Value)} {id : UnitId} {value : Value}
    (h : Overrun deeds id value) (more : List (Deed Value)) : Overrun (more ++ deeds) id value := by
  obtain ⟨before, code, between, failing, code', message, after, he, hb⟩ := h
  exact ⟨more ++ before, code, between, failing, code', message, after, by simp [he], hb⟩

/-! ### One batch -/

namespace Ran

def deeds (ran : Ran Value) : List (Deed Value) :=
  ran.events.filterMap Event.deed?

end Ran

namespace Toolchain

variable {tools : Toolchain Tree Value}

theorem mem_results_iff {ns : Namespace Value} {codes : List (UnitId × String)} {id : UnitId}
    {value : Value} : (id, value) ∈ (tools.runAll ns codes).results ↔
      ∃ code, .executed id code (.ok value) ∈ (tools.runAll ns codes).deeds := by
  induction codes generalizing ns with
  | nil => simp [runAll, Ran.deeds]
  | cons c rest ih =>
    obtain ⟨j, code⟩ := c
    simp only [runAll]
    cases hd : (tools.execute code ns).result with
    | error message => simp [Ran.deeds, Event.deed?]
    | ok v =>
      have hrest := @ih (tools.execute code ns).ns
      simp only [Ran.deeds] at hrest
      simp only [Ran.deeds, List.mem_cons, List.filterMap_cons, Event.deed?, hrest]
      constructor
      · rintro (he | ⟨c, hc⟩)
        · obtain ⟨rfl, rfl⟩ := Prod.mk.inj he
          exact ⟨code, .inl rfl⟩
        · exact ⟨c, .inr hc⟩
      · rintro ⟨c, hc | hc⟩
        · obtain ⟨rfl, -, hv⟩ := Deed.executed.inj hc
          exact .inl (by rw [Except.ok.inj hv])
        · exact .inr ⟨c, hc⟩

theorem deeds_of_failed {ns : Namespace Value} {codes : List (UnitId × String)} {id : UnitId}
    {message : String} (h : (tools.runAll ns codes).failed = some (id, message)) :
    ∃ before code, (tools.runAll ns codes).deeds = before ++ [.executed id code (.error message)] ∧
      ∀ d ∈ before, ∃ j c v, d = .executed j c (.ok v) := by
  induction codes generalizing ns with
  | nil => simp [runAll] at h
  | cons c rest ih =>
    obtain ⟨j, code⟩ := c
    simp only [runAll] at h ⊢
    cases hd : (tools.execute code ns).result with
    | error m =>
      simp only [hd, Option.some.injEq, Prod.mk.injEq] at h ⊢
      obtain ⟨rfl, rfl⟩ := h
      exact ⟨[], code, by simp [Ran.deeds, Event.deed?], by simp⟩
    | ok v =>
      simp only [hd] at h ⊢
      obtain ⟨before, code', he, hb⟩ := ih h
      refine ⟨.executed j code (.ok v) :: before, code', ?_, fun d hm => ?_⟩
      · simp only [Ran.deeds] at he
        simp [Ran.deeds, Event.deed?, he]
      · rcases List.mem_cons.mp hm with rfl | hm
        · exact ⟨j, code, v, rfl⟩
        · exact hb d hm

theorem overrun_of_failed {ns : Namespace Value} {codes : List (UnitId × String)} {id : UnitId}
    {value : Value} (hr : (id, value) ∈ (tools.runAll ns codes).results)
    (h : (tools.runAll ns codes).failed ≠ none) :
    Overrun (tools.runAll ns codes).deeds id value := by
  obtain ⟨⟨failing, message⟩, hf⟩ := Option.ne_none_iff_exists'.mp h
  obtain ⟨before, code', he, hb⟩ := deeds_of_failed hf
  obtain ⟨code, hm⟩ := mem_results_iff.mp hr
  rw [he] at hm
  obtain ⟨front, back, rfl⟩ := List.append_of_mem (a := Deed.executed id code (.ok value))
    (by simpa using hm)
  exact ⟨front, code, back, failing, code', message, [], by simp [he],
    fun d hd => hb d (List.mem_append_right _ (List.mem_cons_of_mem _ hd))⟩

end Toolchain

theorem mem_of_lookup {results : List (UnitId × Value)} {id : UnitId} {value : Value}
    (h : results.lookup id = some value) : (id, value) ∈ results := by
  obtain ⟨front, back, he, -⟩ := List.lookup_eq_some_iff.mp h
  simp [he]

/-! ### Sessions -/

namespace Session

variable {Listener : Type} {s t : Session Tree Value Listener}

theorem deeds_executedSession (s : Session Tree Value Listener) :
    s.executedSession.deeds = s.deeds ++ s.batchRun.deeds := by
  have hlowered : s.loweredSession.deeds = s.deeds :=
    (still_loweredSession s).deeds.trans (deeds_append rfl (by simp [analyzedEvent, Event.deed?]))
  simp only [executedSession, afterRun, deeds, List.filterMap_append]
  exact congrArg (· ++ _) hlowered

/-- The results of a session are the values that its units were executed with, and a unit
that has one is complete unless its batch went down later. -/
structure Recorded (s : Session Tree Value Listener) : Prop where
  executed : ∀ id u value, s.cache.get? id = some u → u.result = some value →
    ∃ code, .executed id code (.ok value) ∈ s.deeds
  kept : ∀ id code value, .executed id code (.ok value) ∈ s.deeds →
    ∃ u, s.cache.get? id = some u ∧ u.result = some value
  ends : ∀ id u value, s.cache.get? id = some u → u.result = some value →
    u.state = .complete ∨ u.state = .error ∧ Overrun s.deeds id value

theorem Recorded.isSettled (h : s.Recorded) {id : UnitId} {u : SourceUnit Tree Value Listener}
    {value : Value} (hu : s.cache.get? id = some u) (hr : u.result = some value) :
    u.state.isSettled = true := by
  rcases h.ends id u value hu hr with hs | ⟨hs, -⟩ <;> simp [hs, State.isSettled]

theorem Recorded.of_kept (h : s.Recorded) (deeds : t.deeds = s.deeds)
    (settled : s.KeepsSettled t)
    (old : ∀ id v value, t.cache.get? id = some v → v.result = some value →
      ∃ u, s.cache.get? id = some u ∧ u.result = some value) : t.Recorded where
  executed := by
    intro id v value hv hr
    obtain ⟨u, hu, hru⟩ := old id v value hv hr
    rw [deeds]
    exact h.executed id u value hu hru
  kept := by
    intro id code value hd
    rw [deeds] at hd
    obtain ⟨u, hu, hr⟩ := h.kept id code value hd
    exact ⟨u, settled id u hu (h.isSettled hu hr), hr⟩
  ends := by
    intro id v value hv hr
    obtain ⟨u, hu, hru⟩ := old id v value hv hr
    obtain rfl := Option.some.inj (hv.symm.trans (settled id u hu (h.isSettled hu hru)))
    rw [deeds]
    exact h.ends id v value hu hru

theorem Recorded.still (h : s.Recorded) (still : Still s t) (settled : s.KeepsSettled t) :
    t.Recorded :=
  h.of_kept still.deeds settled fun id v value hv hr => by
    obtain ⟨u, hu, he⟩ := still.get?_back hv
    exact ⟨u, hu, (congrArg (·.result) he).symm.trans hr⟩

/-- After a batch, a result is from the batch or from before it. -/
theorem Executes.result_back (he : s.Executes) (still : Still s.executedSession t) {id : UnitId}
    {v : SourceUnit Tree Value Listener} {value : Value} (hv : t.cache.get? id = some v)
    (hr : v.result = some value) : ∃ u, s.cache.get? id = some u ∧
      (s.batchRun.results.lookup id = some value ∨
        s.batchRun.results.lookup id = none ∧ u.result = some value) := by
  obtain ⟨u, hu, hcore⟩ := he.get?_back still hv
  refine ⟨u, hu, ?_⟩
  cases hl : s.batchRun.results.lookup id with
  | some w =>
    rw [hl] at hcore
    exact .inl ((congrArg (·.result) hcore).symm.trans hr)
  | none =>
    rw [hl] at hcore
    exact .inr ⟨rfl, (congrArg (·.result) hcore).symm.trans hr⟩

theorem Executes.exists_result (he : s.Executes) (still : Still s.executedSession t) {id : UnitId}
    {code : String} {value : Value} (hd : .executed id code (.ok value) ∈ s.batchRun.deeds) :
    ∃ v, t.cache.get? id = some v ∧ v.result = some value := by
  have hr := Toolchain.mem_results_iff.mpr ⟨code, hd⟩
  have hl := lookup_of_mem he.ready.nodup_results hr
  have hcode := (s.tools.results_sublist s.ns s.codes).subset (List.mem_map_of_mem hr)
  obtain ⟨u, hu, -⟩ := Cache.isIn_iff.mp (he.ready.mem_codes.mp hcode)
  obtain ⟨w, hw, hcore⟩ := get?_executedSession he hu
  obtain ⟨v, hv, hvw⟩ := still.get? hw
  simp only [hl] at hcore
  exact ⟨v, hv, congrArg (·.result) (hvw.trans hcore)⟩

theorem Executes.keepsSettled (he : s.Executes)
    (ends : s.batchRun.failed = none ∧ Completes s t ∨ s.batchRun.failed ≠ none ∧ Falls s t) :
    s.KeepsSettled t := by
  intro id u hu hs
  rcases ends with ⟨-, hc⟩ | ⟨-, hf⟩
  · have hunit := hc.unit id u hu
    rwa [he.ready.lookup_of_isSettled hu hs] at hunit
  · obtain ⟨v, hv, huv⟩ := hf.unit id u hu
    rwa [huv.settled hs] at hv

/-- What was executed in a batch is complete when the batch is, and fails when it does. -/
theorem Executes.ends_new (he : s.Executes)
    (ends : s.batchRun.failed = none ∧ Completes s t ∨ s.batchRun.failed ≠ none ∧ Falls s t)
    {id : UnitId} {u v : SourceUnit Tree Value Listener} {value : Value}
    (hu : s.cache.get? id = some u) (hv : t.cache.get? id = some v)
    (hl : s.batchRun.results.lookup id = some value) :
    v.state = .complete ∨ v.state = .error ∧ Overrun s.batchRun.deeds id value := by
  rcases ends with ⟨-, hc⟩ | ⟨hfailed, hf⟩
  · have hunit := hc.unit id u hu
    rw [hl] at hunit
    obtain rfl := Option.some.inj (hv.symm.trans hunit)
    exact .inl rfl
  · obtain ⟨w, hw, huw⟩ := hf.unit id u hu
    obtain rfl := Option.some.inj (hv.symm.trans hw)
    have hopen : u.state.isSettled = false := by
      refine Bool.eq_false_iff.mpr fun hs => ?_
      simp [he.ready.lookup_of_isSettled hu hs] at hl
    exact .inr ⟨(huw.failed hopen).1, Toolchain.overrun_of_failed (mem_of_lookup hl) hfailed⟩

theorem Executes.recorded (he : s.Executes) (h : s.Recorded) (still : Still s.executedSession t)
    (ends : s.batchRun.failed = none ∧ Completes s t ∨ s.batchRun.failed ≠ none ∧ Falls s t) :
    t.Recorded := by
  have hdeeds : t.deeds = s.deeds ++ s.batchRun.deeds :=
    still.deeds.trans s.deeds_executedSession
  have hold {id : UnitId} {u : SourceUnit Tree Value Listener} {value : Value}
      (hu : s.cache.get? id = some u) (hr : u.result = some value) : t.cache.get? id = some u :=
    he.keepsSettled ends id u hu (h.isSettled hu hr)
  refine ⟨fun id v value hv hr => ?_, fun id code value hd => ?_, fun id v value hv hr => ?_⟩
  · rw [hdeeds]
    obtain ⟨u, hu, hl | ⟨-, hru⟩⟩ := he.result_back still hv hr
    · obtain ⟨code, hc⟩ := Toolchain.mem_results_iff.mp (mem_of_lookup hl)
      exact ⟨code, List.mem_append_right _ hc⟩
    · obtain ⟨code, hc⟩ := h.executed id u value hu hru
      exact ⟨code, List.mem_append_left _ hc⟩
  · rw [hdeeds] at hd
    rcases List.mem_append.mp hd with hd | hd
    · obtain ⟨u, hu, hr⟩ := h.kept id code value hd
      exact ⟨u, hold hu hr, hr⟩
    · exact he.exists_result still hd
  · rw [hdeeds]
    obtain ⟨u, hu, hl | ⟨-, hru⟩⟩ := he.result_back still hv hr
    · exact (he.ends_new ends hu hv hl).imp_right fun hs => ⟨hs.1, hs.2.prepend _⟩
    · obtain rfl := Option.some.inj (hv.symm.trans (hold hu hru))
      exact (h.ends id v value hu hru).imp_right fun hs => ⟨hs.1, hs.2.append _⟩

theorem Turns.recorded (h : Turns s t) (develops : Develops s t) (hs : s.Recorded) :
    t.Recorded := by
  cases h with
  | still still => exact hs.still still develops.keepsSettled
  | reads unit loaded sound reads still =>
    have hdeeds := deeds_append reads.history (by simp [Event.deed?])
    refine hs.of_kept (still.deeds.trans hdeeds) develops.keepsSettled fun id v value hv hr => ?_
    obtain ⟨w, hw, he⟩ := still.get?_back hv
    have hrw : w.result = some value := (congrArg (·.result) he).symm.trans hr
    rcases reads.get?_back hw with ⟨rfl, rfl⟩ | ⟨-, hw⟩ | ⟨-, -, address, kind, rfl⟩
    · exact ⟨_, unit, hrw⟩
    · exact ⟨w, hw, hrw⟩
    · cases hrw
  | stops ready falls still =>
    have hdeeds : s.analysedSession.deeds = s.deeds :=
      deeds_append rfl (by simp [analyzedEvent, Event.deed?])
    refine hs.of_kept (still.deeds.trans hdeeds) develops.keepsSettled fun id v value hv hr => ?_
    obtain ⟨u, hu, he⟩ := still.get?_back hv
    exact ⟨u, hu, (congrArg (·.result) he).symm.trans hr⟩
  | executes executes still ends => exact executes.recorded hs still ends

end Session

theorem lasting_recorded :
    Lasting fun s : Session Tree Value (Listener Value) => s.Recorded where
  still := fun s t hs hstill hkeeps =>
    have hsame := hs.still hstill hkeeps.settled
    ⟨hsame.executed, hsame.kept, hsame.ends⟩
  gains := by
    intro s t w _ hs hgains hnew hkeeps
    refine hs.of_kept hgains.deeds hkeeps.settled fun id v value hv hr => ?_
    rcases hgains.get?_back hv with ⟨u, hu, he⟩ | ⟨-, he⟩
    · exact ⟨u, hu, (congrArg (·.result) he).symm.trans hr⟩
    · have hw : w.result = some value := (congrArg (·.result) he).symm.trans hr
      cases hnew <;> cases hw
  moves := fun m n hm hs hmove => (hmove.turns hm).recorded (hmove.develops hm) hs

namespace Host

variable {ledger : List Registration} {h : Host Tree Value} {loader : Nat}
  {s : Session Tree Value (Listener Value)} {id : UnitId}
  {u : SourceUnit Tree Value (Listener Value)}

/-- A unit has the value that it was executed with for its result. Every complete unit has
one; a unit with one that is not complete has failed, because a unit that was executed
later in the same batch did. -/
theorem Run.result_iff_executed (run : Run ledger h) (hs : h.session? loader = some s)
    (hu : s.cache.get? id = some u) :
    (∀ value, u.result = some value ↔ ∃ code, .executed id code (.ok value) ∈ s.deeds) ∧
      (u.state = .complete → u.result.isSome) ∧
      ∀ value, u.result = some value →
        u.state = .complete ∨ u.state = .error ∧ Overrun s.deeds id value := by
  have hrecorded : s.Recorded := lasting_recorded.run (fun setup ns => by
    refine ⟨fun id u value hu => ?_, fun id code value hd => ?_, fun id u value hu => ?_⟩
    · simp [opened, Session.fresh, Build.empty, Cache.empty, Cache.get?] at hu
    · simp [opened, Session.fresh, Build.empty, Session.deeds] at hd
    · simp [opened, Session.fresh, Build.empty, Cache.empty, Cache.get?] at hu) run hs
  refine ⟨fun value => ⟨hrecorded.executed id u value hu, ?_⟩, ?_,
    fun value => hrecorded.ends id u value hu⟩
  · rintro ⟨code, hd⟩
    obtain ⟨v, hv, hr⟩ := hrecorded.kept id code value hd
    obtain rfl := Option.some.inj (hu.symm.trans hv)
    exact hr
  · exact ((run.orderly.rest loader s hs).sound.fits id u hu).proper.result

/-- A script that fails after the module that it imports was executed. -/
def failingScript : Setup Program UnitLoader.Value :=
  .plain Lang.toolchain .default (.ofList
    [("/main", .ok "import \"/a\"\nthrow 0"), ("/a", .ok "\"done\"")] false)

theorem run_failingScript : ∃ h, Run [] h ∧ h.session? 0 =
    some ((opened failingScript .empty).loadSync "/main" .script).session := by
  have joined := Run.empty.join failingScript false rfl
  exact ⟨_, (joined.ask (.request 0 (.loadSync "/main" .script))).tick, rfl⟩

/-- The module was executed and has failed with its batch, and still has its result. -/
theorem Run.result_of_error : ∃ (h : Host Program UnitLoader.Value)
    (s : Session Program UnitLoader.Value (Listener UnitLoader.Value))
    (u : SourceUnit Program UnitLoader.Value (Listener UnitLoader.Value)),
    Run [] h ∧ h.session? 0 = some s ∧ s.cache.get? ⟨1⟩ = some u ∧ u.address = "/a" ∧
      u.state = .error ∧ u.result = some (.str "done") := by
  obtain ⟨h, run, hs⟩ := run_failingScript
  have hunit : (((opened failingScript .empty).loadSync "/main" .script).session.cache.get?
      (⟨1⟩ : UnitId)).map (fun u => (u.address, u.state, u.result)) =
      some ("/a", .error, some (.str "done")) := by
    decide +kernel
  obtain ⟨u, hu, he⟩ := Option.map_eq_some_iff.mp hunit
  simp only [Prod.mk.injEq] at he
  exact ⟨h, _, u, run, hs, hu, he.1, he.2.1, he.2.2⟩

/-- The script itself was not executed any more, and has no result. -/
theorem Run.result_iff_executed_failingScript :
    ∃ s : Session Program UnitLoader.Value (Listener UnitLoader.Value),
      s.cache.isIn .error ⟨0⟩ = true ∧
        ∀ code value, Deed.executed ⟨0⟩ code (.ok value) ∉ s.deeds := by
  obtain ⟨h, run, hs⟩ := run_failingScript
  have hunit : (((opened failingScript .empty).loadSync "/main" .script).session.cache.get?
      (⟨0⟩ : UnitId)).map (fun u => (u.state, u.result)) = some (.error, none) := by
    decide +kernel
  obtain ⟨u, hu, he⟩ := Option.map_eq_some_iff.mp hunit
  simp only [Prod.mk.injEq] at he
  refine ⟨_, Cache.isIn_iff.mpr ⟨u, hu, he.1⟩, fun code value hd => ?_⟩
  have hresult := ((Run.result_iff_executed run hs hu).1 value).mpr ⟨code, hd⟩
  rw [he.2] at hresult
  cases hresult

end Host

end UnitLoader
