import UnitLoader.Proofs.Grounds

/-! How often the history takes a unit through each stage, and what a batch adds to that. -/

namespace UnitLoader

variable {Tree Value : Type}

/-- The stages of a unit, the fetch in two halves. -/
inductive Stage
  | asked
  | answered
  | parsed
  | analyzed
  | transformed
  | executed
deriving DecidableEq

namespace Stage

/-- How far a unit has got once it is through a stage, in the measure of `Moment.progress`. -/
def point : Stage → Nat
  | asked => 2
  | answered => 3
  | parsed => 6
  | _ => 10

def ofFetch : Stage → Bool
  | asked => true
  | answered => true
  | _ => false

end Stage

/-- Whether an event takes a unit through a stage. -/
def Event.marks (stage : Stage) (id : UnitId) : Event Value → Bool
  | requested i _ => stage = .asked && i = id
  | received i _ => stage = .answered && i = id
  | fetched i _ => stage.ofFetch && i = id
  | cancelled _ _ => false
  | parsed i _ _ => stage = .parsed && i = id
  | analyzed ids _ => stage = .analyzed && id ∈ ids
  | transformed i _ _ => stage = .transformed && i = id
  | executed i _ _ => stage = .executed && i = id

/-- How often a unit has been taken through a stage. -/
def Session.times {Listener : Type} (s : Session Tree Value Listener) (stage : Stage)
    (id : UnitId) : Nat :=
  s.history.countP (Event.marks stage id)

namespace Session

variable {Listener : Type} {s : Session Tree Value Listener} {id : UnitId} {stage : Stage}

theorem count_cancellations (s : Session Tree Value Listener) (stage : Stage) (id : UnitId) :
    s.cancellations.countP (Event.marks stage id) = 0 := by
  simp [cancellations, List.countP_eq_zero, Event.marks]

theorem Ready.count_analyzed (h : s.Ready) (stage : Stage) (id : UnitId) :
    [s.analyzedEvent].countP (Event.marks stage id) =
      if stage = .analyzed ∧ s.cache.isIn .parsed id = true then 1 else 0 := by
  simp only [analyzedEvent, List.countP_singleton, Event.marks, Bool.and_eq_true,
    decide_eq_true_eq, h.mem_targets]

theorem Ready.map_fst_lowerings (h : s.Ready) :
    s.lowerings.map (·.1) = Build.transformOrder s.cache s.cache.ids :=
  h.map_fst_sources id fun _ hid => Build.isIn_parsed_of_mem_transformOrder hid

theorem count_of_nodup {l : List UnitId} (hn : l.Nodup) (id : UnitId) :
    l.count id = if id ∈ l then 1 else 0 := by
  split
  · next h => exact List.count_eq_one_of_mem hn h
  · next h => exact List.count_eq_zero_of_not_mem h

theorem Ready.count_lowered (h : s.Ready) (stage : Stage) (id : UnitId) :
    s.loweredEvents.countP (Event.marks stage id) =
      if stage = .transformed ∧ s.cache.isIn .parsed id = true then 1 else 0 := by
  have hcount := count_of_nodup (Build.nodup_transformOrder s.cache s.cache.ids) id
  rw [← h.map_fst_lowerings, List.count, List.countP_map, h.map_fst_lowerings] at hcount
  simp only [Build.mem_transformOrder_ids] at hcount
  rw [loweredEvents, List.countP_map]
  by_cases hs : stage = .transformed
  · simp only [hs, true_and]
    rw [← hcount]
    refine List.countP_congr fun t _ => ?_
    simp [Event.marks]
  · simp [List.countP_eq_zero, Event.marks, hs]

end Session

theorem Toolchain.count_executed (tools : Toolchain Tree Value) (ns : Namespace Value)
    (codes : List (UnitId × String)) (stage : Stage) (id : UnitId) :
    (tools.runAll ns codes).events.countP (Event.marks stage id) =
      if stage = .executed then (unitsOf (tools.runAll ns codes).deeds).count id else 0 := by
  induction codes generalizing ns with
  | nil => simp [runAll, Ran.deeds, unitsOf]
  | cons c rest ih =>
    obtain ⟨j, code⟩ := c
    simp only [runAll]
    cases (tools.execute code ns).result with
    | error message =>
      by_cases hs : stage = .executed
      · simp [hs, Ran.deeds, unitsOf, Event.deed?, Deed.unit?, Event.marks, List.count_singleton,
          List.countP_singleton]
      · simp [hs, Event.marks]
    | ok value =>
      have hrest := ih (tools.execute code ns).ns
      by_cases hs : stage = .executed
      · simp only [hs, if_true, Ran.deeds, unitsOf] at hrest ⊢
        simp [List.countP_cons, List.count_cons, hrest, Event.deed?, Deed.unit?, Event.marks]
      · simp only [hs, if_false] at hrest ⊢
        simp [hrest, Event.marks, hs]

/-- A run in which nothing fails executes all codes. -/
theorem Toolchain.unitsOf_deeds_of_passed {tools : Toolchain Tree Value} {ns : Namespace Value}
    {codes : List (UnitId × String)} (h : (tools.runAll ns codes).failed = none) :
    unitsOf (tools.runAll ns codes).deeds = codes.map (·.1) := by
  induction codes generalizing ns with
  | nil => rfl
  | cons c rest ih =>
    obtain ⟨j, code⟩ := c
    simp only [runAll] at h ⊢
    cases hd : (tools.execute code ns).result with
    | error message => simp [hd] at h
    | ok value =>
      simp only [hd] at h
      exact congrArg (j :: ·) (ih h)

namespace Session

variable {Listener : Type} {s t : Session Tree Value Listener} {id : UnitId}

theorem Executes.count_executed (h : s.Executes) (stage : Stage) (id : UnitId) :
    s.batchRun.events.countP (Event.marks stage id) ≤
      if stage = .executed ∧ s.cache.isIn .parsed id = true then 1 else 0 := by
  have hcount : s.batchRun.events.countP (Event.marks stage id) = _ :=
    s.tools.count_executed s.ns s.codes stage id
  have hsublist := (s.tools.unitsOf_deeds_prefix s.ns s.codes).sublist
  have hnodup := count_of_nodup h.ready.nodup_codes id
  simp only [h.ready.mem_codes] at hnodup
  rw [hcount]
  by_cases hs : stage = .executed
  · simp only [hs, true_and, if_true]
    rw [← hnodup]
    exact hsublist.count_le id
  · simp [hs]

theorem Passes.count_executed (h : s.Passes) (ready : s.Ready) (stage : Stage) (id : UnitId) :
    s.batchRun.events.countP (Event.marks stage id) =
      if stage = .executed ∧ s.cache.isIn .parsed id = true then 1 else 0 := by
  have hcount : s.batchRun.events.countP (Event.marks stage id) = _ :=
    s.tools.count_executed s.ns s.codes stage id
  have hnodup := count_of_nodup ready.nodup_codes id
  simp only [ready.mem_codes] at hnodup
  rw [hcount, Toolchain.unitsOf_deeds_of_passed h.run, hnodup]
  by_cases hs : stage = .executed
  · simp [hs]
  · simp [hs]

/-- The units of a batch are taken through its stages once at most, and no others are. -/
theorem Writes.count {events : List (Event Value)} (hw : s.Writes events) (h : s.Ready)
    (stage : Stage) (id : UnitId) : events.countP (Event.marks stage id) ≤
      if stage.point = 10 ∧ s.cache.isIn .parsed id = true then 1 else 0 := by
  have hanalyzed := h.count_analyzed stage id
  have hlowered := h.count_lowered stage id
  cases hw with
  | analysed =>
    rw [hanalyzed]
    cases stage <;> simp [Stage.point]
  | lowered =>
    rw [List.countP_cons, ← List.countP_singleton, hanalyzed, hlowered]
    cases stage <;> simp [Stage.point]
  | executed executes =>
    have hexecuted := executes.count_executed stage id
    rw [List.countP_cons, ← List.countP_singleton, hanalyzed, List.countP_append, hlowered]
    generalize s.batchRun.events.countP (Event.marks stage id) = runs at hexecuted ⊢
    cases stage <;> simp [Stage.point] at hexecuted ⊢ <;> omega

theorem Completes.count (h : Completes s t) (ready : s.Ready) (passes : s.Passes) :
    ∃ events, t.history = s.history ++ events ∧ ∀ stage id,
      events.countP (Event.marks stage id) =
        if stage.point = 10 ∧ s.cache.isIn .parsed id = true then 1 else 0 := by
  refine ⟨_, h.history, fun stage id => ?_⟩
  have hlowered := ready.count_lowered stage id
  rw [loweredEvents] at hlowered
  rw [List.countP_cons, ← List.countP_singleton, ready.count_analyzed stage id,
    List.countP_append, hlowered, passes.count_executed ready stage id]
  cases stage <;> simp [Stage.point]

end Session

end UnitLoader
