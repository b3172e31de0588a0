import UnitLoader.Proofs.Performance

/-! The namespace of a loader that shares it with nobody, as its deeds made it. Doing them
again from an empty namespace, in the same order, gives the same results and ends with the
same bindings. -/

namespace UnitLoader

variable {Tree Value Listener : Type}

def Deed.isExecuted : Deed Value → Bool
  | .defined _ _ => false
  | .executed _ _ _ => true

theorem isExecuted_of_mem {events : List (Event Value)} {d : Deed Value}
    (h : d ∈ events.filterMap Event.deed?) : d.isExecuted = true := by
  obtain ⟨e, -, he⟩ := List.mem_filterMap.mp h
  cases e <;> first | (obtain rfl := Option.some.inj he; rfl) | cases he

namespace Toolchain

variable {tools : Toolchain Tree Value} {ns : Namespace Value} {deeds : List (Deed Value)}

def perform (tools : Toolchain Tree Value) (ns : Namespace Value) : Deed Value → Namespace Value
  | .defined name value => ns.define name value
  | .executed _ code _ => (tools.execute code ns).ns

/-- The namespace that deeds leave. -/
def replay (tools : Toolchain Tree Value) (ns : Namespace Value) (deeds : List (Deed Value)) :
    Namespace Value :=
  deeds.foldl tools.perform ns

theorem replay_append (more : List (Deed Value)) :
    tools.replay ns (deeds ++ more) = tools.replay (tools.replay ns deeds) more :=
  List.foldl_append

/-- Each code gave the result that it gives when the deeds are done again. -/
def Faithful (tools : Toolchain Tree Value) (ns : Namespace Value) (deeds : List (Deed Value)) :
    Prop :=
  ∀ before id code result after, deeds = before ++ .executed id code result :: after →
    result = (tools.execute code (tools.replay ns before)).result

theorem Faithful.append {more : List (Deed Value)} (h : tools.Faithful ns deeds)
    (h' : tools.Faithful (tools.replay ns deeds) more) : tools.Faithful ns (deeds ++ more) := by
  intro before id code result after he
  rcases append_eq_append_cons he with ⟨rest, hd⟩ | ⟨front, rfl, hd⟩
  · exact h before id code result rest hd
  · rw [replay_append]
    exact h' front id code result after hd

theorem faithful_of_defined (h : ∀ d ∈ deeds, d.isExecuted = false) : tools.Faithful ns deeds := by
  intro before id code result after he
  have hd := h (.executed id code result) (by simp [he])
  cases hd

theorem faithful_executed (tools : Toolchain Tree Value) (ns : Namespace Value) (id : UnitId)
    (code : String) : tools.Faithful ns [.executed id code (tools.execute code ns).result] := by
  intro before j other result after he
  cases before with
  | nil =>
    obtain ⟨hd, -⟩ := List.cons.inj he
    obtain ⟨-, rfl, rfl⟩ := Deed.executed.inj hd
    rfl
  | cons d before => simp at he

theorem replay_runAll (tools : Toolchain Tree Value) (ns : Namespace Value)
    (codes : List (UnitId × String)) :
    tools.replay ns (tools.runAll ns codes).deeds = (tools.runAll ns codes).ns ∧
      tools.Faithful ns (tools.runAll ns codes).deeds := by
  induction codes generalizing ns with
  | nil => exact ⟨rfl, faithful_of_defined (by simp [runAll, Ran.deeds])⟩
  | cons c rest ih =>
    obtain ⟨id, code⟩ := c
    have hfirst := faithful_executed tools ns id code
    simp only [runAll]
    cases hd : (tools.execute code ns).result with
    | error message =>
      rw [hd] at hfirst
      exact ⟨rfl, hfirst⟩
    | ok value =>
      obtain ⟨hns, hfaithful⟩ := ih (tools.execute code ns).ns
      rw [hd] at hfirst
      exact ⟨hns, hfirst.append hfaithful⟩

/-- Whether a deed, wherever it is done, leaves a key as it was. -/
def Leaves (tools : Toolchain Tree Value) (key : String) : Deed Value → Prop
  | .defined name _ => name ≠ key
  | .executed _ code _ => ∀ ns, (tools.execute code ns).ns.get? key = ns.get? key

theorem get?_replay_of_leaves {key : String} (h : ∀ d ∈ deeds, tools.Leaves key d)
    (ns : Namespace Value) : (tools.replay ns deeds).get? key = ns.get? key := by
  induction deeds generalizing ns with
  | nil => rfl
  | cons d rest ih =>
    obtain ⟨hd, hrest⟩ := List.forall_mem_cons.mp h
    refine (ih hrest (tools.perform ns d)).trans ?_
    cases d with
    | defined name value => rw [perform, Namespace.get?_define, if_neg (Ne.symm hd)]
    | executed id code result => exact hd ns

end Toolchain

namespace Session

variable {s t w : Session Tree Value Listener}

/-- What happens between two sessions, as the deeds tell it. -/
structure Replays (s : Session Tree Value Listener) (new : List (Deed Value))
    (t : Session Tree Value Listener) : Prop where
  tools : t.tools = s.tools
  deeds : t.deeds = s.deeds ++ new
  ns : t.ns = s.tools.replay s.ns new
  faithful : s.tools.Faithful s.ns new

theorem replays_nil (tools : t.tools = s.tools) (deeds : t.deeds = s.deeds) (ns : t.ns = s.ns) :
    s.Replays [] t :=
  ⟨tools, by rw [deeds, List.append_nil], ns, Toolchain.faithful_of_defined (by simp)⟩

theorem Replays.trans {new more : List (Deed Value)} (h : s.Replays new t)
    (h' : t.Replays more w) : s.Replays (new ++ more) w where
  tools := h'.tools.trans h.tools
  deeds := by rw [h'.deeds, h.deeds, List.append_assoc]
  ns := by rw [Toolchain.replay_append, ← h.ns, h'.ns, h.tools]
  faithful := by
    refine h.faithful.append ?_
    rw [← h.ns, ← h.tools]
    exact h'.faithful

theorem Turns.replays (h : Turns s t) : ∃ new, s.Replays new t := by
  cases h with
  | still still => exact ⟨[], replays_nil still.tools still.deeds still.ns⟩
  | reads unit loaded sound reads still =>
    have hdeeds := deeds_append reads.history (by simp [Event.deed?])
    have hns := still.ns
    have htools := still.tools
    rw [reads.same] at hns htools
    exact ⟨[], replays_nil htools (still.deeds.trans hdeeds) hns⟩
  | stops ready falls still =>
    have hdeeds : s.analysedSession.deeds = s.deeds :=
      deeds_append rfl (by simp [analyzedEvent, Event.deed?])
    exact ⟨[], replays_nil still.tools (still.deeds.trans hdeeds) still.ns⟩
  | executes executes still ends =>
    obtain ⟨hns, hfaithful⟩ := s.tools.replay_runAll s.ns s.codes
    exact ⟨s.batchRun.deeds, still.tools, still.deeds.trans s.deeds_executedSession,
      still.ns.trans hns.symm, hfaithful⟩

theorem Moves.replays {m n : Moment Tree Value Listener} (hmoves : Moves m n) (h : m.Sound) :
    ∃ new, m.session.Replays new n.session := by
  induction hmoves with
  | refl => exact ⟨[], replays_nil rfl rfl rfl⟩
  | tail hbefore hmove ih =>
    obtain ⟨new, hnew⟩ := ih
    obtain ⟨more, hmore⟩ := (hmove.turns (UnitLoader.Moves.sound hbefore h)).replays
    exact ⟨new ++ more, hnew.trans hmore⟩

theorem AtRest.replays (rest : s.AtRest) (step : Advance s t) : ∃ new, s.Replays new t := by
  obtain ⟨registered, sync, m, last, hsteps⟩ := rest.steps step
  have hfirst : s.Replays [] m.session := by
    rcases hsteps.enters.gains with hstill | ⟨w, hgains, -⟩
    · exact replays_nil hstill.tools hstill.deeds hstill.ns
    · exact replays_nil hgains.tools hgains.deeds hgains.ns
  obtain ⟨new, hnew⟩ := Moves.replays hsteps.moves (hsteps.enters.sound (rest.withSync sync))
  have hlast : last.Replays [] t := by
    rw [hsteps.leaves]
    exact replays_nil rfl rfl rfl
  exact ⟨_, (hfirst.trans hnew).trans hlast⟩

/-- All deeds from the start, as told of a session. -/
structure Retold (deeds : List (Deed Value)) (s : Session Tree Value Listener) : Prop where
  ns : s.ns = s.tools.replay .empty deeds
  faithful : s.tools.Faithful .empty deeds
  executed : deeds.filter Deed.isExecuted = s.deeds

theorem Retold.replays {deeds new : List (Deed Value)} (h : s.Retold deeds)
    (hr : s.Replays new t) : t.Retold (deeds ++ new) where
  ns := by rw [hr.tools, Toolchain.replay_append, ← h.ns, hr.ns]
  faithful := by
    rw [hr.tools]
    refine h.faithful.append ?_
    rw [← h.ns]
    exact hr.faithful
  executed := by
    have hnew : new.filter Deed.isExecuted = new := by
      refine List.filter_eq_self.mpr fun d hd => ?_
      have hmem : d ∈ t.deeds := by
        rw [hr.deeds]
        exact List.mem_append_right _ hd
      exact isExecuted_of_mem hmem
    rw [List.filter_append, h.executed, hnew, hr.deeds]

theorem Retold.define {deeds : List (Deed Value)} (h : s.Retold deeds) (name : String)
    (value : Value) : ({ s with ns := s.ns.define name value } : Session Tree Value
      Listener).Retold (deeds ++ [.defined name value]) where
  ns := by
    rw [Toolchain.replay_append]
    exact congrArg (fun ns : Namespace Value => ns.define name value) h.ns
  faithful := h.faithful.append (Toolchain.faithful_of_defined (by simp [Deed.isExecuted]))
  executed := by
    rw [List.filter_append, h.executed]
    exact List.append_nil _

end Session

namespace Host

variable {loader : Nat} {deeds : List (Deed Value)} {h : Host Tree Value} {seat : Seat Tree Value}

theorem isExecuted_of_mem_executes {d : Deed Value} (hd : d ∈ h.executes loader) :
    d.isExecuted = true := by
  simp only [executes] at hd
  split at hd
  · exact isExecuted_of_mem hd
  · cases hd

theorem retold_opened (setup : Setup Tree Value) :
    (opened setup .empty).Retold (setup.globals.map fun g => .defined g.1 g.2) where
  ns := by
    rw [Toolchain.replay, List.foldl_map]
    rfl
  faithful := by
    refine Toolchain.faithful_of_defined fun d hd => ?_
    obtain ⟨g, -, rfl⟩ := List.mem_map.mp hd
    rfl
  executed := by
    refine List.filter_eq_nil_iff.mpr fun d hd => ?_
    obtain ⟨g, -, rfl⟩ := List.mem_map.mp hd
    simp [Deed.isExecuted]

/-- The deeds of a loader that has its namespace to itself account for all of it. -/
theorem Chronicle.retold (c : Chronicle loader deeds h) (hs : h.seats[loader]? = some seat)
    (own : seat.sharing = false) : seat.session.Retold deeds := by
  have hall := c.induct (P := fun sharing deeds s => sharing = false → s.Retold deeds) ?_ ?_
  · exact hall.2 seat hs own
  · intro setup sharing ns hns own
    rw [hns own]
    exact retold_opened setup
  · intro sharing deeds s defined t new rest hs halters hdeeds own
    have hretold := hs own
    -- what is not executed adds nothing to the deeds of the session
    have hnothing (hsame : t.deeds = s.deeds) : new = [] := by
      rw [hsame] at hdeeds
      exact List.self_eq_append_right.mp hdeeds
    cases halters with
    | act step =>
      obtain ⟨events, hr⟩ := rest.replays step.advance
      rw [hr.deeds] at hdeeds
      obtain rfl := List.append_cancel_left hdeeds
      exact hretold.replays hr
    | listen unit unsettled listener =>
      obtain rfl := hnothing rfl
      exact hretold.replays (Session.replays_nil rfl rfl rfl)
    | define free name value =>
      obtain rfl := hnothing rfl
      exact hretold.define name value
    | beside change =>
      have same := change.same
      have hsame : t.deeds = s.deeds := by rw [same]; rfl
      obtain rfl := hnothing hsame
      exact hretold.replays (Session.replays_nil (by rw [same]) hsame (by rw [same]))
    | shared shares ns held => cases own.symm.trans shares

end Host

end UnitLoader
