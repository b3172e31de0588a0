import UnitLoader.Proofs.Accounting
import UnitLoader.Proofs.Pairs
import UnitLoader.Proofs.Returns

/-! Runs of two hosts that go through the same changes. Errors stay on record, so two hosts that
have none of analysis or execution have never had one, and all along their loaders were alike. -/

namespace UnitLoader

variable {Tree Value : Type}

/-- Setups of loaders of one toolchain that differ in their texts, which are read alike. What is
defined beforehand for their programs makes no difference. -/
structure Setup.Alike (tools : Toolchain Tree Value) (R : String → String → Prop)
    (setup setup' : Setup Tree Value) : Prop where
  first : setup.tools = tools
  second : setup'.tools = tools
  config : setup.config = setup'.config
  resolver : setup.resolver = setup'.resolver
  translate : ∀ text text', R text text' →
    tools.ReadsAlike (setup.translate text) (setup'.translate text')
  fetcher : setup.fetcher.Alike R setup'.fetcher

open Session

/-! ### Records over time -/

theorem Move.grows {Listener : Type} {m n : Moment Tree Value Listener} (hmove : Move m n) :
    m.session.reporter.Grows n.session.reporter := by
  cases hmove with
  | @ask s id =>
    rw [reporter_request]
    exact .refl _
  | @refuse s id _ e => exact grows_refused s id e
  | @misread s id => exact grows_misread s id
  | @read s id => exact grows_understood s id
  | @reject s id failed =>
    rw [rejected, failBatch, reporter_abortAll]
    exact grows_understood s id
  | @pass s => exact grows_checkBarrier s
  | _ => exact .refl _

theorem throughout_grows (r : Reporter) :
    Throughout fun m : Moment Tree Value (Listener Value) => r.Grows m.session.reporter where
  apart := by
    intro s t hs happart
    rw [happart]
    exact hs
  listens := fun _ _ _ _ _ _ hs => hs
  enters := by
    intro s registered m _ hs henters
    cases henters <;> exact hs
  moves := fun _ _ _ hm hmove => hm.trans hmove.grows

namespace Host

variable {ledger : List Registration} {h h' k k' : Host Tree Value} {loader : Nat}
  {tools : Toolchain Tree Value} {R : String → String → Prop}

/-- A host that a run leads to, all of whose loaders have one toolchain. -/
structure RunsBy (tools : Toolchain Tree Value) (h : Host Tree Value) : Prop where
  run : ∃ ledger, Run ledger h
  loaders : ∀ loader s, h.session? loader = some s → s.tools = tools

theorem RunsBy.empty (tools : Toolchain Tree Value) : RunsBy tools (.ofSeats []) :=
  ⟨⟨[], .empty⟩, fun loader s hs => by simp [session?, ofSeats] at hs⟩

theorem RunsBy.join (h : RunsBy tools k) {setup : Setup Tree Value} (plain : setup.tools = tools)
    {sharing : Bool} (joins : k.addLoader setup sharing = .ok k') : RunsBy tools k' := by
  obtain ⟨ledger, hrun⟩ := h.run
  refine ⟨⟨ledger, hrun.join setup sharing joins⟩, fun loader s hs => ?_⟩
  obtain ⟨seat, hseat, rfl⟩ := seat_of_session? hs
  rcases seat_of_join joins hseat with ⟨-, ns, -, -, halters, -⟩ | ⟨-, old, hold, -, halters, -⟩
  · exact (lasting_tools tools).alters (Session.atRest_fresh ..) plain halters
  · exact (lasting_tools tools).alters (hrun.orderly.rest loader _ (session?_eq hold))
      (h.loaders loader _ (session?_eq hold)) halters

theorem RunsBy.ask (h : RunsBy tools k) (step : Step Value) :
    RunsBy tools (k.first [.carryOut step]) := by
  obtain ⟨ledger, hrun⟩ := h.run
  exact ⟨⟨ledger, hrun.ask step⟩, h.loaders⟩

theorem RunsBy.tick (h : RunsBy tools k) : RunsBy tools k.tick := by
  obtain ⟨ledger, hrun⟩ := h.run
  refine ⟨⟨_, hrun.tick⟩, fun loader s hs => ?_⟩
  obtain ⟨seat, hseat, rfl⟩ := seat_of_session? hs
  have hlt := (List.getElem?_eq_some_iff.mp hseat).1
  rw [k.alters_tick.length] at hlt
  have hold : k.seats[loader]? = some k.seats[loader] := List.getElem?_eq_getElem hlt
  obtain ⟨seat', hseat', -, halters⟩ := k.alters_tick.seat loader _ hold
  obtain rfl := Option.some.inj (hseat.symm.trans hseat')
  exact (lasting_tools tools).alters (hrun.orderly.rest loader _ (session?_eq hold))
    (h.loaders loader _ (session?_eq hold)) halters

theorem RunsBy.collect (h : RunsBy tools k) {reply : Reply Value} {rest : List (Reply Value)}
    (replies : k.replies = reply :: rest) : RunsBy tools { k with replies := rest } := by
  obtain ⟨ledger, hrun⟩ := h.run
  exact ⟨⟨ledger, hrun.collect replies⟩, h.loaders⟩

/-- What is on record stays there, so there was no trouble before either. -/
theorem RunsBy.untroubled (runs : RunsBy tools h) (goes : Goes h h') (untroubled : h'.Untroubled) :
    h.Untroubled := by
  intro seat hseat
  obtain ⟨ledger, hrun⟩ := runs.run
  obtain ⟨loader, hs⟩ := List.mem_iff_getElem?.mp hseat
  obtain ⟨t, ht, hgrows⟩ := hrun.throughout (throughout_grows seat.session.reporter)
    (session?_eq hs) (.refl _) (.single goes)
  obtain ⟨seat', hseat', rfl⟩ := seat_of_session? ht
  exact hgrows.untroubled (untroubled seat' (List.mem_of_getElem? hseat'))

/-! ### Two runs -/

/-- Hosts that the same changes lead to: loaders join both, the same is asked of both, and each
does a task when the other does. -/
inductive Paired (tools : Toolchain Tree Value) (R : String → String → Prop) :
    Host Tree Value → Host Tree Value → Prop
  | empty : Paired tools R (.ofSeats []) (.ofSeats [])
  | join {h k h' k' : Host Tree Value} (paired : Paired tools R h k)
      {setup setup' : Setup Tree Value} (setups : setup.Alike tools R setup') (sharing : Bool)
      (joins : h.addLoader setup sharing = .ok h') (joins' : k.addLoader setup' sharing = .ok k') :
      Paired tools R h' k'
  | ask {h k : Host Tree Value} (paired : Paired tools R h k) {step step' : Step Value}
      (steps : step.Alike R step') :
      Paired tools R (h.first [.carryOut step]) (k.first [.carryOut step'])
  | tick {h k : Host Tree Value} (paired : Paired tools R h k) : Paired tools R h.tick k.tick
  | collect {h k : Host Tree Value} (paired : Paired tools R h k) {reply reply' : Reply Value}
      {rest rest' : List (Reply Value)} (replies : h.replies = reply :: rest)
      (replies' : k.replies = reply' :: rest') :
      Paired tools R { h with replies := rest } { k with replies := rest' }

theorem Paired.runsBy (paired : Paired tools R h k) : RunsBy tools h ∧ RunsBy tools k := by
  induction paired with
  | empty => exact ⟨.empty tools, .empty tools⟩
  | join _ setups _ joins joins' ih =>
    exact ⟨ih.1.join setups.first joins, ih.2.join setups.second joins'⟩
  | ask _ _ ih => exact ⟨ih.1.ask _, ih.2.ask _⟩
  | tick _ ih => exact ⟨ih.1.tick, ih.2.tick⟩
  | collect _ replies replies' ih => exact ⟨ih.1.collect replies, ih.2.collect replies'⟩

theorem addLoader_kept {setup : Setup Tree Value} {sharing : Bool}
    (joins : h.addLoader setup sharing = .ok h') : h'.agenda = h.agenda ∧ h'.replies = h.replies := by
  rw [addLoader] at joins
  cases hs : (setup.start (if sharing then some h.commonNamespace else none) :
      Except LoaderError (Session Tree Value (Listener Value))) with
  | error e =>
    rw [hs] at joins
    cases joins
  | ok s =>
    rw [hs] at joins
    rw [← Except.ok.inj joins]
    exact ⟨rfl, rfl⟩

theorem opened_alike (staged : tools.Staged) {setup setup' : Setup Tree Value}
    (setups : setup.Alike tools R setup') (ns ns' : Namespace Value) :
    (opened setup ns).Alike R (Listener.Alike R) (opened setup' ns') := by
  have htools : (opened setup ns).tools = tools := setups.first
  exact {
    tools := setups.second.trans setups.first.symm
    staged := htools.symm ▸ staged
    build := ⟨.nil, setups.resolver.symm, rfl⟩
    translate := htools.symm ▸ setups.translate
    baseAddress := congrArg Config.baseAddress setups.config
    sync := congrArg Config.sync setups.config
    held := rfl
    pending := rfl
    fetcher := setups.fetcher
    channel := .nil
    outbox := .nil }

theorem Alike.join (alike : Alike R h k) (staged : tools.Staged) {setup setup' : Setup Tree Value}
    (setups : setup.Alike tools R setup') {sharing : Bool}
    (joins : h.addLoader setup sharing = .ok h') (joins' : k.addLoader setup' sharing = .ok k') :
    Alike R h' k' := by
  obtain ⟨ns, -, hseats⟩ := addLoader_eq joins
  obtain ⟨ns', -, hseats'⟩ := addLoader_eq joins'
  obtain ⟨hagenda, hreplies⟩ := addLoader_kept joins
  obtain ⟨hagenda', hreplies'⟩ := addLoader_kept joins'
  have hopened := opened_alike staged setups ns ns'
  have hjoined : Alike R { h with seats := h.seats ++ [⟨opened setup ns, sharing, false⟩] }
      { k with seats := k.seats ++ [⟨opened setup' ns', sharing, false⟩] } :=
    { alike with seats := List.rel_append alike.seats (.cons ⟨hopened, rfl, rfl⟩ .nil) }
  refine ⟨?_, by rw [hagenda, hagenda']; exact alike.agenda,
    by rw [hreplies, hreplies']; exact alike.replies⟩
  rw [hseats, hseats', ← alike.seats.length_eq]
  exact (hjoined.put h.seats.length hopened).seats

/-- Two hosts without trouble have been alike all the way. -/
theorem Paired.alike (paired : Paired tools R h k) (staged : tools.Staged) (hu : h.Untroubled)
    (ku : k.Untroubled) : Alike R h k := by
  induction paired with
  | empty => exact ⟨.nil, .nil, .nil⟩
  | join paired setups sharing joins joins' ih =>
    have hbefore := paired.runsBy.1.untroubled (.join _ sharing joins) hu
    have kbefore := paired.runsBy.2.untroubled (.join _ sharing joins') ku
    exact (ih hbefore kbefore).join staged setups joins joins'
  | ask _ steps ih => exact (ih hu ku).first (.cons (.carryOut steps) .nil)
  | tick paired ih =>
    have hbefore := paired.runsBy.1.untroubled .tick hu
    have kbefore := paired.runsBy.2.untroubled .tick ku
    exact (ih hbefore kbefore).tick hu ku
  | collect _ replies replies' ih =>
    have halike := ih hu ku
    have hreplies := halike.replies
    rw [replies, replies', List.forall₂_cons] at hreplies
    exact { halike with replies := hreplies.2 }

theorem run_eq_iterate (h : Host Tree Value) (ticks : Nat) : h.run ticks = Host.tick^[ticks] h := by
  induction ticks generalizing h with
  | zero => rfl
  | succ ticks ih =>
    rw [Host.run, Function.iterate_succ_apply, ← ih]
    split
    · next rest =>
      have htick : h.tick = h := by rw [Host.tick, List.isEmpty_iff.mp rest]
      rw [htick, run_of_isAtRest rest]
    · rfl

/-- A host at rest waits for the other, so both can be given the same time. -/
theorem Paired.run (paired : Paired tools R h k) (ticks : Nat) :
    Paired tools R (h.run ticks) (k.run ticks) := by
  rw [run_eq_iterate, run_eq_iterate]
  induction ticks with
  | zero => exact paired
  | succ ticks ih =>
    rw [Function.iterate_succ_apply', Function.iterate_succ_apply']
    exact ih.tick

/-- Hosts that carry out the same step to its end give a reply both or neither. -/
theorem Paired.take (paired : Paired tools R h k) (staged : tools.Staged) (ticks : Nat)
    {step step' : Step Value} (steps : step.Alike R step') (hu : (h.take ticks step).2.Untroubled)
    (ku : (k.take ticks step').2.Untroubled) :
    Paired tools R (h.take ticks step).2 (k.take ticks step').2 := by
  have hafter := (paired.ask steps).run ticks
  have hseats (h : Host Tree Value) (step : Step Value) :
      (h.take ticks step).2.seats = ((h.first [.carryOut step]).run ticks).seats := by
    simp only [Host.take]
    split
    · split <;> rfl
    · rfl
  rw [Untroubled, hseats] at hu ku
  have halike := hafter.alike staged hu ku
  have hrest : ((h.first [.carryOut step]).run ticks).isAtRest =
      ((k.first [.carryOut step']).run ticks).isAtRest := by
    rw [isAtRest, isAtRest, Bool.eq_iff_iff, List.isEmpty_iff, List.isEmpty_iff,
      ← List.length_eq_zero_iff, halike.agenda.length_eq, List.length_eq_zero_iff]
  simp only [Host.take, hrest]
  rcases forall₂_cases halike.replies with ⟨hr, hr'⟩ | ⟨reply, rest, reply', rest', hr, hr', -⟩
  · rw [hr, hr']
    exact hafter
  · rw [hr, hr']
    dsimp only
    split
    · exact hafter.collect hr hr'
    · exact hafter

end Host

end UnitLoader
