import UnitLoader.Proofs.AllOrNothing
import UnitLoader.Proofs.Onward
import UnitLoader.Proofs.OneOrder
import UnitLoader.Proofs.Plain
import UnitLoader.Proofs.Reporting

/-! The record of a loader. Nothing is ever taken out of it, and it accounts for every unit
that failed: with the first error of its phase, if a phase failed it, and with that of another
unit, if it was aborted. -/

namespace UnitLoader

variable {Tree Value : Type}

namespace LoadError

/-- An error of a phase is among those in a list. -/
def In (ds : List Diagnostic) (e : LoadError) : Prop :=
  ∀ phase message, e.told? = some (phase, message) →
    ∃ d ∈ ds, d.isOf phase e.address = true ∧ d.message = message

variable {ds more : List Diagnostic} {e : LoadError}

theorem In.mono (h : e.In ds) (sub : ds ⊆ more) : e.In more := by
  intro phase message he
  obtain ⟨d, hd, hof, hm⟩ := h phase message he
  exact ⟨d, sub hd, hof, hm⟩

theorem FirstIn.among (h : e.FirstIn ds) : e.In ds := by
  intro phase message he
  obtain ⟨d, hd, hm⟩ := h phase message he
  exact ⟨d, List.mem_of_find?_eq_some hd, List.find?_some hd, hm⟩

end LoadError

namespace Session

variable {Listener : Type}

/-- The record of a session tells of every unit that failed, and of what it was aborted for. -/
structure Accountable (s : Session Tree Value Listener) : Prop where
  marked : s.cache.Marked
  phases : ∀ d ∈ s.reporter.diagnostics, d.phase ≠ .transform
  error : ∀ id x e, s.cache.standing? id = some x → x.error = some e →
    e.address = x.address ∧ e.In s.reporter.diagnostics ∧
      (e.rootCause.In s.reporter.diagnostics ∨ e.rootCause = s.borrowed)

variable {s t : Session Tree Value Listener} {own : UnitId → Prop} {ds : List Diagnostic}

theorem Accountable.of_reports (h : s.Accountable) (reports : Reports s t own ds)
    (phases : ∀ d ∈ ds, d.phase ≠ .transform) (base : t.baseAddress = s.baseAddress) :
    t.Accountable where
  marked := reports.fails.marked h.marked
  phases := by
    intro d hd
    rw [reports.reporter] at hd
    exact (List.mem_append.mp hd).elim (h.phases d) (phases d)
  error := by
    intro id y e hy he
    have hborrowed : t.borrowed = s.borrowed := by rw [borrowed, base, borrowed]
    rw [reports.reporter, hborrowed]
    rcases reports.fails id y hy with hold | ⟨-, hnone⟩ | ⟨-, e', he', haddress, haccounts⟩
    · obtain ⟨haddress, hin, hroot⟩ := h.error id y e hold he
      have hsub := List.subset_append_left s.reporter.diagnostics ds
      exact ⟨haddress, hin.mono hsub, hroot.imp_left (·.mono hsub)⟩
    · cases hnone.symm.trans he
    · obtain rfl := Option.some.inj (he.symm.trans he')
      have hsub := List.subset_append_right s.reporter.diagnostics ds
      exact ⟨haddress, haccounts.first.among.mono hsub,
        haccounts.root.imp (·.among.mono hsub) (·.2)⟩

variable {registered : List (UnitId × Listener)} {m : Moment Tree Value Listener}

/-- Entering a step fails nothing. -/
theorem Enters.reports (h : Enters s registered m) :
    Reports s m.session (fun _ => False) [] where
  reporter := by cases h <;> exact (congrArg Reporter.mk (List.append_nil _)).symm
  fails := by
    have hfind (address : String) (kind : Kind) :
        s.cache.FailsWith (s.Accounts (fun _ => False) []) (s.find address kind).session.cache := by
      intro id y hy
      obtain ⟨v, hv, rfl⟩ := Option.map_eq_some_iff.mp hy
      rcases get?_find_back hv with hold | rfl
      · exact .inl (Cache.standing?_eq hold)
      · exact .inr (.inl ⟨rfl, rfl⟩)
    cases h with
    | find address kind => exact hfind address kind
    | subscribe address kind unit unsettled listener =>
      exact (hfind address kind).trans <| Cache.failsWith_of_same <| Cache.standing?_modify
        (f := fun u => { u with listeners := u.listeners ++ [listener] }) fun _ _ => rfl
    | evaluate code listener =>
      intro id y hy
      obtain ⟨v, hv, rfl⟩ := Option.map_eq_some_iff.mp hy
      rw [get?_evaluating] at hv
      split at hv
      · obtain rfl := Option.some.inj hv
        exact .inr (.inl ⟨rfl, rfl⟩)
      · exact .inl (Cache.standing?_eq hv)
    | receive => exact Cache.failsWith_of_same fun _ => rfl

end Session

open Session

/-- The record of a loader is only added to, and accounts for its units at every moment. -/
theorem throughout_accountable (ds : List Diagnostic) :
    Throughout fun m : Moment Tree Value (Listener Value) => m.session.tools.Labels →
      m.session.Accountable ∧ ds <+: m.session.reporter.diagnostics where
  apart := by
    intro s t hs happart
    rw [happart]
    intro labels
    obtain ⟨haccountable, hgrows⟩ := hs labels
    exact ⟨haccountable.of_reports (reports_still rfl fun _ => rfl) (by simp)
      rfl, hgrows⟩
  listens := by
    intro s id u listener hu unsettled hs labels
    obtain ⟨haccountable, hgrows⟩ := hs labels
    have hreports : Reports s (s.listening id listener) (fun _ => False) [] :=
      reports_still rfl <| Cache.standing?_modify
        (f := fun u => { u with listeners := u.listeners ++ [listener] }) fun _ _ => rfl
    exact ⟨haccountable.of_reports hreports (by simp) rfl, hgrows⟩
  enters := by
    intro s registered m rest hs henters labels
    have hsetting := henters.sameSetting
    obtain ⟨haccountable, hgrows⟩ := hs (hsetting.tools ▸ labels)
    have hreports := henters.reports
    refine ⟨haccountable.of_reports hreports (by simp) hsetting.baseAddress, ?_⟩
    rw [hreports.reporter]
    exact hgrows.trans (List.prefix_append _ _)
  moves := by
    intro m n sound hm hmove labels
    have hsetting := (hmove.develops sound).setting
    have hlabels : m.session.tools.Labels := hsetting.tools ▸ labels
    obtain ⟨haccountable, hgrows⟩ := hm hlabels
    obtain ⟨own, ds, hreport, hreports⟩ := hmove.reports sound hlabels haccountable.marked
    refine ⟨haccountable.of_reports hreports (fun d hd => hreport.phases hlabels hd)
      hsetting.baseAddress, ?_⟩
    rw [hreports.reporter]
    exact hgrows.trans (List.prefix_append _ _)

/-- On the way of a step a unit is in hand with its text. -/
def Session.HasText {Listener : Type} (s t m : Session Tree Value Listener) (id : UnitId) : Prop :=
  ∃ registered sync first last ahead n, Steps s t registered sync first last ∧
    Moves first ⟨m, ahead, .text id⟩ ∧ Move ⟨m, ahead, .text id⟩ n ∧ Moves n ⟨last, [], .nothing⟩

/-- The first error of a phase that was reported of an address since an earlier session. -/
def Session.FirstSince {Listener : Type} (m t : Session Tree Value Listener) (phase : Phase)
    (address message : String) : Prop :=
  m.reporter.diagnostics <+: t.reporter.diagnostics ∧
    ∃ d, (t.reporter.diagnostics.drop m.reporter.mark.seen).find? (·.isOf phase address) = some d ∧
      d.message = message

section Steps

variable {m n : Moment Tree Value (Listener Value)} {s t r : Session Tree Value (Listener Value)}
  {registered : List (UnitId × Listener Value)} {id : UnitId}

theorem Moves.accountable (hmoves : Moves m n) (sound : m.Sound) (labels : m.session.tools.Labels)
    (h : m.session.Accountable) : n.session.Accountable ∧
      m.session.reporter.diagnostics <+: n.session.reporter.diagnostics := by
  have htools := (Moves.develops hmoves sound).setting.tools
  exact (throughout_accountable _).run_moves sound (fun _ => ⟨h, List.prefix_rfl⟩) hmoves
    (htools ▸ labels)

/-- An error that a unit has after some moves was there before, or one of them gave it. -/
theorem Moves.culprit (hmoves : Moves m n) (sound : m.Sound) (labels : m.session.tools.Labels)
    (h : m.session.Accountable) {y : Standing} {e : LoadError}
    (hy : n.session.cache.standing? id = some y) (he : y.error = some e) :
    m.session.cache.standing? id = some y ∨ ∃ p q own ds, Moves m p ∧ Move p q ∧ Moves q n ∧
      Report p q own ds ∧ Reports p.session q.session own ds ∧
      (∀ x, p.session.cache.standing? id = some x → x ≠ y) ∧ p.session.Accounts own ds id e := by
  induction hmoves with
  | refl => exact .inl hy
  | @tail p q hmoves hmove ih =>
    have hsound := Moves.sound hmoves sound
    have hlabels : p.session.tools.Labels :=
      (Moves.develops hmoves sound).setting.tools ▸ labels
    obtain ⟨hp, -⟩ := Moves.accountable hmoves sound labels h
    obtain ⟨own, ds, hreport, hreports⟩ := hmove.reports hsound hlabels hp.marked
    by_cases hold : p.session.cache.standing? id = some y
    · refine (ih hold).imp_right ?_
      rintro ⟨p', q', own', ds', hbefore, hmove', hafter, hrest⟩
      exact ⟨p', q', own', ds', hbefore, hmove', hafter.tail hmove, hrest⟩
    · rcases hreports.fails id y hy with hold' | ⟨-, hnone⟩ | ⟨-, e', he', -, haccounts⟩
      · exact absurd hold' hold
      · cases hnone.symm.trans he
      · obtain rfl := Option.some.inj (he.symm.trans he')
        refine .inr ⟨p, q, own, ds, hmoves, hmove, .refl, hreport, hreports, ?_, haccounts⟩
        rintro x hx rfl
        exact hold hx

/-- What a step begins with accounts for its units, too. -/
theorem Session.Steps.accountable {sync : Bool} (hsteps : Steps s t registered sync m r) (rest : s.AtRest)
    (labels : s.tools.Labels) (h : s.Accountable) :
    m.Sound ∧ m.session.tools.Labels ∧ m.session.Accountable ∧
      s.reporter.diagnostics <+: m.session.reporter.diagnostics := by
  have hsync := (throughout_accountable s.reporter.diagnostics).apart s { s with sync := sync }
    (fun _ => ⟨h, List.prefix_rfl⟩) rfl
  have hlabels : m.session.tools.Labels := hsteps.enters.sameSetting.tools ▸ labels
  obtain ⟨haccountable, hgrows⟩ := (throughout_accountable s.reporter.diagnostics).enters _ _ _
    (rest.withSync sync) hsync hsteps.enters hlabels
  exact ⟨hsteps.enters.sound (rest.withSync sync), hlabels, haccountable, hgrows⟩

/-- What analysis reports at the barrier stays in the record. -/
theorem Session.Opens.recorded (opens : Opens s t r) (rest : s.AtRest) (labels : s.tools.Labels)
    (h : s.Accountable) : r.Ready ∧ r.tools.Labels ∧ r.Accountable ∧
      s.reporter.diagnostics <+: r.reporter.diagnostics ∧
      r.reporter.diagnostics ++ r.analysis.diagnostics <+: t.reporter.diagnostics := by
  obtain ⟨registered, sync, first, last, ahead, hsteps, hbefore, hreached, hafter⟩ := opens
  obtain ⟨hfirst, hlabels, haccountable, hgrows⟩ := hsteps.accountable rest labels h
  obtain ⟨hr, hkept⟩ := Moves.accountable hbefore hfirst hlabels haccountable
  have hsound := Moves.sound hbefore hfirst
  have hready := hsound.ready hreached
  have htools : r.tools.Labels := (Moves.develops hbefore hfirst).setting.tools ▸ hlabels
  have hpass : Move ⟨r, ahead, .nothing⟩ ⟨r.checkBarrier, ahead, .nothing⟩ := .pass hreached
  obtain ⟨more, -, hreports⟩ := hready.reports hreached hr.marked htools
  have hsettled := Moves.accountable (.single hpass) hsound htools hr
  have hlater := Moves.accountable hafter (hpass.sound hsound)
    ((hpass.develops hsound).setting.tools ▸ htools) hsettled.1
  refine ⟨hready, htools, hr, hgrows.trans hkept, ?_⟩
  rw [hsteps.leaves]
  refine .trans ?_ hlater.2
  rw [hreports.reporter]
  exact ⟨more, by simp [Reporter.reportAll]⟩

theorem Session.Reports.firstSince {m q t : Session Tree Value (Listener Value)}
    {own : UnitId → Prop} {ds : List Diagnostic} (reports : Reports m q own ds)
    (later : q.reporter.diagnostics <+: t.reporter.diagnostics) {e : LoadError}
    (first : e.FirstIn ds) {phase : Phase} {message : String}
    (told : e.told? = some (phase, message)) : FirstSince m t phase e.address message := by
  obtain ⟨d, hd, hm⟩ := first phase message told
  obtain ⟨more, hmore⟩ := later
  have hall : t.reporter.diagnostics = m.reporter.diagnostics ++ (ds ++ more) := by
    rw [← hmore, reports.reporter, Reporter.reportAll, List.append_assoc]
  refine ⟨⟨_, hall.symm⟩, d, ?_, hm⟩
  rw [hall, Reporter.mark, List.drop_left, List.find?_append, hd, Option.some_or]

/-- What fails a unit in a step, if it is an error of a phase. -/
theorem Session.Steps.culprit {sync : Bool} {first : Moment Tree Value (Listener Value)}
    (hsteps : Steps s t registered sync first r) (rest : s.AtRest) (labels : s.tools.Labels)
    (h : s.Accountable) {y : Standing} {e : LoadError} {phase : Phase} {message : String}
    (hy : t.cache.standing? id = some y) (he : y.error = some e)
    (told : e.told? = some (phase, message)) (new : s.cache.standing? id ≠ some y) :
    ∃ p q own ds, Moves first p ∧ Move p q ∧ Moves q ⟨r, [], .nothing⟩ ∧ Report p q own ds ∧
      own id ∧ p.session.tools.Labels ∧ (∃ d ∈ ds, d.phase = phase) ∧
      FirstSince p.session t phase e.address message := by
  obtain ⟨hfirst, hlabels, haccountable, -⟩ := hsteps.accountable rest labels h
  have hlast : r.cache.standing? id = some y := by rwa [hsteps.leaves] at hy
  rcases Moves.culprit (n := ⟨r, [], .nothing⟩) hsteps.moves hfirst hlabels haccountable hlast he
    with hold | ⟨p, q, own, ds, hbefore, hmove, hafter, hreport, hreports, -, haccounts⟩
  · rcases hsteps.enters.reports.fails id y hold with
      hs | ⟨-, hnone⟩ | ⟨-, e', he', -, haccounts⟩
    · exact absurd hs new
    · cases hnone.symm.trans he
    · obtain rfl := Option.some.inj (he.symm.trans he')
      obtain ⟨d, hd, -⟩ := haccounts.first phase message told
      cases hd
  · have hp := Moves.accountable hbefore hfirst hlabels haccountable
    have hsound := Moves.sound hbefore hfirst
    have hq := Moves.accountable (.single hmove) hsound
      ((Moves.develops hbefore hfirst).setting.tools ▸ hlabels) hp.1
    have htools : p.session.tools.Labels := (Moves.develops hbefore hfirst).setting.tools ▸ hlabels
    have hkept := Moves.accountable hafter (hmove.sound hsound)
      ((hmove.develops hsound).setting.tools ▸ htools) hq.1
    obtain ⟨d, hd, hm⟩ := haccounts.first phase message told
    have hof := List.find?_some hd
    simp only [Diagnostic.isOf, Bool.and_eq_true, decide_eq_true_eq] at hof
    have hroot : e.isAborted = false := by
      cases e <;> first | rfl | cases told
    refine ⟨p, q, own, ds, hbefore, hmove, hafter, hreport, haccounts.own hroot, htools,
      ⟨d, List.mem_of_find?_eq_some hd, hof.1.2⟩, ?_⟩
    refine hreports.firstSince ?_ haccounts.first told
    rw [hsteps.leaves]
    exact hkept.2

/-- A unit that a step fails in parsing or analysis: the phase had it in hand, or in its batch,
and nothing else was reported first of it since the phase began. -/
theorem Session.AtRest.firstSince (rest : s.AtRest) (labels : s.tools.Labels) (h : s.Accountable)
    (step : Advance s t) {y : Standing} (hy : t.cache.standing? id = some y)
    (new : s.cache.standing? id ≠ some y) {message : String} :
    (y.error = some (.parse y.address message) →
      ∃ m, HasText s t m id ∧ FirstSince m t .parse y.address message) ∧
    (y.error = some (.analysis y.address message) →
      ∃ m, Opens s t m ∧ FirstSince m t .analyze y.address message) := by
  obtain ⟨registered, sync, first, last, hsteps⟩ := rest.steps step
  constructor
  · intro he
    obtain ⟨p, q, own, ds, hbefore, hmove, hafter, hreport, hown, htools, ⟨d, hd, hphase⟩, hsince⟩ :=
      hsteps.culprit rest labels h hy he rfl new
    cases hreport with
    | nothing => cases hd
    | refused => simp [List.mem_singleton.mp hd, Diagnostic.ofUnit] at hphase
    | read unit =>
      obtain rfl := hown
      exact ⟨_, ⟨registered, sync, first, last, _, q, hsteps, hbefore, hmove, hafter⟩, hsince⟩
    | passed reached later =>
      rcases List.mem_append.mp hd with hd | hd
      · simp [htools.ofAnalysis _ _ d hd] at hphase
      · simp [later d hd] at hphase
  · intro he
    obtain ⟨p, q, own, ds, hbefore, hmove, hafter, hreport, hown, htools, ⟨d, hd, hphase⟩, hsince⟩ :=
      hsteps.culprit rest labels h hy he rfl new
    cases hreport with
    | nothing => cases hd
    | refused => simp [List.mem_singleton.mp hd, Diagnostic.ofUnit] at hphase
    | read unit => simp [(htools.ofParse _ _ d hd).1] at hphase
    | passed reached later =>
      exact ⟨_, ⟨registered, sync, first, last, _, hsteps, hbefore, reached, hafter⟩, hsince⟩

end Steps

namespace Host

variable {ledger : List Registration} {h : Host Tree Value} {loader : Nat}
  {s : Session Tree Value (Listener Value)}

theorem Run.accountable (run : Run ledger h) (hs : h.session? loader = some s)
    (labels : s.tools.Labels) : s.Accountable := by
  have hthroughout := (throughout_accountable []).run (fun setup ns _ => ?_) run hs
  · exact (hthroughout labels).1
  · refine ⟨⟨fun id x hx => ?_, fun d hd => ?_, fun id x e hx => ?_⟩, List.nil_prefix⟩
    · cases hx
    · cases hd
    · cases hx

end Host

end UnitLoader
