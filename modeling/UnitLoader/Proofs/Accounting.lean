import UnitLoader.Proofs.Borrowing
import UnitLoader.Proofs.Delivery
import UnitLoader.Proofs.Records
import UnitLoader.Text.Unicode

/-! What can be found in the record of a loader once a listener is told of a failure. The record
holds the cause of it, unless that is the namespace which somebody else was reading. -/

namespace UnitLoader

variable {Tree Value : Type}

namespace Session

variable {Listener : Type} {s t : Session Tree Value Listener} {own : UnitId → Prop}
  {ds : List Diagnostic}

/-- The record tells of whatever units failed for in the end. -/
def Told (s : Session Tree Value Listener) : Prop :=
  ∀ id x e, s.cache.standing? id = some x → x.error = some e →
    e.rootCause.In s.reporter.diagnostics

theorem Told.of_reports (h : s.Told) (reports : Reports s t own ds) (free : s.held = false) :
    t.Told := by
  intro id y e hy he
  rw [reports.reporter]
  rcases reports.fails id y hy with hold | ⟨-, hnone⟩ | ⟨-, e', he', -, haccounts⟩
  · exact (h id y e hold he).mono (List.subset_append_left _ _)
  · cases hnone.symm.trans he
  · obtain rfl := Option.some.inj (he.symm.trans he')
    refine (haccounts.root.resolve_right fun hheld => ?_).among.mono (List.subset_append_right _ _)
    cases free.symm.trans hheld.1

end Session

open Session

variable {m n : Moment Tree Value (Listener Value)} {s t : Session Tree Value (Listener Value)}

theorem Moves.told (hmoves : Moves m n) (sound : m.Sound) (labels : m.session.tools.Labels)
    (free : m.session.held = false) (h : m.session.Accountable) (told : m.session.Told) :
    n.session.Told := by
  induction hmoves with
  | refl => exact told
  | tail hmoves hmove ih =>
    have hsetting := (Moves.develops hmoves sound).setting
    obtain ⟨hp, -⟩ := Moves.accountable hmoves sound labels h
    obtain ⟨own, ds, -, hreports⟩ :=
      hmove.reports (Moves.sound hmoves sound) (hsetting.tools ▸ labels) hp.marked
    exact ih.of_reports hreports (hsetting.held.trans free)

theorem Session.AtRest.told_advance (rest : s.AtRest) (labels : s.tools.Labels)
    (free : s.held = false) (h : s.Accountable) (told : s.Told) (step : Advance s t) : t.Told := by
  obtain ⟨registered, sync, m, last, hsteps⟩ := rest.steps step
  obtain ⟨hfirst, hlabels, haccountable, -⟩ := hsteps.accountable rest labels h
  have hfree : m.session.held = false := hsteps.enters.sameSetting.held.trans free
  have htold : m.session.Told := by
    refine Told.of_reports (s := { s with sync := sync }) ?_
      hsteps.enters.reports free
    exact told
  have hlast := Moves.told hsteps.moves hfirst hlabels hfree haccountable htold
  rw [hsteps.leaves]
  exact hlast

theorem Session.AtRest.told_alters (rest : s.AtRest) (labels : s.tools.Labels)
    (free : s.held = false) (h : s.Accountable) (told : s.Told) {sharing : Bool}
    {defined : List (Deed Value)} (halters : Session.Alters sharing s defined t) : t.Told := by
  cases halters with
  | act step => exact rest.told_advance labels free h told step.advance
  | listen unit unsettled listener =>
    refine told.of_reports (reports_still rfl ?_) free
    exact Cache.standing?_modify
      (f := fun u => { u with listeners := u.listeners ++ [listener] }) fun _ _ => rfl
  | define free name value => exact told
  | beside change =>
    rw [change.same]
    exact told
  | shared shares ns held => exact told

/-- Only what takes a session through its moves changes how its units stand. -/
theorem Session.Alters.standing?_or {sharing : Bool} {defined : List (Deed Value)}
    (halters : Session.Alters sharing s defined t) :
    Advance s t ∨ ∀ id, t.cache.standing? id = s.cache.standing? id := by
  cases halters with
  | act step => exact .inl step.advance
  | listen unit unsettled listener =>
    exact .inr <| Cache.standing?_modify
      (f := fun u => { u with listeners := u.listeners ++ [listener] }) fun _ _ => rfl
  | define free name value => exact .inr fun _ => rfl
  | beside change => exact .inr fun _ => by rw [change.apart.cache]
  | shared shares ns held => exact .inr fun _ => rfl

namespace Host

variable {ledger : List Registration} {h : Host Tree Value} {loader : Nat}

theorem Unheld.told (unheld : Unheld loader h) (hs : h.session? loader = some s)
    (labels : s.tools.Labels) : s.Told := by
  refine (unheld.holds (P := fun s => s.tools.Labels → s.Accountable ∧ s.Told) ?_ ?_ ?_ hs
    labels).2
  · refine fun setup ns _ => ⟨⟨?_, ?_, ?_⟩, ?_⟩
    · exact fun id x hx => absurd hx (Option.some_ne_none x).symm
    · exact fun d hd => absurd hd List.not_mem_nil
    · exact fun id x e hx => absurd hx (Option.some_ne_none x).symm
    · exact fun id x e hx => absurd hx (Option.some_ne_none x).symm
  · intro s t ih happart labels
    rw [happart] at labels ⊢
    obtain ⟨haccountable, htold⟩ := ih labels
    exact ⟨haccountable.of_reports (reports_still rfl fun _ => rfl) (by simp)
      rfl, htold⟩
  · intro s t sharing defined rest free ih halters labels
    have hlabels : s.tools.Labels := (lasting_tools s.tools).alters rest rfl halters ▸ labels
    obtain ⟨haccountable, htold⟩ := ih hlabels
    refine ⟨?_, rest.told_alters hlabels free haccountable htold halters⟩
    exact ((throughout_accountable []).alters rest (fun _ => ⟨haccountable, List.nil_prefix⟩)
      halters labels).1

/-- What the record of a loader tells its listeners. -/
structure Accounts (h : Host Tree Value) (loader : Nat) (s : Session Tree Value (Listener Value)) :
    Prop where
  unit : ∀ id u e, s.cache.get? id = some u → u.error = some e →
    e.address = u.address ∧ e.In s.reporter.diagnostics
  listener : ∀ call ∈ h.called ++ h.due, call.1.loader = loader → ∀ e, call.2 = .failed e →
    e.In s.reporter.diagnostics ∧
      (e.rootCause.In s.reporter.diagnostics ∨ e.rootCause = s.borrowed)
  outbox : ∀ n ∈ s.outbox, ∀ e, n.outcome = .failed e → e.In s.reporter.diagnostics ∧
    (e.rootCause.In s.reporter.diagnostics ∨ e.rootCause = s.borrowed)
  unheld : Unheld loader h →
    (∀ call ∈ h.called ++ h.due, call.1.loader = loader → ∀ e, call.2 = .failed e →
      e.rootCause.In s.reporter.diagnostics) ∧
    ∀ n ∈ s.outbox, ∀ e, n.outcome = .failed e → e.rootCause.In s.reporter.diagnostics
  kept : ∀ h' t, Leads h h' → h'.session? loader = some t →
    s.reporter.diagnostics <+: t.reporter.diagnostics
  since : ∀ t, h.tick.session? loader = some t → ∀ id v message, t.cache.get? id = some v →
    s.cache.isIn .error id = false →
      (v.error = some (.parse v.address message) →
        ∃ m, HasText s t m id ∧ FirstSince m t .parse v.address message) ∧
      (v.error = some (.analysis v.address message) →
        ∃ m, Opens s t m ∧ FirstSince m t .analyze v.address message)

theorem Run.accountable_shown (run : Run ledger h) (hs : h.session? loader = some s)
    (labels : s.tools.Labels) {id : UnitId} {e : LoadError} (shows : s.Shows id (.failed e)) :
    e.In s.reporter.diagnostics ∧
      (e.rootCause.In s.reporter.diagnostics ∨ e.rootCause = s.borrowed) ∧
      (s.Told → e.rootCause.In s.reporter.diagnostics) := by
  obtain ⟨u, hu, -, he⟩ := shows
  have hstanding := Cache.standing?_eq hu
  obtain ⟨-, hin, hroot⟩ := (run.accountable hs labels).error id _ e hstanding he
  exact ⟨hin, hroot, fun told => told id _ e hstanding he⟩

/-- Whenever a phase fails a unit, the record of the loader has the error by the time a listener
is told, and it is the first of that unit since the phase began. -/
theorem Run.accounts_of_labels (run : Run ledger h) (hs : h.session? loader = some s)
    (labels : s.tools.Labels) : Accounts h loader s where
  unit := by
    intro id u e hu he
    obtain ⟨haddress, hin, -⟩ := (run.accountable hs labels).error id _ e (Cache.standing?_eq hu) he
    exact ⟨haddress, hin⟩
  listener := by
    intro call hcall hloader e he
    obtain ⟨s', hs', hshows⟩ := run.orderly.shown call hcall
    rw [hloader] at hs'
    obtain rfl := Option.some.inj (hs.symm.trans hs')
    obtain ⟨hin, hroot, -⟩ := run.accountable_shown hs labels (he ▸ hshows)
    exact ⟨hin, hroot⟩
  outbox := by
    intro n hn e he
    have hshows := (run.orderly.rest loader s hs).sound.outbox n hn
    obtain ⟨hin, hroot, -⟩ := run.accountable_shown hs labels (he ▸ hshows)
    exact ⟨hin, hroot⟩
  unheld := by
    intro unheld
    have htold := unheld.told hs labels
    refine ⟨fun call hcall hloader e he => ?_, fun n hn e he => ?_⟩
    · obtain ⟨s', hs', hshows⟩ := run.orderly.shown call hcall
      rw [hloader] at hs'
      obtain rfl := Option.some.inj (hs.symm.trans hs')
      exact (run.accountable_shown hs labels (he ▸ hshows)).2.2 htold
    · have hshows := (run.orderly.rest loader s hs).sound.outbox n hn
      exact (run.accountable_shown hs labels (he ▸ hshows)).2.2 htold
  kept := by
    intro h' t later ht
    obtain ⟨t', ht', htools⟩ := run.lasting (lasting_tools s.tools) hs rfl later
    obtain rfl := Option.some.inj (ht.symm.trans ht')
    obtain ⟨t', ht', hgrows⟩ := run.throughout (throughout_accountable s.reporter.diagnostics) hs
      (fun _ => ⟨run.accountable hs labels, List.prefix_rfl⟩) later
    obtain rfl := Option.some.inj (ht.symm.trans ht')
    exact (hgrows (htools ▸ labels)).2
  since := by
    intro t ht id v message hv new
    have hrest := run.orderly.rest loader s hs
    have haccountable := run.accountable hs labels
    obtain ⟨seat, hseat, rfl⟩ := seat_of_session? hs
    obtain ⟨seat', hseat', -, halters⟩ := h.alters_tick.seat loader seat hseat
    obtain rfl := Option.some.inj ((session?_eq hseat').symm.trans ht)
    have hy := Cache.standing?_eq hv
    have hnew (e : LoadError) (he : v.error = some e) :
        seat.session.cache.standing? id ≠ some v.standing := by
      intro hold
      have hfailed := haccountable.marked id _ hold
      obtain ⟨u, hu, hstanding⟩ := Option.map_eq_some_iff.mp hold
      have hstate : decide (u.state = .error) = true := by
        have : u.standing.failed = true := by
          rw [hstanding, ← hfailed]
          simp [SourceUnit.standing, he]
        exact this
      rw [Cache.isIn_eq hu, hstate] at new
      cases new
    rcases halters.standing?_or with step | hsame
    · constructor
      · intro he
        exact (hrest.firstSince labels haccountable step hy (hnew _ he)).1 he
      · intro he
        exact (hrest.firstSince labels haccountable step hy (hnew _ he)).2 he
    · constructor <;> exact fun he => absurd ((hsame id).symm.trans hy) (hnew _ he)

/-- Where everything runs by the plain toolchain, the record tells why units failed. -/
theorem Run.accounts [Text.Xid] {h : Host Program UnitLoader.Value}
    {s : Session Program UnitLoader.Value (Listener UnitLoader.Value)} (run : Run ledger h)
    (hs : h.session? loader = some s) (plain : s.tools = Lang.toolchain) : Accounts h loader s :=
  run.accounts_of_labels hs (plain ▸ Lang.labels_toolchain)

/-- The script is about to fail in analysis, its import is loaded already. -/
def unexportedHost : Host Program UnitLoader.Value :=
  ((ofSeats [⟨opened unexportedName .empty, false, false⟩]).take 9
    (.request 0 (.loadSync "/a" .module))).2.first
    [.carryOut (.subscribe 0 (.eval "import x from \"/a\"\nx") "script" [])]

/-- What a listener is told of a failed analysis is on record, and was the first of its batch. -/
theorem Run.accounts_unexportedHost :
    ∃ (s t m q : Session Program UnitLoader.Value (UnitLoader.Listener UnitLoader.Value))
      (e : LoadError), unexportedHost.session? 0 = some s ∧ s.tools = Lang.toolchain ∧
        e = .analysis "/#eval-0" "module '/a' has no export 'x' (available: y)" ∧
        Opens s t m ∧ FirstSince m t .analyze "/#eval-0"
          "module '/a' has no export 'x' (available: y)" ∧
        unexportedHost.tick.tick.due.map (·.2) = [.failed e] ∧
        unexportedHost.tick.tick.session? 0 = some q ∧ e.In q.reporter.diagnostics := by
  have joined : Run [] (ofSeats [⟨opened unexportedName .empty, false, false⟩]) :=
    Run.empty.join unexportedName false rfl
  obtain ⟨ledger, run⟩ : ∃ ledger, Run ledger unexportedHost :=
    joined.leads ((leads_take _ _ _).tail (.ask _))
  obtain ⟨s, hs, hplain⟩ : ∃ s, unexportedHost.session? 0 = some s ∧ s.tools = Lang.toolchain :=
    joined.lasting (lasting_tools Lang.toolchain) rfl rfl ((leads_take _ _ _).tail (.ask _))
  obtain ⟨t, ht, -⟩ := run.lasting (lasting_tools Lang.toolchain) hs hplain (.single .tick)
  obtain ⟨q, hq, hplainq⟩ :=
    run.lasting (lasting_tools Lang.toolchain) hs hplain (.tail (.single .tick) .tick)
  have hfresh : (unexportedHost.session? 0).map (·.cache.isIn .error ⟨1⟩) = some false := by
    decide +kernel
  have hfails : ((unexportedHost.tick.session? 0).bind (·.cache.get? ⟨1⟩)).map
      (fun v => (v.address, v.error)) = some ("/#eval-0",
        some (.analysis "/#eval-0" "module '/a' has no export 'x' (available: y)")) := by
    decide +kernel
  have hdue : unexportedHost.tick.tick.due.map (fun call => (call.1.loader, call.2)) =
      [(0, .failed (.analysis "/#eval-0" "module '/a' has no export 'x' (available: y)"))] := by
    decide +kernel
  rw [hs] at hfresh
  rw [ht] at hfails
  obtain ⟨v, hv, hstanding⟩ := Option.map_eq_some_iff.mp hfails
  obtain ⟨haddress, herror⟩ := Prod.mk.inj hstanding
  obtain ⟨-, hanalysis⟩ := (Run.accounts run hs hplain).since t ht ⟨1⟩ v
    "module '/a' has no export 'x' (available: y)" hv (Option.some.inj hfresh)
  rw [haddress] at hanalysis
  obtain ⟨m, hopens, hfirst⟩ := hanalysis herror
  obtain ⟨call, hcall, hpair⟩ := List.mem_map.mp (hdue ▸ List.mem_cons_self)
  obtain ⟨hloader, houtcome⟩ := Prod.mk.inj hpair
  obtain ⟨hin, -⟩ := (Run.accounts run.tick.tick hq hplainq).listener call
    (List.mem_append_right _ hcall) hloader _ houtcome
  refine ⟨s, t, m, q, _, hs, hplain, rfl, hopens, hfirst, ?_, hq, hin⟩
  have houtcomes := congrArg (List.map Prod.snd) hdue
  simpa [Function.comp_def] using houtcomes

/-- A listener may be told of a cause that is not on record: the namespace was read when its batch
was to be evaluated. -/
theorem Run.unrecorded_of_held :
    ∃ (ledger : List Registration) (h : Host Program UnitLoader.Value)
      (s : Session Program UnitLoader.Value (UnitLoader.Listener UnitLoader.Value)),
      Run ledger h ∧ h.session? 0 = some s ∧ s.tools = Lang.toolchain ∧
        h.called.map (·.2) = [.failed (.aborted "/#eval-0"
          (.execution "/" "execution namespace is already borrowed"))] ∧
        s.reporter.diagnostics = [] ∧
        ¬ ∀ call ∈ h.called, ∀ e, call.2 = .failed e → e.rootCause.In s.reporter.diagnostics := by
  have joined : Run [] (ofSeats [⟨opened unexportedName .empty, false, false⟩]) :=
    Run.empty.join unexportedName false rfl
  have asked := joined.ask (.hold 0 [.subscribe 0 (.eval "1") "script" []])
  obtain ⟨ledger, run⟩ := asked.leads (leads_run _ 4)
  generalize hh : Host.run 4 _ = h at run
  obtain ⟨s, hs, hplain⟩ : ∃ s, h.session? 0 = some s ∧ s.tools = Lang.toolchain :=
    asked.lasting (lasting_tools Lang.toolchain) rfl rfl (hh ▸ leads_run _ 4)
  obtain ⟨hcalled, hnone⟩ : h.called.map (·.2) = [.failed (.aborted "/#eval-0"
      (.execution "/" "execution namespace is already borrowed"))] ∧
      (h.session? 0).map (·.reporter.diagnostics) = some [] := by
    rw [← hh]
    decide +kernel
  rw [hs] at hnone
  have hempty : s.reporter.diagnostics = [] := Option.some.inj hnone
  refine ⟨ledger, h, s, run, hs, hplain, hcalled, hempty, fun hall => ?_⟩
  obtain ⟨call, hcall, houtcome⟩ := List.mem_map.mp (hcalled ▸ List.mem_cons_self)
  obtain ⟨d, hd, -⟩ := hall call hcall _ houtcome .evaluate _ rfl
  rw [hempty] at hd
  cases hd

end Host

end UnitLoader
