import UnitLoader.Proofs.Records
import UnitLoader.Text.Unicode

/-! Batches of the plain language and their analysis. They pass it exactly when they are sound,
as no two of their modules are at one address. Whatever name one of their units imports, its module
is known by then, so that transforming them has nothing to report. -/

namespace UnitLoader

variable {Listener : Type}

namespace Build

variable {Tree Value : Type} (b : Build Tree Value Listener) (ids : List UnitId) (phase : Phase)
  (mark : Mark)

theorem failed_check_iff :
    (b.check ids phase mark).failed = none ↔ b.reporter.errorsSince mark = [] := by
  simp only [check]
  cases b.reporter.errorsSince mark <;> simp

theorem project_check : (b.check ids phase mark).build.project = b.project := by
  simp only [check]
  split <;> rfl

end Build

namespace Session

/-- What is analysed is transformed without a word. -/
structure Lowers (s : Session Program Value Listener) (b : Build Program Value Listener) :
    Prop where
  known : ∀ id u tree, b.cache.get? id = some u → u.state = .parsed → u.tree = some tree →
    ∀ line ∈ tree.lines, ∀ names specifier, line.stmt = .imports names specifier → names ≠ [] →
      b.project.hasModule (b.project.resolve specifier u.address) = true
  passed : (b.transform s.tools s.cache.ids).failed = none
  silent : (b.transform s.tools s.cache.ids).build.reporter = b.reporter

variable {s : Session Program Value Listener}

theorem analysis_eq [Text.Xid] (plain : s.tools = Lang.toolchain) :
    s.analysis = Linking.analyze s.batchTargets s.project := by
  rw [analysis, plain]
  rfl

theorem Ready.lowers_of_clean [Text.Xid] (ready : s.Ready) (plain : s.tools = Lang.toolchain)
    (clean : ∀ d ∈ s.analysis.diagnostics, d.isError = false) :
    s.Lowers s.analysedSession.toBuild := by
  have hnone := lowering_diagnostics (plain ▸ Lang.labels_toolchain) clean
  have herrors : s.loweredSession.toBuild.reporter.errorsSince s.analysedSession.reporter.mark =
      [] := by
    rw [lowering_errors, hnone, List.filter_nil]
  have htransform := ready.transform_eq
  rw [Build.check_of_no_errors herrors] at htransform
  refine ⟨fun id u tree hu parsed htree line hl names specifier imports named => ?_, ?_, ?_⟩
  · show s.analysis.value.hasModule (s.analysis.value.resolve specifier u.address) = true
    rw [analysis_eq plain] at clean ⊢
    have htarget : ⟨u.address, u.kind, tree⟩ ∈ s.batchTargets :=
      List.mem_map.mpr ⟨(id, _), Build.mem_targets.mpr ⟨u, tree, hu, parsed, htree, rfl⟩, rfl⟩
    exact Linking.hasModule_of_clean clean htarget hl imports named
  · rw [htransform]
  · rw [htransform]
    simp [loweredSession, hnone, Reporter.reportAll]

/-- What fails the analysis of a batch at the barrier is an error that was found in it. -/
theorem Ready.passes_iff [Text.Xid] (ready : s.Ready) (plain : s.tools = Lang.toolchain) :
    (s.toBuild.analyze s.tools s.cache.ids).failed = none ↔
      Linking.Passes s.batchTargets s.project := by
  rw [ready.analyze_eq, Build.failed_check_iff]
  have herrors := analysis_errors (s := s)
  rw [analysis_eq plain] at herrors
  rw [show s.analysedSession.toBuild.reporter.errorsSince s.reporter.mark = _ from herrors,
    List.filter_eq_nil_iff]
  simp only [Bool.not_eq_true]
  rfl

/-- A batch at the barrier that no check of its analysis fails. -/
theorem Ready.lowers [Text.Xid] (ready : s.Ready) (plain : s.tools = Lang.toolchain)
    (passed : (s.toBuild.analyze s.tools s.cache.ids).failed = none) :
    s.Lowers (s.toBuild.analyze s.tools s.cache.ids).build := by
  have hclean := (ready.passes_iff plain).mp passed
  rw [ready.analyze_eq, Build.failed_check_iff] at passed
  rw [ready.analyze_eq, Build.check_of_no_errors passed]
  refine ready.lowers_of_clean plain ?_
  rw [analysis_eq plain]
  exact hclean

end Session

open Session

namespace Host

variable {ledger : List Registration} {h : Host Program UnitLoader.Value} {loader : Nat}
  {s : Session Program UnitLoader.Value (UnitLoader.Listener UnitLoader.Value)}

/-- Whenever the barrier opens, the batch passes its analysis exactly when it is sound. Each module
of it then adds its exports to those that its address had, and where no unit of it is, nothing
changes. -/
theorem Run.batch_verdict [Text.Xid] (run : Run ledger h) (hs : h.session? loader = some s)
    (plain : s.tools = Lang.toolchain)
    {t m : Session Program UnitLoader.Value (UnitLoader.Listener UnitLoader.Value)}
    (opens : Opens s t m) :
    ((m.toBuild.analyze m.tools m.cache.ids).failed = none ↔
      Linking.Sound m.project m.batchTargets) ∧
    (∀ target ∈ m.batchTargets, target.kind = .module →
      (m.toBuild.analyze m.tools m.cache.ids).build.project.module? target.address =
        some ⟨target.address,
          Linking.exportsWith (m.project.exportsOf target.address) target⟩) ∧
    ∀ address, (∀ target ∈ m.batchTargets, target.address ≠ address) →
      (m.toBuild.analyze m.tools m.cache.ids).build.project.module? address =
        m.project.module? address := by
  have hrest := run.orderly.rest loader s hs
  obtain ⟨seat, hseat, rfl⟩ := Option.map_eq_some_iff.mp hs
  obtain ⟨deeds, chronicle⟩ := run.chronicle loader
  have hprovenance := (chronicle.regular hseat plain).toProvenance
  obtain ⟨ahead, hm⟩ := (lasting_provenance _).throughout.opens hrest hprovenance opens
  obtain ⟨written, later, -, -, ready, -⟩ := opens.writes hrest
  have htools : m.tools = Lang.toolchain := hm.plain.tools
  have hproject : (m.toBuild.analyze m.tools m.cache.ids).build.project =
      (Linking.analyze m.batchTargets m.project).value := by
    rw [ready.analyze_eq, Build.project_check, ← analysis_eq htools]
    rfl
  rw [hproject, ready.passes_iff htools, Linking.passes_iff hm.modulesApart]
  exact ⟨Iff.rfl, fun target ht kind => Linking.module?_of_alone hm.modulesApart ht (.inl kind),
    fun address => Linking.module?_of_not_mem⟩

/-- No loader of the plain language reports anything while it transforms, and no unit ever
fails for that: whenever the barrier opens and the analysis of the batch passes, each module
that one of its units imports a name from is known, and the batch is transformed. -/
theorem Run.lowers_cleanly [Text.Xid] (run : Run ledger h) (hs : h.session? loader = some s)
    (plain : s.tools = Lang.toolchain) :
    (∀ d ∈ s.reporter.diagnostics, d.phase ≠ .transform) ∧
    (∀ id u e, s.cache.get? id = some u → u.error = some e →
      ∀ address message, e.rootCause ≠ .transform address message) ∧
    ∀ t, h.tick.session? loader = some t → ∀ m, Opens s t m →
      (m.toBuild.analyze m.tools m.cache.ids).failed = none →
        m.Lowers (m.toBuild.analyze m.tools m.cache.ids).build := by
  have haccountable := run.accountable hs (plain ▸ Lang.labels_toolchain)
  have hrest := run.orderly.rest loader s hs
  refine ⟨haccountable.phases, fun id u e hu he address message hroot => ?_,
    fun t ht m opens passed => ?_⟩
  · obtain ⟨-, -, hin⟩ := haccountable.error id _ e (Cache.standing?_eq hu) he
    rw [hroot] at hin
    rcases hin with hin | hborrowed
    · obtain ⟨d, hd, hof, -⟩ := hin .transform message rfl
      simp only [Diagnostic.isOf, Bool.and_eq_true, decide_eq_true_eq] at hof
      exact haccountable.phases d hd hof.1.2
    · cases hborrowed
  · obtain ⟨written, later, -, -, ready, -⟩ := opens.writes hrest
    obtain ⟨ahead, htools⟩ :=
      (lasting_tools Lang.toolchain).throughout.opens hrest plain opens
    exact ready.lowers htools passed

def mutualModules : Setup Program UnitLoader.Value :=
  .plain Lang.toolchain .default (.ofList
    [("/main", .ok "import x from \"/a\"\nx"),
      ("/a", .ok "import y from \"/b\"\nexport x = y"),
      ("/b", .ok "import \"/a\"\nexport y = 1")] false)

/-- A script that imports a name from one of two modules that import each other. -/
theorem Run.lowers_cleanly_mutually :
    ∃ s t m : Session Program UnitLoader.Value (UnitLoader.Listener UnitLoader.Value),
      s.tools = Lang.toolchain ∧ Opens s t m ∧
      (m.toBuild.analyze m.tools m.cache.ids).failed = none ∧
      m.Lowers (m.toBuild.analyze m.tools m.cache.ids).build ∧
      t.history.filterMap Event.transformed? = [⟨2⟩, ⟨1⟩, ⟨0⟩] := by
  have run := (Run.empty.join mutualModules false rfl).ask (.request 0 (.loadSync "/main" .script))
  obtain ⟨s, hs⟩ : ∃ s, opened mutualModules .empty = s := ⟨_, rfl⟩
  obtain ⟨t, ht⟩ : ∃ t, (s.loadSync "/main" .script).session = t := ⟨_, rfl⟩
  have hplain : s.tools = Lang.toolchain := by rw [← hs]; rfl
  have hfresh : s.history = [] := by rw [← hs]; rfl
  generalize hh : Host.first _ _ = h at run
  have hsession : h.session? 0 = some s := by rw [← hh, ← hs]; rfl
  obtain ⟨-, -, hlowers⟩ := Run.lowers_cleanly run hsession hplain
  have hrest := run.orderly.rest 0 s hsession
  obtain ⟨events, hhistory, hopens⟩ := hrest.opens
    (show Advance s t by rw [← ht]; exact .loadSync s "/main" .script)
  obtain ⟨hnone, hanalysed, hunits⟩ : t.reporter.diagnostics = [] ∧
      t.history.any Event.isAnalysis = true ∧
      t.history.filterMap Event.transformed? = [⟨2⟩, ⟨1⟩, ⟨0⟩] := by
    rw [← ht, ← hs]
    decide +kernel
  rw [hhistory, hfresh, List.nil_append] at hanalysed
  obtain ⟨e, he, hanalysis⟩ := List.any_eq_true.mp hanalysed
  cases e <;> simp only [Event.isAnalysis, Bool.false_eq_true] at hanalysis
  obtain ⟨before, after, hsplit⟩ := List.append_of_mem he
  obtain ⟨m, opens, -⟩ := hopens _ _ _ _ hsplit
  have labels : s.tools.Labels := hplain ▸ Lang.labels_toolchain
  obtain ⟨ready, -, -, -, hrecorded⟩ := opens.recorded hrest labels (run.accountable hsession labels)
  rw [hnone] at hrecorded
  have hclean : m.analysis.diagnostics = [] :=
    (List.append_eq_nil_iff.mp (List.prefix_nil.mp hrecorded)).2
  have hpassed : (m.toBuild.analyze m.tools m.cache.ids).failed = none := by
    rw [ready.analyze_eq, Build.check_of_no_errors]
    rw [analysis_errors, hclean, List.filter_nil]
  exact ⟨s, t, m, hplain, opens, hpassed,
    hlowers t (by rw [← hh, ← ht, ← hs]; rfl) m opens hpassed, hunits⟩

end Host

end UnitLoader
