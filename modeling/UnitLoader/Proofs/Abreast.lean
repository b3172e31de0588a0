import UnitLoader.Proofs.Loading
import UnitLoader.Proofs.Reporting
import UnitLoader.Proofs.Untroubled

/-! Two sessions that are taken through the same work. As long as no stage behind parsing reports
an error in either of them, they stay alike: the same units wait for the same answers, and the
same units are executed in the same order. -/

namespace UnitLoader

variable {Tree Value Listener : Type}

/-! ### Fetchers -/

/-- Answers that are both failures, or texts that stand for each other. -/
inductive AnswersAlike (R : String → String → Prop) :
    Except FetchError String → Except FetchError String → Prop
  | text {text text' : String} (texts : R text text') : AnswersAlike R (.ok text) (.ok text')
  | failure (e e' : FetchError) : AnswersAlike R (.error e) (.error e')

structure Completion.Alike (R : String → String → Prop) (c c' : Completion) : Prop where
  unit : c.unit = c'.unit
  address : c.address = c'.address
  result : AnswersAlike R c.result c'.result

namespace Fetcher

/-- Fetchers that differ in their texts only. -/
structure Alike (R : String → String → Prop) (f f' : Fetcher) : Prop where
  answer : ∀ address, AnswersAlike R (f.answer address) (f'.answer address)
  reach : f.reach = f'.reach
  prompt : f.prompt = f'.prompt
  log : f.log = f'.log
  parked : f.parked = f'.parked

variable {R : String → String → Prop} {f f' : Fetcher}

theorem Alike.note (h : Alike R f f') (address : String) :
    Alike R (f.note address) (f'.note address) :=
  { h with log := by rw [Fetcher.note, Fetcher.note, h.log] }

theorem Alike.park (h : Alike R f f') (unit : UnitId) (address : String) :
    Alike R (f.park unit address) (f'.park unit address) :=
  { h with parked := by rw [Fetcher.park, Fetcher.park, h.parked] }

theorem Alike.cancel (h : Alike R f f') (unit : UnitId) :
    Alike R (f.cancel unit) (f'.cancel unit) :=
  { h with parked := by rw [Fetcher.cancel, Fetcher.cancel, h.parked] }

theorem Alike.insert (h : Alike R f f') (address : String) {text text' : String}
    (texts : R text text') : Alike R (f.insert address text) (f'.insert address text') where
  answer := by
    intro a
    simp only [Fetcher.insert]
    split
    · exact .text texts
    · exact h.answer a
  reach := by rw [Fetcher.insert, Fetcher.insert, h.reach]
  prompt := h.prompt
  log := h.log
  parked := h.parked

end Fetcher

/-! ### Sessions -/

namespace Session

/-- Sessions of one toolchain that wait for the same and have done the same, with texts that
stand for each other. -/
structure Alike (R : String → String → Prop) (L : Listener → Listener → Prop)
    (s s' : Session Tree Value Listener) : Prop where
  tools : s'.tools = s.tools
  staged : s.tools.Staged
  build : s.toBuild.Alike s.tools L s'.toBuild
  translate : ∀ text text', R text text' →
    s.tools.ReadsAlike (s.translate text) (s'.translate text')
  baseAddress : s.baseAddress = s'.baseAddress
  sync : s.sync = s'.sync
  held : s.held = s'.held
  pending : s.pending = s'.pending
  fetcher : s.fetcher.Alike R s'.fetcher
  channel : List.Forall₂ (Completion.Alike R) s.channel s'.channel
  outbox : List.Forall₂ (fun n n' : Notification Value Listener =>
    n.unit = n'.unit ∧ List.Forall₂ L n.listeners n'.listeners) s.outbox s'.outbox

/-- No stage behind parsing has reported an error. -/
def Untroubled (s : Session Tree Value Listener) : Prop :=
  s.reporter.Untroubled

variable {R : String → String → Prop} {L : Listener → Listener → Prop}
  {s s' : Session Tree Value Listener}

theorem Alike.onBuild (h : Alike R L s s')
    {f g : Build Tree Value Listener → Build Tree Value Listener}
    (hfg : (f s.toBuild).Alike s.tools L (g s'.toBuild)) : Alike R L (s.onBuild f) (s'.onBuild g) :=
  { h with build := hfg }

theorem Alike.modifyUnit (h : Alike R L s s') (id : UnitId)
    {f g : SourceUnit Tree Value Listener → SourceUnit Tree Value Listener}
    (hfg : ∀ u v, u.Alike s.tools L v → (f u).Alike s.tools L (g v)) :
    Alike R L (s.modifyUnit id f) (s'.modifyUnit id g) :=
  h.onBuild (h.build.modify id hfg)

theorem Alike.record (h : Alike R L s s') (e : Event Value) :
    Alike R L (s.record e) (s'.record e) :=
  h.onBuild (h.build.record rfl)

theorem Alike.report (h : Alike R L s s') (d d' : Diagnostic) :
    Alike R L (s.onBuild (·.report d)) (s'.onBuild (·.report d')) :=
  h.onBuild { h.build with }

theorem Alike.foldl {α : Type}
    {f g : Session Tree Value Listener → α → Session Tree Value Listener}
    (hfg : ∀ a {s s' : Session Tree Value Listener}, Alike R L s s' → Alike R L (f s a) (g s' a))
    (h : Alike R L s s') (as : List α) : Alike R L (as.foldl f s) (as.foldl g s') := by
  induction as generalizing s s' with
  | nil => exact h
  | cons a as ih => exact ih (hfg a h)

/-! ### Ending a batch -/

theorem Alike.notify (h : Alike R L s s') (id : UnitId) {ls ls' : List Listener}
    (listeners : List.Forall₂ L ls ls') (outcome outcome' : Outcome Value) :
    Alike R L
      { s.modifyUnit id fun v => { v with listeners := [] } with
        outbox := s.outbox ++ [⟨id, ls, outcome⟩] }
      { s'.modifyUnit id fun v => { v with listeners := [] } with
        outbox := s'.outbox ++ [⟨id, ls', outcome'⟩] } :=
  { h.modifyUnit id fun _ _ hu => hu.hushed with
    outbox := List.rel_append h.outbox (.cons ⟨rfl, listeners⟩ .nil) }

theorem Alike.notifyFailure (h : Alike R L s s') (id : UnitId) :
    Alike R L (s.notifyFailure id) (s'.notifyFailure id) := by
  simp only [Session.notifyFailure]
  rcases h.build.cache.cases id with ⟨hc, hd⟩ | ⟨u, v, hc, hd, hu⟩
  · simpa only [hc, hd] using h
  · have hlisteners : u.listeners ≠ [] ↔ v.listeners ≠ [] := by
      rw [← List.length_pos_iff, ← List.length_pos_iff, hu.listeners.length_eq]
    simp only [hc, hd, hu.state, hlisteners]
    split
    · exact h.notify id hu.listeners _ _
    · exact h

theorem Alike.notifyFailures (h : Alike R L s s') : Alike R L s.notifyFailures s'.notifyFailures := by
  rw [Session.notifyFailures, Session.notifyFailures, h.build.cache.ids]
  exact h.foldl (fun id _ _ hs => hs.notifyFailure id) _

theorem Alike.cancelFetch (h : Alike R L s s') (id : UnitId) :
    Alike R L (s.cancelFetch id) (s'.cancelFetch id) := by
  simp only [Session.cancelFetch]
  rcases h.build.cache.cases id with ⟨hc, hd⟩ | ⟨u, v, hc, hd, hu⟩
  · simpa only [hc, hd] using h
  · simp only [hc, hd, hu.cancellable, hu.address]
    split
    · have hcalled := h.modifyUnit id fun _ _ hu => hu.withCancellable false
      exact { hcalled.record (.cancelled id v.address) with fetcher := h.fetcher.cancel id }
    · exact h

theorem Alike.abortAll (h : Alike R L s s') (cause cause' : LoadError) :
    Alike R L (s.abortAll cause) (s'.abortAll cause') := by
  have hnone : Alike R L { s with pending := [] } { s' with pending := [] } :=
    { h with pending := rfl }
  have hquiet : Alike R L (s.pending.foldl Session.cancelFetch { s with pending := [] })
      (s'.pending.foldl Session.cancelFetch { s' with pending := [] }) := by
    rw [h.pending]
    exact hnone.foldl (fun id _ _ hs => hs.cancelFetch id) _
  simp only [Session.abortAll]
  rw [hquiet.build.cache.ids]
  refine .notifyFailures (.foldl (fun id s s' hs => ?_) hquiet _)
  exact hs.modifyUnit id fun _ _ hu => hu.fail _ _

theorem Alike.failBatch (h : Alike R L s s') (id : UnitId) (e e' : LoadError) :
    Alike R L (s.failBatch id e) (s'.failBatch id e') :=
  .abortAll (h.modifyUnit id fun _ _ hu => hu.fail e e') e e'

/-! ### Executing a batch -/

theorem Alike.completeUnit (h : Alike R L s s') (id : UnitId) :
    Alike R L (s.completeUnit id) (s'.completeUnit id) :=
  h.modifyUnit id fun _ _ hu => hu.advance .complete

theorem Alike.notifySuccess (h : Alike R L s s') (id : UnitId) :
    Alike R L (s.notifySuccess id) (s'.notifySuccess id) := by
  simp only [Session.notifySuccess]
  rcases h.build.cache.cases id with ⟨hc, hd⟩ | ⟨u, v, hc, hd, hu⟩
  · simpa only [hc, hd] using h
  · simp only [hc, hd]
    have hlisteners := hu.listeners
    have hresult := hu.result
    generalize u.listeners = ls, v.listeners = ls' at hlisteners
    generalize u.result = x, v.result = y at hresult
    cases hlisteners with
    | nil => exact h
    | cons hl hls =>
      cases x <;> cases y
      · exact h
      · cases hresult
      · cases hresult
      · exact h.notify id (.cons hl hls) _ _

theorem reporter_foldl {α : Type}
    {f : Session Tree Value Listener → α → Session Tree Value Listener}
    (hf : ∀ s a, (f s a).reporter = s.reporter) (as : List α) (s : Session Tree Value Listener) :
    (as.foldl f s).reporter = s.reporter := by
  induction as generalizing s with
  | nil => rfl
  | cons a as ih => rw [List.foldl_cons, ih, hf]

theorem reporter_notifySuccess (s : Session Tree Value Listener) (id : UnitId) :
    (s.notifySuccess id).reporter = s.reporter := by
  rw [Session.notifySuccess]
  split
  · rfl
  · split <;> rfl

theorem reporter_completed (done : List UnitId) (s : Session Tree Value Listener) :
    (done.foldl Session.notifySuccess (done.foldl Session.completeUnit s)).reporter =
      s.reporter := by
  have hcomplete (s : Session Tree Value Listener) (id : UnitId) :
      (s.completeUnit id).reporter = s.reporter := rfl
  rw [reporter_foldl reporter_notifySuccess, reporter_foldl hcomplete]

theorem grows_runUnits (done order : List UnitId) (s : Session Tree Value Listener) :
    s.reporter.Grows (s.runUnits done order).reporter := by
  induction order generalizing s done with
  | nil =>
    rw [runUnits, reporter_completed]
    exact .refl _
  | cons id order ih =>
    have hrun := Build.reporter_execute s.tools s.toBuild id s.ns
    rw [runUnits]
    split
    · dsimp only
      split
      · refine .trans ?_ (ih _ _)
        exact hrun ▸ .refl _
      · rw [Session.failBatch, reporter_abortAll]
        exact hrun ▸ Reporter.grows_report _ _
    · exact ih _ _

/-- An execution that fails is on record. -/
theorem exists_value_of_untroubled {done order : List UnitId} {id : UnitId}
    (next : s.cache.isIn .transformed id = true)
    (untroubled : (s.runUnits done (id :: order)).Untroubled) :
    ∃ value, (s.toBuild.execute s.tools id s.ns).result = .ok value := by
  cases hrun : (s.toBuild.execute s.tools id s.ns).result with
  | ok value => exact ⟨value, rfl⟩
  | error message =>
    rw [Untroubled, runUnits, if_pos next] at untroubled
    simp only [hrun, Session.failBatch, reporter_abortAll] at untroubled
    rcases untroubled _ (List.mem_append_right _ List.mem_cons_self) rfl with h | h <;> cases h

theorem Alike.runUnits (h : Alike R L s s') (done order : List UnitId)
    (hs : (s.runUnits done order).Untroubled) (hs' : (s'.runUnits done order).Untroubled) :
    Alike R L (s.runUnits done order) (s'.runUnits done order) := by
  induction order generalizing s s' done with
  | nil =>
    rw [Session.runUnits, Session.runUnits]
    refine .foldl (fun id _ _ hs => hs.notifySuccess id) ?_ _
    exact h.foldl (fun id _ _ hs => hs.completeUnit id) _
  | cons id order ih =>
    have hnext := h.build.cache.isIn .transformed id
    by_cases next : s.cache.isIn .transformed id = true
    · have next' : s'.cache.isIn .transformed id = true := hnext.symm.trans next
      obtain ⟨value, hvalue⟩ := exists_value_of_untroubled next hs
      obtain ⟨value', hvalue'⟩ := exists_value_of_untroubled next' hs'
      rw [h.tools] at hvalue'
      rw [Session.runUnits, if_pos next] at hs ⊢
      rw [Session.runUnits, if_pos next'] at hs' ⊢
      simp only [h.tools, hvalue, hvalue'] at hs hs' ⊢
      refine ih (Alike.modifyUnit ?_ id fun _ _ hu => hu.finish value value') _ hs hs'
      exact { h with tools := rfl, build := h.build.execute hvalue hvalue' }
    · have next' : ¬ s'.cache.isIn .transformed id = true := hnext ▸ next
      rw [Session.runUnits, if_neg next] at hs ⊢
      rw [Session.runUnits, if_neg next'] at hs' ⊢
      exact ih h done hs hs'

theorem grows_evaluate (s : Session Tree Value Listener) :
    s.reporter.Grows s.evaluate.reporter := by
  rw [evaluate]
  split
  · rw [reporter_abortAll]
    exact .refl _
  · exact grows_runUnits _ _ s

theorem Alike.evaluate (h : Alike R L s s') (hs : s.evaluate.Untroubled)
    (hs' : s'.evaluate.Untroubled) : Alike R L s.evaluate s'.evaluate := by
  rw [Session.evaluate] at hs hs' ⊢
  rw [Session.evaluate]
  rw [← h.held, ← h.build.cache.evaluationOrder] at hs' ⊢
  split
  · exact h.abortAll _ _
  · next free =>
    rw [if_neg free] at hs hs'
    exact h.runUnits _ _ hs hs'

/-! ### The barrier -/

theorem Alike.barrierReached (h : Alike R L s s') : s.barrierReached = s'.barrierReached := by
  rw [Session.barrierReached, Session.barrierReached, h.build.cache.areAll, h.build.cache.hasAny]

def afterAnalysis (s : Session Tree Value Listener) : Session Tree Value Listener :=
  { s with toBuild := (s.toBuild.analyze s.tools s.cache.ids).build }

def afterTransform (s : Session Tree Value Listener) : Session Tree Value Listener :=
  { s with toBuild := (s.toBuild.transform s.tools s.cache.ids).build }

/-- What the barrier comes to behind the analysis. -/
def transformAndEvaluate (s : Session Tree Value Listener) : Session Tree Value Listener :=
  match (s.toBuild.transform s.tools s.cache.ids).failed with
  | some failed => s.afterTransform.abortFailed failed
  | none => s.afterTransform.evaluate

theorem checkBarrier_eq (s : Session Tree Value Listener) : s.checkBarrier =
    if s.barrierReached then
      match (s.toBuild.analyze s.tools s.cache.ids).failed with
      | some failed => s.afterAnalysis.abortFailed failed
      | none => s.afterAnalysis.transformAndEvaluate
    else s :=
  rfl

theorem grows_afterTransform (s : Session Tree Value Listener) :
    s.afterTransform.reporter.Grows s.transformAndEvaluate.reporter := by
  rw [transformAndEvaluate]
  split
  · rw [reporter_abortFailed]
    exact .refl _
  · exact grows_evaluate _

theorem grows_afterAnalysis (s : Session Tree Value Listener) :
    s.afterAnalysis.reporter.Grows
      (match (s.toBuild.analyze s.tools s.cache.ids).failed with
      | some failed => s.afterAnalysis.abortFailed failed
      | none => s.afterAnalysis.transformAndEvaluate).reporter := by
  split
  · rw [reporter_abortFailed]
    exact .refl _
  · exact (Build.grows_transform _ _ _).trans (grows_afterTransform _)

theorem grows_checkBarrier (s : Session Tree Value Listener) :
    s.reporter.Grows s.checkBarrier.reporter := by
  rw [checkBarrier_eq]
  split
  · exact (Build.grows_analyze s.tools s.toBuild s.cache.ids).trans (grows_afterAnalysis s)
  · exact .refl _

theorem Alike.afterTransform (h : Alike R L s s') (hs : s.afterTransform.Untroubled)
    (hs' : s'.afterTransform.Untroubled) :
    (s.toBuild.transform s.tools s.cache.ids).failed = none ∧
      (s'.toBuild.transform s'.tools s'.cache.ids).failed = none ∧
      Alike R L s.afterTransform s'.afterTransform := by
  simp only [Untroubled, Session.afterTransform, h.tools, ← h.build.cache.ids] at hs hs' ⊢
  obtain ⟨hpasses, hpasses', hbuild⟩ := h.build.transform h.staged s.cache.ids hs hs'
  exact ⟨hpasses, hpasses', { h with tools := rfl, build := hbuild }⟩

theorem Alike.transformAndEvaluate (h : Alike R L s s') (hs : s.transformAndEvaluate.Untroubled)
    (hs' : s'.transformAndEvaluate.Untroubled) :
    Alike R L s.transformAndEvaluate s'.transformAndEvaluate := by
  obtain ⟨hpasses, hpasses', hafter⟩ := h.afterTransform
    ((grows_afterTransform s).untroubled hs) ((grows_afterTransform s').untroubled hs')
  simp only [Session.transformAndEvaluate, hpasses, hpasses'] at hs hs' ⊢
  exact hafter.evaluate hs hs'

theorem Alike.afterAnalysis (h : Alike R L s s') (hs : s.afterAnalysis.Untroubled)
    (hs' : s'.afterAnalysis.Untroubled) :
    (s.toBuild.analyze s.tools s.cache.ids).failed = none ∧
      (s'.toBuild.analyze s'.tools s'.cache.ids).failed = none ∧
      Alike R L s.afterAnalysis s'.afterAnalysis := by
  simp only [Untroubled, Session.afterAnalysis, h.tools, ← h.build.cache.ids] at hs hs' ⊢
  obtain ⟨hpasses, hpasses', hbuild⟩ := h.build.analyze h.staged s.cache.ids hs hs'
  exact ⟨hpasses, hpasses', { h with tools := rfl, build := hbuild }⟩

theorem Alike.checkBarrier (h : Alike R L s s') (hs : s.checkBarrier.Untroubled)
    (hs' : s'.checkBarrier.Untroubled) : Alike R L s.checkBarrier s'.checkBarrier := by
  rw [checkBarrier_eq] at hs hs' ⊢
  rw [checkBarrier_eq]
  rw [← h.barrierReached] at hs' ⊢
  split
  · next reached =>
    rw [if_pos reached] at hs hs'
    obtain ⟨hpasses, hpasses', hafter⟩ := h.afterAnalysis
      ((grows_afterAnalysis s).untroubled hs) ((grows_afterAnalysis s').untroubled hs')
    simp only [hpasses, hpasses'] at hs hs' ⊢
    exact hafter.transformAndEvaluate hs hs'
  · exact h

/-! ### Loading -/

theorem Alike.referrer (h : Alike R L s s') (id : UnitId) : s.referrer id = s'.referrer id := by
  rw [Session.referrer, Session.referrer]
  rcases h.build.cache.cases id with ⟨hc, hd⟩ | ⟨u, v, hc, hd, hu⟩
  · simp only [hc, hd, h.baseAddress]
  · simp only [hc, hd, h.baseAddress, hu.origin, hu.address]

/-- The same specifiers lead to the same units, in whatever order a text names them. -/
theorem Alike.discover (h : Alike R L s s') (id : UnitId) :
    Alike R L (s.discover id) (s'.discover id) := by
  have hkept (specifiers : List String) (b : Build Tree Value Listener) :
      (importUnits (s.referrer id) specifiers [] b).2 =
        { b with cache := (importUnits (s.referrer id) specifiers [] b).2.cache } :=
    (importUnits_spec _ specifiers [] b .nil).1
  obtain ⟨hids, hunits⟩ := importUnits_sorted SourceUnit.likens_alike h.build.resolver
    (s.referrer id) (h.build.specifiers id) [] h.build.cache
  simp only [Session.discover, ← h.referrer, h.tools, hids]
  have hfound : Build.Alike s.tools L
      (importUnits (s.referrer id) ((s.toBuild.specifiers s.tools id).mergeSort (· ≤ ·)) []
        s.toBuild).2
      (importUnits (s.referrer id) ((s'.toBuild.specifiers s.tools id).mergeSort (· ≤ ·)) []
        s'.toBuild).2 := by
    rw [hkept _ s.toBuild, hkept _ s'.toBuild]
    exact { h.build with cache := hunits }
  exact { h with
    tools := rfl
    build := hfound.modify id fun _ _ hu => hu.fixDependencies _ }

theorem Alike.parsed (h : Alike R L s s') (id : UnitId) :
    (s.toBuild.parse s.tools id).passed = (s'.toBuild.parse s'.tools id).passed ∧
      Alike R L { s with toBuild := (s.toBuild.parse s.tools id).build }
        { s' with toBuild := (s'.toBuild.parse s'.tools id).build } := by
  obtain ⟨hpassed, hbuild⟩ := h.build.parse id
  rw [h.tools]
  exact ⟨hpassed, { h with tools := rfl, build := hbuild }⟩

theorem Alike.understood (h : Alike R L s s') (id : UnitId) :
    Alike R L (s.understood id) (s'.understood id) := by
  have hparsed := (h.parsed id).2.modifyUnit id fun _ _ hu => hu.advance .parsed
  exact (hparsed.onBuild (hparsed.build.register id)).discover id

theorem Alike.misread (h : Alike R L s s') (id : UnitId) :
    Alike R L (s.misread id) (s'.misread id) :=
  ((h.parsed id).2.modifyUnit id fun _ _ hu => hu.recordError _ _).abortAll _ _

theorem Alike.rejected (h : Alike R L s s') (id failed : UnitId) :
    Alike R L (s.rejected id failed) (s'.rejected id failed) :=
  (h.understood id).failBatch id _ _

theorem grows_understood (s : Session Tree Value Listener) (id : UnitId) :
    s.reporter.Grows (s.understood id).reporter := by
  have hregister (b : Build Tree Value Listener) : (b.register id).reporter = b.reporter := by
    rw [Build.register]
    split <;> rfl
  have hdiscover (s : Session Tree Value Listener) : (s.discover id).reporter = s.reporter := by
    rw [discover, (importUnits_spec _ _ [] s.toBuild .nil).1]
    rfl
  rw [understood, hdiscover]
  exact (hregister _).symm ▸ Build.grows_parse s.tools s.toBuild id

theorem grows_misread (s : Session Tree Value Listener) (id : UnitId) :
    s.reporter.Grows (s.misread id).reporter := by
  rw [misread, reporter_abortAll]
  exact Build.grows_parse s.tools s.toBuild id

theorem Alike.started (h : Alike R L s s') (id : UnitId) :
    Alike R L (s.started id) (s'.started id) :=
  h.modifyUnit id fun _ _ hu => hu.advance .loading

theorem Alike.fetched (h : Alike R L s s') (id : UnitId) :
    Alike R L (s.fetched id) (s'.fetched id) := by
  simp only [Session.fetched, ← h.build.cache.addressOf]
  exact { h.record _ with fetcher := h.fetcher.note _ }

theorem Alike.withText (h : Alike R L s s') (id : UnitId) {text text' : String}
    (texts : R text text') : Alike R L (s.withText id text) (s'.withText id text') :=
  h.modifyUnit id fun _ _ hu => (hu.withText (h.translate text text' texts)).advance .loaded

theorem Alike.refused (h : Alike R L s s') (id : UnitId) (e e' : FetchError) :
    Alike R L (s.refused id e) (s'.refused id e') :=
  (h.report _ _).failBatch id _ _

theorem Alike.request (h : Alike R L s s') (id : UnitId) :
    Alike R L (s.request id) (s'.request id) := by
  have hasked := h.fetcher.note (s.cache.addressOf id)
  have hrequest := (h.record (.requested id (s.cache.addressOf id))).modifyUnit id
    fun _ _ hu => hu.withCancellable true
  simp only [Session.request, ← h.build.cache.addressOf, ← hasked.prompt]
  split
  · exact { hrequest with
      pending := congrArg (· ++ [id]) hrequest.pending
      fetcher := hasked
      channel := List.rel_append h.channel (.cons ⟨rfl, rfl, hasked.answer _⟩ .nil) }
  · exact { hrequest with
      pending := congrArg (· ++ [id]) hrequest.pending
      fetcher := hasked.park id _ }

/-! ### Loading in step -/

theorem handleLoaded_eq (load : Session Tree Value Listener → UnitId → Session Tree Value Listener)
    (s : Session Tree Value Listener) (id : UnitId) : handleLoaded load s id =
      if (s.toBuild.parse s.tools id).passed then
        match ((s.understood id).cache.dependencyIds id).find?
          ((s.understood id).cache.isIn .error) with
        | some failed => s.rejected id failed
        | none =>
          (((s.understood id).cache.dependencyIds id).foldl load (s.understood id)).checkBarrier
      else s.misread id :=
  rfl

variable {load : Session Tree Value Listener → UnitId → Session Tree Value Listener}

/-- Ways to load a unit that only add to what is on record. -/
def Adds (load : Session Tree Value Listener → UnitId → Session Tree Value Listener) : Prop :=
  ∀ (s : Session Tree Value Listener) id, s.reporter.Grows (load s id).reporter

theorem Adds.foldl (adds : Adds load) (ids : List UnitId) (s : Session Tree Value Listener) :
    s.reporter.Grows (ids.foldl load s).reporter := by
  induction ids generalizing s with
  | nil => exact .refl _
  | cons id ids ih => exact (adds s id).trans (ih _)

theorem grows_refused (s : Session Tree Value Listener) (id : UnitId) (e : FetchError) :
    s.reporter.Grows (s.refused id e).reporter := by
  rw [refused, failBatch, reporter_abortAll]
  exact Reporter.grows_report _ _

theorem adds_handleLoaded (adds : Adds load) : Adds (handleLoaded load) := by
  intro s id
  rw [handleLoaded_eq]
  split
  · refine (grows_understood s id).trans ?_
    split
    · rw [rejected, failBatch, reporter_abortAll]
      exact .refl _
    · exact (adds.foldl _ _).trans (grows_checkBarrier _)
  · exact grows_misread s id

theorem grows_handleFetched (adds : Adds load) (s : Session Tree Value Listener) (id : UnitId)
    (result : Except FetchError String) :
    s.reporter.Grows (handleFetched load s id result).reporter := by
  cases result with
  | ok text => exact adds_handleLoaded adds (s.withText id text) id
  | error e => exact grows_refused s id e

theorem reporter_request (s : Session Tree Value Listener) (id : UnitId) :
    (s.request id).reporter = s.reporter := by
  rw [request]
  split <;> rfl

/-- Loading a unit, as far as it blocks, adds to the record when its fetch does. -/
theorem grows_loadUnit {depth : Nat} {s : Session Tree Value Listener} {id : UnitId}
    (fetches : s.cache.isIn .notStarted id = true → s.sync = true →
      s.reporter.Grows (loadUnit depth s id).reporter) :
    s.reporter.Grows (loadUnit depth s id).reporter := by
  cases new : s.cache.isIn .notStarted id with
  | false =>
    rw [loadUnit_of_old new]
    exact .refl _
  | true =>
    cases sync : s.sync with
    | false =>
      rw [loadUnit_of_new new sync, reporter_request]
      exact .refl _
    | true => exact fetches new sync

theorem adds_loadUnit (depth : Nat) : Adds (@loadUnit Tree Value Listener depth) := by
  induction depth with
  | zero =>
    refine fun s id => grows_loadUnit fun new sync => ?_
    rw [loadUnit_zero new sync]
    exact grows_refused (s.started id) id _
  | succ depth ih =>
    refine fun s id => grows_loadUnit fun new sync => ?_
    rw [loadUnit_succ new sync]
    exact grows_handleFetched ih ((s.started id).fetched id) id _

/-- Ways to load a unit that keep two sessions alike, unless what they report is in the way. -/
structure LoadsAlike (R : String → String → Prop) (L : Listener → Listener → Prop)
    (load : Session Tree Value Listener → UnitId → Session Tree Value Listener) : Prop where
  adds : Adds load
  alike : ∀ {s s' : Session Tree Value Listener}, Alike R L s s' → ∀ id,
    (load s id).Untroubled → (load s' id).Untroubled → Alike R L (load s id) (load s' id)

/-- What comes later reports no less, so each of the units is loaded without trouble. -/
theorem LoadsAlike.foldl (loads : LoadsAlike R L load) (h : Alike R L s s') (ids : List UnitId)
    (hs : (ids.foldl load s).Untroubled) (hs' : (ids.foldl load s').Untroubled) :
    Alike R L (ids.foldl load s) (ids.foldl load s') := by
  induction ids generalizing s s' with
  | nil => exact h
  | cons id ids ih =>
    have hfirst := loads.alike h id ((loads.adds.foldl ids _).untroubled hs)
      ((loads.adds.foldl ids _).untroubled hs')
    exact ih hfirst hs hs'

/-- Parsing a unit and loading what it imports. The specifiers are the same, so the same
dependencies are looked at, and they are loaded in the same order. -/
theorem Alike.handleLoaded (h : Alike R L s s') (loads : LoadsAlike R L load) (id : UnitId)
    (hs : (handleLoaded load s id).Untroubled) (hs' : (handleLoaded load s' id).Untroubled) :
    Alike R L (handleLoaded load s id) (handleLoaded load s' id) := by
  have hu := h.understood id
  rw [handleLoaded_eq] at hs hs' ⊢
  rw [handleLoaded_eq]
  rw [← (h.parsed id).1, ← hu.build.cache.dependencyIds,
    ← funext (hu.build.cache.isIn .error)] at hs' ⊢
  split
  · next passed =>
    rw [if_pos passed] at hs hs'
    split
    · exact h.rejected id _
    · next fine =>
      simp only [fine] at hs hs'
      refine Alike.checkBarrier (loads.foldl hu _ ?_ ?_) hs hs'
      · exact (grows_checkBarrier _).untroubled hs
      · exact (grows_checkBarrier _).untroubled hs'
  · exact h.misread id

theorem Alike.handleFetched (h : Alike R L s s') (loads : LoadsAlike R L load) (id : UnitId)
    {result result' : Except FetchError String} (answers : AnswersAlike R result result')
    (hs : (handleFetched load s id result).Untroubled)
    (hs' : (handleFetched load s' id result').Untroubled) :
    Alike R L (handleFetched load s id result) (handleFetched load s' id result') := by
  cases answers with
  | text texts => exact (h.withText id texts).handleLoaded loads id hs hs'
  | failure e e' => exact h.refused id e e'

theorem Alike.loadUnit {depth : Nat} (h : Alike R L s s') {id : UnitId}
    (fetches : s.cache.isIn .notStarted id = true → s.sync = true →
      s'.cache.isIn .notStarted id = true → s'.sync = true →
      Alike R L (s.loadUnit depth id) (s'.loadUnit depth id)) :
    Alike R L (s.loadUnit depth id) (s'.loadUnit depth id) := by
  have hnew := h.build.cache.isIn .notStarted id
  cases new : s.cache.isIn .notStarted id with
  | false =>
    rw [loadUnit_of_old new, loadUnit_of_old (hnew.symm.trans new)]
    exact h
  | true =>
    cases sync : s.sync with
    | false =>
      rw [loadUnit_of_new new sync,
        loadUnit_of_new (hnew.symm.trans new) (h.sync.symm.trans sync)]
      exact (h.started id).request id
    | true => exact fetches new sync (hnew.symm.trans new) (h.sync.symm.trans sync)

/-- Blocking fetches go down both graphs in one order: the sessions ask for the same text, and
the answers lead to the same imports. -/
theorem loadsAlike_loadUnit (depth : Nat) :
    LoadsAlike R L (@loadUnit Tree Value Listener depth) := by
  induction depth with
  | zero =>
    refine ⟨adds_loadUnit 0, fun h id _ _ => h.loadUnit fun new sync new' sync' => ?_⟩
    rw [loadUnit_zero new sync, loadUnit_zero new' sync']
    exact (h.started id).refused id _ _
  | succ depth ih =>
    refine ⟨adds_loadUnit (depth + 1), fun h id hs hs' => h.loadUnit fun new sync new' sync' => ?_⟩
    have hstarted := h.started id
    rw [loadUnit_succ new sync] at hs ⊢
    rw [loadUnit_succ new' sync', ← hstarted.build.cache.addressOf] at hs' ⊢
    exact (hstarted.fetched id).handleFetched ih id (h.fetcher.answer _) hs hs'

end Session

end UnitLoader
