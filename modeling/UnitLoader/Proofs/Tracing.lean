import UnitLoader.Proofs.Plain

/-! Where the errors of units come from. A unit that failed has an error of its own, or it
was aborted and names the error of a unit that failed by itself. The two ways in which a
batch falls are one unit with an error, and a check that finds errors of several. -/

namespace UnitLoader

variable {Tree Value Listener : Type}

theorem LoadError.rootCause_eq_self {e : LoadError} (h : e.isAborted = false) :
    e.rootCause = e := by
  cases e with
  | aborted a cause => cases h
  | _ => rfl

@[simp] theorem LoadError.isAborted_ofPhase (phase : Phase) (address message : String) :
    (LoadError.ofPhase phase address message).isAborted = false := by
  cases phase <;> rfl

@[simp] theorem LoadError.address_ofPhase (phase : Phase) (address message : String) :
    (LoadError.ofPhase phase address message).address = address := by
  cases phase <;> rfl

/-- How a unit stands, as far as failing is concerned. -/
structure Standing where
  address : String
  failed : Bool
  error : Option LoadError

namespace SourceUnit

def standing (u : SourceUnit Tree Value Listener) : Standing :=
  ⟨u.address, u.state = .error, u.error⟩

variable (u : SourceUnit Tree Value Listener)

theorem standing_advance {state : State} (h : state ≠ .error) :
    (u.advance state).standing = u.standing := by
  simp only [advance]
  split
  · next hmay =>
    have hu : u.state ≠ .error := by
      intro he
      rw [he] at hmay
      cases state <;> first | exact h rfl | cases hmay
    simp [standing, hu, h]
  · rfl

theorem standing_hushed : u.hushed.standing = u.standing := by
  simp only [hushed]
  split <;> rfl

theorem standing_lowered (tools : Toolchain Tree Value) (project : Project) :
    (u.lowered tools project).standing = u.standing := by
  simp only [lowered]
  split
  · rfl
  · exact standing_advance _ (by simp)

theorem standing_uncancelled_fail (e : LoadError) :
    (u.uncancelled.fail e).standing = (u.fail e).standing := by
  cases hs : u.state.isSettled <;> simp [fail, uncancelled, hs, recordError, standing]

variable {u}

theorem standing_fail {e : LoadError} (h : u.state.isSettled = false) (hnone : u.error = none) :
    (u.fail e).standing = ⟨u.address, true, some e⟩ := by
  simp [fail, h, recordError, standing, hnone]

theorem fail_fail (e cause : LoadError) : (u.fail e).fail cause = u.fail e :=
  fail_of_isSettled (isSettled_fail u e)

theorem fail_recordError {e cause : LoadError} (h : u.state.isSettled = false) :
    (u.recordError e).fail cause = u.fail e := by
  simp [fail, h, recordError]

end SourceUnit

namespace Cache

variable {c d : Cache Tree Value Listener} {id : UnitId}

def standing? (c : Cache Tree Value Listener) (id : UnitId) : Option Standing :=
  (c.get? id).map SourceUnit.standing

theorem standing?_eq {u : SourceUnit Tree Value Listener} (h : c.get? id = some u) :
    c.standing? id = some u.standing := by
  simp [standing?, h]

theorem standing?_modify {f : SourceUnit Tree Value Listener → SourceUnit Tree Value Listener}
    (keeps : ∀ u, c.get? id = some u → (f u).standing = u.standing) (j : UnitId) :
    (c.modify id f).standing? j = c.standing? j := by
  simp only [standing?, get?_modify]
  split
  · next hj =>
    subst hj
    cases hu : c.get? id with
    | none => rfl
    | some u => exact congrArg some (keeps u hu)
  · rfl

theorem standing?_foldl_modify
    {f : SourceUnit Tree Value Listener → SourceUnit Tree Value Listener}
    (keeps : ∀ u, (f u).standing = u.standing) (ids : List UnitId)
    (c : Cache Tree Value Listener) (j : UnitId) :
    (ids.foldl (fun c id => c.modify id f) c).standing? j = c.standing? j := by
  induction ids generalizing c with
  | nil => rfl
  | cons id ids ih =>
    rw [List.foldl_cons, ih]
    exact standing?_modify (fun u _ => keeps u) j

/-- The error of a unit is its own, and the cause of an abort is the error of a unit that
failed by itself. -/
structure Traces (c : Cache Tree Value Listener) (x : Standing) : Prop where
  failed : x.error.isSome = x.failed
  own : ∀ e, x.error = some e → e.address = x.address
  cause : ∀ address cause, x.error = some (.aborted address cause) →
    cause.isAborted = false ∧ ∃ id y, c.standing? id = some y ∧ y.error = some cause

def Traceable (c : Cache Tree Value Listener) : Prop :=
  ∀ id x, c.standing? id = some x → c.Traces x

theorem Traceable.error_eq_none (h : c.Traceable) {u : SourceUnit Tree Value Listener}
    (hu : c.get? id = some u) (unsettled : u.state.isSettled = false) : u.error = none := by
  have hfailed : u.error.isSome = decide (u.state = .error) := (h id _ (standing?_eq hu)).failed
  have hne : u.state ≠ .error := by
    intro he
    simp [he, State.isSettled] at unsettled
  simpa [hne] using hfailed

/-- Units that have not failed may come in, and nothing else. -/
theorem Traceable.of_more (h : c.Traceable)
    (old : ∀ id x, c.standing? id = some x → d.standing? id = some x)
    (new : ∀ id x, d.standing? id = some x →
      c.standing? id = some x ∨ x.failed = false ∧ x.error = none) : d.Traceable := by
  intro id x hx
  rcases new id x hx with hx | ⟨hfailed, herror⟩
  · obtain ⟨hfailed, hown, hcause⟩ := h id x hx
    refine ⟨hfailed, hown, fun address cause he => ?_⟩
    obtain ⟨hroot, j, y, hy, hye⟩ := hcause address cause he
    exact ⟨hroot, j, y, old j y hy, hye⟩
  · exact ⟨by simp [hfailed, herror], by simp [herror], by simp [herror]⟩

theorem Traceable.congr (h : c.Traceable) (same : ∀ id, d.standing? id = c.standing? id) :
    d.Traceable :=
  h.of_more (fun id _ hx => (same id).trans hx) fun id _ hx => .inl ((same id).symm.trans hx)

theorem Traceable.modify (h : c.Traceable)
    {f : SourceUnit Tree Value Listener → SourceUnit Tree Value Listener}
    (keeps : ∀ u, c.get? id = some u → (f u).standing = u.standing) :
    (c.modify id f).Traceable :=
  h.congr (standing?_modify keeps)

theorem Traceable.push (h : c.Traceable) {u : SourceUnit Tree Value Listener}
    (sound : u.standing.failed = false) (clean : u.error = none) : (c.push u).Traceable := by
  refine h.of_more (fun id x hx => ?_) fun id x hx => ?_
  · obtain ⟨v, hv, rfl⟩ := Option.map_eq_some_iff.mp hx
    exact standing?_eq (get?_push_of_get? hv)
  · obtain ⟨v, hv, rfl⟩ := Option.map_eq_some_iff.mp hx
    rw [get?_push] at hv
    split at hv
    · obtain rfl := Option.some.inj hv
      exact .inr ⟨sound, clean⟩
    · exact .inl (standing?_eq hv)

/-! ### A batch that falls -/

/-- The units of a cache fail for a cause. It is the own error of one of them; the others
are aborted because of it, unless they have an error of their own as well. -/
structure Blames (c d : Cache Tree Value Listener) (cause : LoadError) : Prop where
  root : cause.isAborted = false
  culprit : ∃ id y, d.standing? id = some y ∧ y.error = some cause
  old : ∀ id x, c.standing? id = some x → x.failed = true → d.standing? id = some x
  unit : ∀ id y, d.standing? id = some y → c.standing? id = some y ∨
    y.failed = true ∧ ∃ e, y.error = some e ∧
      (e = .aborted y.address cause ∨ e.isAborted = false ∧ e.address = y.address)

theorem Traceable.of_blames {cause : LoadError} (h : c.Traceable) (blames : Blames c d cause) :
    d.Traceable := by
  intro id y hy
  rcases blames.unit id y hy with hx | ⟨hfailed, e, he, hown⟩
  · obtain ⟨hfailed, hown, hcause⟩ := h id y hx
    refine ⟨hfailed, hown, fun address cause he => ?_⟩
    obtain ⟨hroot, j, z, hz, hze⟩ := hcause address cause he
    have hold : z.failed = true := by
      rw [← (h j z hz).failed, hze]
      rfl
    exact ⟨hroot, j, z, blames.old j z hz hold, hze⟩
  · refine ⟨by simp [hfailed, he], fun e' he' => ?_, fun address cause' he' => ?_⟩
    · obtain rfl := Option.some.inj (he.symm.trans he')
      rcases hown with rfl | ⟨-, hown⟩
      · rfl
      · exact hown
    · obtain rfl := Option.some.inj (he.symm.trans he')
      rcases hown with hown | ⟨hown, -⟩
      · obtain ⟨-, rfl⟩ := LoadError.aborted.inj hown
        exact ⟨blames.root, blames.culprit⟩
      · cases hown

end Cache

namespace Session

variable {s m : Session Tree Value Listener} {id : UnitId}

/-! ### Aborting -/

theorem standing?_notifyFailures (s : Session Tree Value Listener) (id : UnitId) :
    s.notifyFailures.cache.standing? id = s.cache.standing? id := by
  rw [notifyFailures_eq]
  exact Cache.standing?_foldl_modify SourceUnit.standing_hushed _ _ _

theorem standing?_abortAll (hn : s.pending.Nodup) (cause : LoadError) (id : UnitId) :
    (s.abortAll cause).cache.standing? id =
      (s.cache.get? id).map fun u => (u.fail (.aborted u.address cause.rootCause)).standing := by
  obtain ⟨fetcher, events, he, -⟩ := abortAll_eq s cause
  rw [he, standing?_notifyFailures]
  simp only [Cache.standing?, Cache.get?_foldl_modify s.cache.nodup_ids,
    Cache.get?_foldl_modify hn]
  cases hu : s.cache.get? id with
  | none => simp
  | some u =>
    rw [if_pos (Cache.mem_ids_of_get? hu)]
    split
    · exact congrArg some (SourceUnit.standing_uncancelled_fail u _)
    · rfl

/-- The failure of one unit aborts all that are open. -/
theorem blames_culprit {f : SourceUnit Tree Value Listener → SourceUnit Tree Value Listener}
    {u : SourceUnit Tree Value Listener} {e : LoadError} (h : s.cache.Traceable)
    (hn : s.pending.Nodup) (hu : s.cache.get? id = some u) (unsettled : u.state.isSettled = false)
    (fails : ∀ cause, (f u).fail cause = u.fail e) (own : e.address = u.address)
    (root : e.isAborted = false) :
    s.cache.Blames ((s.modifyUnit id f).abortAll e).cache e := by
  have hn' : (s.modifyUnit id f).pending.Nodup := hn
  have hroot := LoadError.rootCause_eq_self root
  have hself : ((s.modifyUnit id f).abortAll e).cache.standing? id =
      some ⟨u.address, true, some e⟩ := by
    rw [standing?_abortAll hn', ← SourceUnit.standing_fail unsettled (h.error_eq_none hu unsettled)]
    simp only [modifyUnit, onBuild, Build.modify, Cache.get?_modify, hu, if_true, Option.map_some,
      fails]
  have hother (j : UnitId) (hj : id ≠ j) : ((s.modifyUnit id f).abortAll e).cache.standing? j =
      (s.cache.get? j).map fun v => (v.fail (.aborted v.address e)).standing := by
    rw [standing?_abortAll hn', hroot]
    simp only [modifyUnit, onBuild, Build.modify, Cache.get?_modify_of_ne hj]
  refine ⟨root, ⟨id, _, hself, rfl⟩, fun j x hx hfailed => ?_, fun j y hy => ?_⟩
  · obtain ⟨v, hv, rfl⟩ := Option.map_eq_some_iff.mp hx
    have hset : v.state.isSettled = true := by
      rw [of_decide_eq_true hfailed]
      rfl
    have hj : id ≠ j := by
      rintro rfl
      obtain rfl := Option.some.inj (hu.symm.trans hv)
      simp [unsettled] at hset
    rw [hother j hj, hv, Option.map_some, SourceUnit.fail_of_isSettled hset]
  · by_cases hj : id = j
    · subst hj
      obtain rfl := Option.some.inj (hself.symm.trans hy)
      exact .inr ⟨rfl, e, rfl, .inr ⟨root, own⟩⟩
    · rw [hother j hj] at hy
      obtain ⟨v, hv, rfl⟩ := Option.map_eq_some_iff.mp hy
      cases hset : v.state.isSettled with
      | true =>
        rw [SourceUnit.fail_of_isSettled hset]
        exact .inl (Cache.standing?_eq hv)
      | false =>
        rw [SourceUnit.standing_fail hset (h.error_eq_none hv hset)]
        exact .inr ⟨rfl, _, rfl, .inl rfl⟩

theorem traceable_failBatch {u : SourceUnit Tree Value Listener} {e : LoadError}
    (h : s.cache.Traceable) (hn : s.pending.Nodup) (hu : s.cache.get? id = some u)
    (unsettled : u.state.isSettled = false) (own : e.address = u.address)
    (root : e.isAborted = false) : (s.failBatch id e).cache.Traceable :=
  h.of_blames
    (blames_culprit h hn hu unsettled (fun cause => SourceUnit.fail_fail e cause) own root)

/-! ### Checking -/

theorem standing?_of_settled (settled : ∀ id u, s.cache.get? id = some u → u.state.isSettled = true)
    (hn : s.pending.Nodup) (failed : List UnitId) (id : UnitId) :
    (s.abortFailed failed).cache.standing? id = s.cache.standing? id := by
  simp only [abortFailed]
  split
  · rw [standing?_abortAll hn, Cache.standing?]
    cases hu : s.cache.get? id with
    | none => rfl
    | some u =>
      rw [Option.map_some, Option.map_some, SourceUnit.fail_of_isSettled (settled id u hu)]
  · exact standing?_notifyFailures s id

end Session

namespace Build

variable {b : Build Tree Value Listener} {phase : Phase} {first : Diagnostic}
  {others : List Diagnostic}

theorem phaseError_cases (phase : Phase) (first : Diagnostic) (others : List Diagnostic)
    {address : String} (located : first.address = some address) (other : String) :
    phaseError phase first (first :: others) other =
        .aborted other (.ofPhase phase address first.message) ∨
      ∃ message, phaseError phase first (first :: others) other = .ofPhase phase other message := by
  simp only [phaseError]
  split
  · exact .inr ⟨_, rfl⟩
  · exact .inl (by rw [located, Option.getD_some])

theorem phaseError_first (phase : Phase) (others : List Diagnostic) {address : String}
    (located : first.address = some address) :
    phaseError phase first (first :: others) address =
      .ofPhase phase address first.message := by
  simp [phaseError, located]

/-- A check that finds errors blames the first, if that is about a unit of the batch. -/
theorem blames_check {mark : Mark} {id : UnitId} {u : SourceUnit Tree Value Listener}
    (h : b.cache.Traceable) (errors : b.reporter.errorsSince mark = first :: others)
    (hu : b.cache.get? id = some u) (unsettled : u.state.isSettled = false)
    (located : first.address = some u.address) :
    ∃ failed cache, b.check b.cache.ids phase mark = ⟨some failed, { b with cache := cache }⟩ ∧
      b.cache.Blames cache (.ofPhase phase u.address first.message) ∧
      ∀ j v, cache.get? j = some v → v.state.isSettled = true := by
  refine ⟨_, _, by simp only [check, errors]; rfl, ?_⟩
  rw [failUnits_cache]
  have hget (j : UnitId) (v : SourceUnit Tree Value Listener) (hv : b.cache.get? j = some v) :
      (b.cache.ids.foldl (fun c id => c.modify id fun u =>
        u.fail (phaseError phase first (first :: others) u.address)) b.cache).get? j =
      some (v.fail (phaseError phase first (first :: others) v.address)) := by
    rw [Cache.get?_foldl_modify b.cache.nodup_ids, if_pos (Cache.mem_ids_of_get? hv), hv]
    rfl
  have hsize := Cache.size_foldl_modify (fun u : SourceUnit Tree Value Listener =>
    u.fail (phaseError phase first (first :: others) u.address)) b.cache.ids b.cache
  generalize b.cache.ids.foldl _ b.cache = cache at hget hsize
  have hback (j : UnitId) (w : SourceUnit Tree Value Listener) (hw : cache.get? j = some w) :
      ∃ v, b.cache.get? j = some v ∧
        w = v.fail (phaseError phase first (first :: others) v.address) := by
    obtain ⟨v, hv⟩ := Cache.get?_of_index_lt (hsize ▸ Cache.index_lt_of_get? hw)
    exact ⟨v, hv, Option.some.inj (hw.symm.trans (hget j v hv))⟩
  refine ⟨⟨by simp, ⟨id, _, Cache.standing?_eq (hget id u hu), ?_⟩, fun j x hx hfailed => ?_,
    fun j y hy => ?_⟩, fun j w hw => ?_⟩
  · rw [SourceUnit.standing_fail unsettled (h.error_eq_none hu unsettled),
      phaseError_first phase others located]
  · obtain ⟨v, hv, rfl⟩ := Option.map_eq_some_iff.mp hx
    have hset : v.state.isSettled = true := by
      rw [of_decide_eq_true hfailed]
      rfl
    rw [Cache.standing?_eq (hget j v hv), SourceUnit.fail_of_isSettled hset]
  · obtain ⟨w, hw, rfl⟩ := Option.map_eq_some_iff.mp hy
    obtain ⟨v, hv, rfl⟩ := hback j w hw
    cases hset : v.state.isSettled with
    | true =>
      rw [SourceUnit.fail_of_isSettled hset]
      exact .inl (Cache.standing?_eq hv)
    | false =>
      rw [SourceUnit.standing_fail hset (h.error_eq_none hv hset)]
      refine .inr ⟨rfl, _, rfl, ?_⟩
      rcases phaseError_cases phase first others located v.address with he | ⟨message, he⟩
      · exact .inl he
      · rw [he]
        exact .inr ⟨by simp, by simp⟩
  · obtain ⟨v, -, rfl⟩ := hback j w hw
    exact SourceUnit.isSettled_fail v _

end Build

theorem Toolchain.mem_of_failed {tools : Toolchain Tree Value} {ns : Namespace Value}
    {codes : List (UnitId × String)} {id : UnitId} {message : String}
    (h : (tools.runAll ns codes).failed = some (id, message)) : id ∈ codes.map (·.1) := by
  induction codes generalizing ns with
  | nil => cases h
  | cons c rest ih =>
    obtain ⟨j, code⟩ := c
    simp only [runAll] at h
    cases hd : (tools.execute code ns).result with
    | error other =>
      simp only [hd, Option.some.injEq, Prod.mk.injEq] at h
      simp [h.1]
    | ok value =>
      simp only [hd] at h
      exact List.mem_cons_of_mem _ (ih h)

/-! ### Languages that tell where an error is -/

/-- Whatever is reported of a batch is about one of its targets. -/
structure Toolchain.Locates (tools : Toolchain Tree Value) : Prop where
  analyze : ∀ targets p, ∀ d ∈ (tools.analyze targets p).diagnostics,
    ∃ target ∈ targets, d.address = some target.address
  transform : ∀ target p, ∀ d ∈ (tools.transform target p).diagnostics,
    d.address = some target.address

theorem Lang.locates_toolchain [Text.Xid] : Lang.toolchain.Locates where
  analyze := fun _ _ _ hd => Linking.address_of_mem_analyze hd
  transform := fun _ _ _ hd => Lowering.address_of_mem_transform hd

namespace Session

variable {s : Session Tree Value Listener} {id : UnitId}

theorem located_in_analysis (locates : s.tools.Locates) {d : Diagnostic}
    (hd : d ∈ s.analysis.diagnostics) :
    ∃ id u, s.cache.get? id = some u ∧ u.state = .parsed ∧ d.address = some u.address := by
  obtain ⟨target, hmem, he⟩ := locates.analyze _ _ d hd
  obtain ⟨⟨id, target⟩, htarget, rfl⟩ := List.mem_map.mp hmem
  obtain ⟨u, tree, hu, hp, -, rfl⟩ := Build.mem_targets.mp htarget
  exact ⟨id, u, hu, hp, he⟩

theorem located_in_lowerings (locates : s.tools.Locates) {t : UnitId × Target Tree}
    (ht : t ∈ s.lowerings) {d : Diagnostic}
    (hd : d ∈ (s.tools.transform t.2 s.analysis.value).diagnostics) :
    ∃ id u, s.cache.get? id = some u ∧ u.state = .parsed ∧ d.address = some u.address := by
  obtain ⟨id, hid, ht⟩ := List.mem_filterMap.mp ht
  obtain ⟨target, hsource, rfl⟩ := Option.map_eq_some_iff.mp ht
  obtain ⟨u, hu, hp⟩ := Cache.isIn_iff.mp (Build.isIn_parsed_of_mem_transformOrder hid)
  obtain ⟨v, tree, hv, -, rfl⟩ := Build.source?_eq_some.mp hsource
  obtain rfl := Option.some.inj (hu.symm.trans hv)
  exact ⟨id, u, hu, hp, locates.transform _ _ d hd⟩

/-! ### Batches -/

/-- A check that finds errors of units that are open settles all of them. -/
theorem traceable_of_check (phase : Phase) {mark : Mark} (h : s.cache.Traceable)
    (hn : s.pending.Nodup) (errors : s.reporter.errorsSince mark ≠ [])
    (located : ∀ d ∈ s.reporter.errorsSince mark, ∃ id u, s.cache.get? id = some u ∧
      u.state.isSettled = false ∧ d.address = some u.address) :
    ∃ failed build, s.toBuild.check s.cache.ids phase mark = ⟨some failed, build⟩ ∧
      ({ s with toBuild := build }.abortFailed failed).cache.Traceable := by
  obtain ⟨first, others, he⟩ := List.exists_cons_of_ne_nil errors
  obtain ⟨id, u, hu, hs, ha⟩ := located first (by rw [he]; exact List.mem_cons_self)
  obtain ⟨failed, cache, hcheck, hblames, hsettled⟩ := Build.blames_check h he hu hs ha
  refine ⟨failed, _, hcheck, (h.of_blames hblames).congr fun j => ?_⟩
  exact standing?_of_settled (s := { s with cache := cache }) hsettled hn failed j

theorem traceable_lowered (h : s.cache.Traceable) : s.loweredSession.cache.Traceable :=
  h.congr (Cache.standing?_foldl_modify (fun u => u.standing_lowered _ _) _ _)

theorem standing?_afterRun (s : Session Tree Value Listener) (ran : Ran Value) (id : UnitId) :
    (s.afterRun ran).cache.standing? id = s.cache.standing? id := by
  show (finishAll s.cache ran.results).standing? id = _
  generalize s.cache = c
  induction ran.results generalizing c with
  | nil => rfl
  | cons r rest ih =>
    have hfinish : (c.modify r.1 (·.finish r.2)).standing? id = c.standing? id :=
      Cache.standing?_modify (f := (·.finish r.2)) (fun _ _ => rfl) id
    exact (ih _).trans hfinish

theorem traceable_afterRun (h : s.cache.Traceable) (ran : Ran Value) :
    (s.afterRun ran).cache.Traceable :=
  h.congr (standing?_afterRun s ran)

theorem Ready.standing?_completes (ready : s.Ready) {t : Session Tree Value Listener}
    (completes : Completes s t) (passes : s.Passes) (id : UnitId) :
    t.cache.standing? id = s.cache.standing? id := by
  cases hu : s.cache.get? id with
  | none =>
    have hn : t.cache.get? id = none := by
      rw [Cache.get?_eq_none_iff, completes.size]
      exact Cache.get?_eq_none_iff.mp hu
    simp only [Cache.standing?, hu, hn]
  | some u =>
    rw [Cache.standing?_eq (completes.unit id u hu), Cache.standing?_eq hu]
    rcases ready.state id u hu with hp | hs
    · obtain ⟨value, hvalue⟩ := ready.lookup_of_parsed passes hu hp
      simp [hvalue, SourceUnit.standing, SourceUnit.completed, hp]
    · rw [ready.lookup_of_isSettled hu hs]

theorem Ready.traceable_completes (ready : s.Ready) {t : Session Tree Value Listener}
    (h : s.cache.Traceable) (completes : Completes s t) (passes : s.Passes) :
    t.cache.Traceable :=
  h.congr (ready.standing?_completes completes passes)

theorem isSettled_of_parsed {u : SourceUnit Tree Value Listener} (h : u.state = .parsed) :
    u.state.isSettled = false := by
  rw [h]
  rfl

theorem Ready.traceable_of_analysis_errors (ready : s.Ready) (reached : s.barrierReached = true)
    (h : s.cache.Traceable) (locates : s.tools.Locates)
    (errors : s.analysis.diagnostics.filter Diagnostic.isError ≠ []) :
    s.checkBarrier.cache.Traceable := by
  have hn : s.pending.Nodup := by simp [ready.pending]
  rw [← analysis_errors] at errors
  obtain ⟨failed, build, hcheck, htraces⟩ := traceable_of_check (s := s.analysedSession)
    .analyze h hn errors fun d hd => by
      rw [analysis_errors] at hd
      obtain ⟨id, u, hu, hp, hd⟩ := located_in_analysis locates (List.mem_filter.mp hd).1
      exact ⟨id, u, hu, isSettled_of_parsed hp, hd⟩
  simp only [checkBarrier]
  rw [if_pos reached]
  simp only [ready.analyze_eq]
  rw [show s.cache.ids = s.analysedSession.cache.ids from rfl, hcheck]
  exact htraces

theorem Ready.traceable_of_lowering_errors (ready : s.Ready) (reached : s.barrierReached = true)
    (h : s.cache.Traceable) (locates : s.tools.Locates)
    (analysed : s.analysis.diagnostics.filter Diagnostic.isError = [])
    (errors : (s.lowerings.flatMap fun t =>
      (s.tools.transform t.2 s.analysis.value).diagnostics).filter Diagnostic.isError ≠ []) :
    s.checkBarrier.cache.Traceable := by
  have hn : s.pending.Nodup := by simp [ready.pending]
  have hids : s.cache.ids = s.loweredSession.cache.ids :=
    (Cache.ids_eq_of_size_eq (Cache.size_foldl_modify _ _ _)).symm
  rw [← lowering_errors] at errors
  obtain ⟨failed, build, hcheck, htraces⟩ := traceable_of_check (s := s.loweredSession)
    .transform (traceable_lowered h) hn errors fun d hd => by
      rw [lowering_errors] at hd
      obtain ⟨t, htm, hd⟩ := List.mem_flatMap.mp (List.mem_filter.mp hd).1
      obtain ⟨id, u, hu, hp, hd⟩ := located_in_lowerings locates htm hd
      rcases ready.get?_lowered hu with ⟨hs, -⟩ | ⟨tree, -, -, hv⟩
      · simp [isSettled_of_parsed hp] at hs
      · exact ⟨id, _, hv, rfl, hd⟩
  rw [checkBarrier_of_analysed ready reached analysed, hids, hcheck]
  exact htraces

/-- A unit whose code fails is the culprit of its batch. -/
theorem Ready.traceable_evaluate (ready : s.Ready) (h : s.cache.Traceable) (free : s.held = false)
    {id : UnitId} {message : String} (failed : s.batchRun.failed = some (id, message)) :
    s.loweredSession.evaluate.cache.Traceable := by
  have hn : s.pending.Nodup := by simp [ready.pending]
  have hrun : (s.loweredSession.afterRun s.batchRun).cache.Traceable :=
    traceable_afterRun (traceable_lowered h) s.batchRun
  obtain ⟨u, hu, hp⟩ := Cache.isIn_iff.mp (ready.mem_codes.mp (Toolchain.mem_of_failed failed))
  obtain ⟨w, hw, hs⟩ : ∃ w, (s.loweredSession.afterRun s.batchRun).cache.get? id = some w ∧
      w.state.isSettled = false := by
    rcases ready.get?_afterRun hu with ⟨hs, -, -⟩ | ⟨v, tree, -, rfl, -, hw⟩
    · simp [isSettled_of_parsed hp] at hs
    · refine ⟨_, hw, ?_⟩
      cases s.batchRun.results.lookup id <;> rfl
  rw [ready.evaluate_eq free, failed]
  refine traceable_failBatch (s := (s.loweredSession.afterRun s.batchRun).onBuild _) hrun hn hw hs
    ?_ rfl
  rw [Cache.addressOf_eq hw]
  rfl

/-- The batch at the barrier, whichever stage it ends in. -/
theorem Ready.traceable_checkBarrier (ready : s.Ready) (reached : s.barrierReached = true)
    (h : s.cache.Traceable) (locates : s.tools.Locates) (free : s.held = false) :
    s.checkBarrier.cache.Traceable := by
  by_cases hpasses : s.Passes
  · exact ready.traceable_completes h (ready.completes reached hpasses) hpasses
  by_cases ha : s.analysis.diagnostics.filter Diagnostic.isError = []
  swap
  · exact ready.traceable_of_analysis_errors reached h locates ha
  by_cases ht : (s.lowerings.flatMap fun t =>
      (s.tools.transform t.2 s.analysis.value).diagnostics).filter Diagnostic.isError = []
  swap
  · exact ready.traceable_of_lowering_errors reached h locates ha ht
  rw [checkBarrier_of_lowered ready reached ha ht]
  cases hf : s.batchRun.failed with
  | none =>
    have hgood (ds : List Diagnostic) (hds : ds.filter Diagnostic.isError = []) :
        ∀ d ∈ ds, d.isError = false := fun d hd => by
      simpa using List.filter_eq_nil_iff.mp hds d hd
    refine absurd ⟨hgood _ ha, fun t htm d hd => ?_, free, hf⟩ hpasses
    exact hgood _ ht d (List.mem_flatMap.mpr ⟨t, htm, hd⟩)
  | some failure => exact ready.traceable_evaluate h free hf

/-! ### Reading -/

theorem traceable_misread {u : SourceUnit Tree Value Listener} (h : s.cache.Traceable)
    (hn : s.pending.Nodup) (hu : s.cache.get? id = some u) (unsettled : u.state.isSettled = false)
    (bad : s.isSound u = false) : (s.misread id).cache.Traceable := by
  obtain ⟨reporter, project, hb⟩ := parse_of_not_sound hu bad
  have hcache : (s.toBuild.parse s.tools id).build.cache = s.cache := by rw [hb]
  have hparsed : (s.toBuild.parse s.tools id).build.cache.Traceable := by rwa [hcache]
  refine hparsed.of_blames (blames_culprit
    (s := { s with toBuild := (s.toBuild.parse s.tools id).build }) hparsed hn (hcache ▸ hu)
    unsettled (fun _ => SourceUnit.fail_recordError unsettled) ?_ rfl)
  exact Cache.addressOf_eq hu

theorem Reads.standing?_old {t : Session Tree Value Listener} {u : SourceUnit Tree Value Listener}
    {tree : Tree} {imports : List UnitId} (reads : Reads s t id u tree imports)
    (hu : s.cache.get? id = some u) (unsettled : u.state.isSettled = false) {j : UnitId}
    {x : Standing} (hx : s.cache.standing? j = some x) : t.cache.standing? j = some x := by
  obtain ⟨v, hv, rfl⟩ := Option.map_eq_some_iff.mp hx
  by_cases hj : id = j
  · subst hj
    obtain rfl := Option.some.inj (hu.symm.trans hv)
    have hne : u.state ≠ .error := by
      intro he
      simp [he, State.isSettled] at unsettled
    rw [Cache.standing?_eq reads.unit]
    simp [SourceUnit.standing, hne]
  · exact Cache.standing?_eq (reads.other j v hj hv)

/-- The units that reading a unit adds have not failed. -/
theorem Reads.standing?_back {t : Session Tree Value Listener}
    {u : SourceUnit Tree Value Listener} {tree : Tree} {imports : List UnitId}
    (reads : Reads s t id u tree imports) (hu : s.cache.get? id = some u)
    (unsettled : u.state.isSettled = false) {j : UnitId} {x : Standing}
    (hx : t.cache.standing? j = some x) :
    s.cache.standing? j = some x ∨ x.failed = false ∧ x.error = none := by
  cases hv : s.cache.get? j with
  | some v =>
    have hold := reads.standing?_old hu unsettled (Cache.standing?_eq hv)
    rw [← Option.some.inj (hold.symm.trans hx)]
    exact .inl (Cache.standing?_eq hv)
  | none =>
    obtain ⟨w, hw, rfl⟩ := Option.map_eq_some_iff.mp hx
    obtain ⟨-, address, kind, rfl⟩ := reads.fresh j w hw hv
    exact .inr ⟨rfl, rfl⟩

theorem Reads.traceable {t : Session Tree Value Listener} {u : SourceUnit Tree Value Listener}
    {tree : Tree} {imports : List UnitId} (reads : Reads s t id u tree imports)
    (h : s.cache.Traceable) (hu : s.cache.get? id = some u)
    (unsettled : u.state.isSettled = false) : t.cache.Traceable :=
  h.of_more (fun _ _ hx => reads.standing?_old hu unsettled hx)
    fun _ _ hx => reads.standing?_back hu unsettled hx

end Session

open Session

variable {m n : Moment Tree Value Listener}

/-- No move blurs where an error comes from, as long as nobody else reads the namespace. -/
theorem Move.traceable (hmove : Move m n) (sound : m.Sound) (locates : m.session.tools.Locates)
    (free : m.session.held = false) (h : m.session.cache.Traceable) :
    n.session.cache.Traceable := by
  cases hmove with
  | skip => exact h
  | @ask s id ahead =>
    dsimp only at h ⊢
    rw [cache_request_started]
    exact h.modify fun u _ => (u.standing_advance (by simp : State.loading ≠ .error))
  | fetch | giveUp => exact h.modify fun u _ => u.standing_advance (by simp)
  | receive => exact h.modify (f := SourceUnit.uncancelled) fun u _ => rfl
  | @take s id ahead text =>
    exact h.modify fun u _ =>
      SourceUnit.standing_advance { u with text := some (s.translate text) } (by simp)
  | @refuse s id ahead e =>
    obtain ⟨u, hu⟩ := Cache.get?_of_index_lt (sound.hand id rfl)
    have haddress := Cache.addressOf_eq hu
    exact traceable_failBatch (e := .fetch (s.cache.addressOf id) e.text)
      (s := s.onBuild (·.report (.ofUnit .fetch (s.cache.addressOf id) e.text))) h sound.nodup hu
      (sound.isSettled_hand hu rfl) haddress rfl
  | @misread s id ahead u unit bad =>
    exact traceable_misread h sound.nodup unit (sound.isSettled_hand unit rfl) bad
  | @read s id ahead u unit good =>
    obtain ⟨imports, hreads⟩ := sound.reads unit good
    exact hreads.traceable h unit (sound.isSettled_hand unit rfl)
  | @reject s id failed ahead u unit good =>
    obtain ⟨imports, hreads⟩ := sound.reads unit good
    have hread := hreads.traceable h unit (sound.isSettled_hand unit rfl)
    have hsound := sound.read unit hreads
    have haddress := Cache.addressOf_eq unit
    exact traceable_failBatch
      (e := .dependency (s.cache.addressOf id) ((s.understood id).cache.addressOf failed))
      hread hsound.nodup hreads.unit rfl haddress rfl
  | pass reached => exact (sound.ready reached).traceable_checkBarrier reached h locates free

theorem Moves.traceable (hmoves : Moves m n) (sound : m.Sound)
    (locates : m.session.tools.Locates) (free : m.session.held = false)
    (h : m.session.cache.Traceable) : n.session.cache.Traceable := by
  suffices hall : n.Sound ∧ SameSetting m.session n.session ∧ n.session.cache.Traceable from
    hall.2.2
  induction hmoves with
  | refl => exact ⟨sound, .refl _, h⟩
  | tail hmoves hmove ih =>
    obtain ⟨hsound, hsetting, htraces⟩ := ih
    exact ⟨hmove.sound hsound, hsetting.trans (hmove.develops hsound).setting,
      hmove.traceable hsound (hsetting.tools ▸ locates) (hsetting.held.trans free) htraces⟩

namespace Session

variable {s t : Session Tree Value Listener} {registered : List (UnitId × Listener)}

theorem Enters.traceable (henters : Enters s registered m) (h : s.cache.Traceable) :
    m.session.cache.Traceable := by
  have hfind (address : String) (kind : Kind) :
      (s.find address kind).session.cache.Traceable := by
    rcases s.find_cases address kind with ⟨u, -, hunits⟩ | ⟨-, hcache⟩
    · exact h.congr fun id => by rw [Cache.standing?, Cache.standing?, Cache.get?, hunits]; rfl
    · rw [hcache]
      exact h.push rfl rfl
  cases henters with
  | find address kind => exact hfind address kind
  | subscribe address kind unit unsettled listener =>
    exact (hfind address kind).modify
      (f := fun u => { u with listeners := u.listeners ++ [listener] }) fun _ _ => rfl
  | evaluate code listener =>
    refine Cache.Traceable.modify (c := s.cache.push _) (h.push rfl rfl)
      (f := fun u => { u with text := some code, listeners := u.listeners ++ listener.toList })
      fun _ _ => rfl
  | receive => exact h

theorem Enters.sameSetting (henters : Enters s registered m) : SameSetting s m.session := by
  cases henters <;> exact ⟨rfl, rfl, rfl, rfl, rfl⟩

theorem AtRest.traceable_advance (rest : s.AtRest) (h : s.cache.Traceable)
    (locates : s.tools.Locates) (free : s.held = false) (step : Advance s t) :
    t.cache.Traceable := by
  obtain ⟨registered, sync, m, last, hsteps⟩ := rest.steps step
  have hsetting := hsteps.enters.sameSetting
  rw [hsteps.leaves]
  exact hsteps.moves.traceable (hsteps.enters.sound (rest.withSync sync))
    (hsetting.tools ▸ locates) (hsetting.held.trans free) (hsteps.enters.traceable h)

end Session

end UnitLoader
