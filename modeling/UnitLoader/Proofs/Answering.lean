import UnitLoader.Proofs.Awaiting

/-! What the answer to a fetch does to a session. The text is read, and the units that it
imports are asked for; or the batch fails, because there is no text, or the text has
errors, or an import has failed. -/

namespace UnitLoader

variable {Tree Value Listener : Type}

namespace Session

variable {s t : Session Tree Value Listener}

/-- The text of an answer is in hand. -/
structure InText (s : Session Tree Value Listener) (ahead : List UnitId) (id : UnitId)
    (u : SourceUnit Tree Value Listener) (text : String) (m : Session Tree Value Listener) :
    Prop where
  sound : Moment.Sound ⟨m, ahead, .text id⟩
  unit : m.cache.get? id = some (u.withText (s.translate text))
  other : ∀ j, id ≠ j → m.cache.get? j = s.cache.get? j
  project : m.project = s.project
  ns : m.ns = s.ns
  outbox : m.outbox = s.outbox
  setting : SameSetting s m
  history : ∃ events, m.history = s.history ++ events ∧ ∀ e ∈ events, e.phase? ≠ some .evaluate

theorem AtRest.inText (h : s.AtRest) {c : Completion} (hc : c.unit ∈ s.pending)
    {u : SourceUnit Tree Value Listener} (hu : s.cache.get? c.unit = some u) {text : String}
    (hr : c.result = .ok text) :
    InText s [] c.unit u text ((s.received c).withText c.unit text) := by
  have hs : u.state = .loading := ((h.sound.fits _ u hu).pending.mp hc).1
  have hanswer : Moment.Sound ⟨s.received c, [], .answer c.unit (.ok text)⟩ := by
    have hreceive := h.sound.receive (Cache.isIn_iff.mpr ⟨u, hu, hs⟩)
    rwa [hr] at hreceive
  refine ⟨hanswer.take, ?_, fun j hj => ?_, rfl, rfl, rfl, ⟨rfl, rfl, rfl, rfl, rfl⟩,
    [.received c.unit c.address], rfl, by simp [Event.phase?]⟩
  · simp only [cache_withText, cache_received, Cache.get?_modify, if_true, hu, Option.map_some,
      SourceUnit.advance, hs]
    rfl
  · simp [Cache.get?_modify, hj]

section Reading

variable {ahead : List UnitId} {id : UnitId} {u : SourceUnit Tree Value Listener} {text : String}
  {m : Session Tree Value Listener}

theorem InText.isSound_iff (h : InText s ahead id u text m) :
    m.isSound (u.withText (s.translate text)) = true ↔
      ∀ d ∈ (s.reading u text).diagnostics, d.isError = false := by
  have hread : m.tools.parse ⟨(u.withText (s.translate text)).address,
      (u.withText (s.translate text)).text.getD ""⟩ (u.withText (s.translate text)).kind =
      s.reading u text := by
    rw [h.setting.tools]
    rfl
  simp only [isSound, hread, Bool.not_eq_true', List.any_eq_false, Bool.not_eq_true]

theorem InText.reads (h : InText s ahead id u text m)
    (hsound : m.isSound (u.withText (s.translate text)) = true) :
    ∃ imports, Reads m (m.understood id) id (u.withText (s.translate text))
        (s.reading u text).value imports ∧
      FoundAt (m.understood id).cache (s.importsIn u text) imports := by
  obtain ⟨imports, hreads⟩ := h.sound.reads h.unit hsound
  have htree : (m.tools.parse ⟨(u.withText (s.translate text)).address,
      (u.withText (s.translate text)).text.getD ""⟩ (u.withText (s.translate text)).kind).value =
      (s.reading u text).value := by
    rw [h.setting.tools]
    rfl
  rw [htree] at hreads
  refine ⟨imports, hreads, ?_⟩
  have hfound := hreads.found
  have hreferrer : m.referrer id =
      if u.origin.resolvesAgainstBase then s.baseAddress else u.address := by
    simp only [referrer, h.unit, h.setting.baseAddress]
    rfl
  rw [h.project, hreferrer, h.setting.tools] at hfound
  exact hfound

theorem InText.keeps (h : InText s ahead id u text m) (hu : s.cache.get? id = some u) :
    s.cache.Keeps m.cache := by
  intro j v hv
  by_cases hj : id = j
  · subst hj
    obtain rfl := Option.some.inj (hu.symm.trans hv)
    exact ⟨_, h.unit, rfl, rfl, rfl⟩
  · exact ⟨v, (h.other j hj).trans hv, rfl, rfl, rfl⟩

theorem Reads.keeps {n : Session Tree Value Listener} {tree : Tree} {imports : List UnitId}
    (h : Reads m n id u tree imports) (hu : m.cache.get? id = some u) :
    m.cache.Keeps n.cache := by
  intro j v hv
  by_cases hj : id = j
  · subst hj
    obtain rfl := Option.some.inj (hu.symm.trans hv)
    exact ⟨_, h.unit, rfl, rfl, rfl⟩
  · exact ⟨v, h.other j v hj hv, rfl, rfl, rfl⟩

theorem InText.isIn_error (h : InText s ahead id u text m) (hu : s.cache.get? id = some u)
    (hs : u.state.isSettled = false) {n : Session Tree Value Listener}
    {w : SourceUnit Tree Value Listener} {tree : Tree} {imports : List UnitId}
    (hreads : Reads m n id w tree imports) (d : UnitId) :
    n.cache.isIn .error d = s.cache.isIn .error d := by
  by_cases hd : id = d
  · subst hd
    have hne : u.state ≠ .error := fun he => by simp [he, State.isSettled] at hs
    simp [Cache.isIn_eq hreads.unit, Cache.isIn_eq hu, hne]
  · have hm := h.other d hd
    cases hv : s.cache.get? d with
    | some v =>
      rw [Cache.isIn_eq hv, Cache.isIn_eq (hreads.other d v hd (hm.trans hv))]
    | none =>
      have hnone : s.cache.isIn .error d = false := by simp [Cache.isIn, Cache.state?, hv]
      rw [hnone]
      cases hw : n.cache.get? d with
      | none => simp [Cache.isIn, Cache.state?, hw]
      | some x =>
        obtain ⟨-, address, kind, rfl⟩ := hreads.fresh d x hw (hm.trans hv)
        simp [Cache.isIn_eq hw, SourceUnit.new, Origin.initialState]

theorem InText.takes (h : InText s ahead id u text m) (hu : s.cache.get? id = some u)
    {n t : Session Tree Value Listener} {imports : List UnitId}
    (hreads : Reads m n id (u.withText (s.translate text)) (s.reading u text).value imports)
    (hfound : FoundAt n.cache (s.importsIn u text) imports) (hawaits : Awaits n t) :
    Takes s.awaiting t id u.awaited text imports where
  unit := by
    rw [hawaits.unit, hreads.unit, reading_awaiting, SourceUnit.readAs_awaited]
    rfl
  other := by
    intro j v hj hv
    rw [get?_awaiting] at hv
    obtain ⟨w, hw, rfl⟩ := Option.map_eq_some_iff.mp hv
    rw [hawaits.unit, hreads.other j w hj ((h.other j hj).trans hw)]
    rfl
  fresh := by
    intro j v hv hnone
    rw [get?_awaiting, Option.map_eq_none_iff] at hnone
    have hj : id ≠ j := by
      rintro rfl
      simp [hu] at hnone
    rw [hawaits.unit] at hv
    obtain ⟨w, hw, rfl⟩ := Option.map_eq_some_iff.mp hv
    obtain ⟨himport, address, kind, rfl⟩ := hreads.fresh j w hw ((h.other j hj).trans hnone)
    have hkind : kind = .module := by
      obtain ⟨a, -, ha⟩ := hfound.exists_address himport
      obtain ⟨x, hx, -, -, hk⟩ := Cache.lookup_eq_some ha
      obtain rfl := Option.some.inj (hw.symm.trans hx)
      exact hk
    subst hkind
    exact ⟨himport, address, rfl⟩
  found := by
    rw [importsIn_awaiting]
    exact hfound.imp fun _ _ hl => hawaits.keeps.lookup hl
  project := by
    rw [hawaits.project, hreads.project, h.project, SourceUnit.address_awaited]
    rfl
  ns := by
    rw [hawaits.ns, hreads.same]
    exact h.ns
  outbox := by
    rw [hawaits.outbox, hreads.same]
    exact h.outbox
  terms := by
    have hbefore : SameTerms s.awaiting m :=
      ⟨h.setting.tools, h.setting.baseAddress, h.setting.translate, h.setting.held⟩
    have hread : SameTerms m n := by
      rw [hreads.same]
      exact ⟨rfl, rfl, rfl, rfl⟩
    exact (hbefore.trans hread).trans hawaits.terms
  history := by
    obtain ⟨before, hb, hpb⟩ := h.history
    obtain ⟨after, ha, hpa⟩ := hawaits.history
    refine ⟨before ++ .parsed id u.address u.kind :: after, ?_, fun e he => ?_⟩
    · rw [ha, hreads.history, hb]
      simp [SourceUnit.withText, awaiting]
    · rcases List.mem_append.mp he with he | he
      · exact hpb e he
      · rcases List.mem_cons.mp he with rfl | he
        · simp [Event.phase?]
        · exact hpa e he

/-- A text that is welcome is read. -/
theorem InText.welcomed (h : InText s ahead id u text m) (hu : s.cache.get? id = some u)
    (hs : u.state.isSettled = false) (hw : s.Welcomes u text) :
    ∃ imports, Reads m (m.understood id) id (u.withText (s.translate text))
        (s.reading u text).value imports ∧
      FoundAt (m.understood id).cache (s.importsIn u text) imports ∧
      Moment.Sound ⟨m.understood id, imports ++ ahead, .nothing⟩ ∧
      ∀ load, handleLoaded load m id = (imports.foldl load (m.understood id)).checkBarrier := by
  have hsound := h.isSound_iff.mpr hw.sound
  obtain ⟨imports, hreads, hfound⟩ := h.reads hsound
  have himports : (m.understood id).cache.dependencyIds id = imports := by
    rw [Cache.dependencyIds_eq hreads.unit]
    rfl
  have hfine : ∀ d ∈ (m.understood id).cache.dependencyIds id,
      (m.understood id).cache.isIn .error d = false := by
    intro d hd
    rw [h.isIn_error hu hs hreads]
    refine Bool.eq_false_iff.mpr fun herror => ?_
    obtain ⟨v, hv, -⟩ := Cache.isIn_iff.mp herror
    obtain ⟨address, ha, hl⟩ := hfound.exists_address (himports ▸ hd)
    have hold := ((h.keeps hu).trans (hreads.keeps h.unit)).lookup_old hl
      (Cache.index_lt_of_get? hv)
    simp [hw.imports address ha d hold] at herror
  have hread : Move ⟨m, ahead, .text id⟩
      ⟨m.understood id, (m.understood id).cache.dependencyIds id ++ ahead, .nothing⟩ :=
    .read h.unit hsound hfine
  have hloaded (load) := handleLoaded_of_fine load h.unit hsound hfine
  rw [himports] at hread
  simp only [himports] at hloaded
  exact ⟨imports, hreads, hfound, hread.sound h.sound, hloaded⟩

theorem sameSettled_of_other {m : Session Tree Value Listener} {id : UnitId}
    {u v : SourceUnit Tree Value Listener} (hu : s.cache.get? id = some u)
    (hs : u.state.isSettled = false) (hv : m.cache.get? id = some v)
    (hs' : v.state.isSettled = false)
    (other : ∀ j, id ≠ j → ∀ w, w.state.isSettled = true →
      (s.cache.get? j = some w ↔ m.cache.get? j = some w)) : SameSettled s m := by
  intro j w hw
  by_cases hj : id = j
  · subst hj
    refine iff_of_false (fun he => ?_) fun he => ?_
    · obtain rfl := Option.some.inj (hu.symm.trans he)
      simp [hs] at hw
    · obtain rfl := Option.some.inj (hv.symm.trans he)
      simp [hs'] at hw
  · exact other j hj w hw

theorem InText.sameSettled (h : InText s ahead id u text m) (hu : s.cache.get? id = some u)
    (hs : u.state.isSettled = false) : SameSettled s m :=
  sameSettled_of_other hu hs h.unit rfl fun j hj w _ => by rw [h.other j hj]

/-- What is found while a text is read is not settled. -/
theorem InText.sameSettled_read (h : InText s ahead id u text m) (hu : s.cache.get? id = some u)
    (hs : u.state.isSettled = false) {n : Session Tree Value Listener} {tree : Tree}
    {imports : List UnitId}
    (hreads : Reads m n id (u.withText (s.translate text)) tree imports) : SameSettled s n := by
  refine sameSettled_of_other hu hs hreads.unit rfl fun j hj w hw => ?_
  constructor
  · intro he
    exact hreads.other j w hj ((h.other j hj).trans he)
  · intro he
    cases hv : m.cache.get? j with
    | some v => rw [← h.other j hj, hv, ← he, hreads.other j v hj hv]
    | none =>
      obtain ⟨-, address, kind, rfl⟩ := hreads.fresh j w he hv
      simp [SourceUnit.new, Origin.initialState, State.isSettled] at hw

/-- A text without a fault is welcome. -/
theorem InText.welcomes (h : InText s ahead id u text m) (hu : s.cache.get? id = some u)
    (hs : u.state.isSettled = false)
    (hsound : m.isSound (u.withText (s.translate text)) = true)
    (hfine : ∀ d ∈ (m.understood id).cache.dependencyIds id,
      (m.understood id).cache.isIn .error d = false) : s.Welcomes u text := by
  obtain ⟨imports, hreads, hfound⟩ := h.reads hsound
  have himports : (m.understood id).cache.dependencyIds id = imports := by
    rw [Cache.dependencyIds_eq hreads.unit]
    rfl
  refine ⟨h.isSound_iff.mp hsound, fun address ha d hd => ?_⟩
  have hlook := ((h.keeps hu).trans (hreads.keeps h.unit)).lookup hd
  have hmem : d ∈ imports := (hfound.mem_iff hlook).mp ha
  rw [← h.isIn_error hu hs hreads]
  exact hfine d (himports ▸ hmem)

/-- A text that is not welcome makes the batch fall. -/
theorem InText.unwelcome (h : InText s ahead id u text m) (hu : s.cache.get? id = some u)
    (hs : u.state.isSettled = false) (hbad : ¬ s.Welcomes u text)
    (load : Session Tree Value Listener → UnitId → Session Tree Value Listener) :
    ∃ n, SameSettled s n ∧ Falls n (handleLoaded load m id) := by
  cases hsound : m.isSound (u.withText (s.translate text)) with
  | false =>
    rw [handleLoaded_of_not_sound load h.unit hsound]
    exact ⟨m, h.sameSettled hu hs, h.sound.falls_misread h.unit hsound⟩
  | true =>
    obtain ⟨imports, hreads, -⟩ := h.reads hsound
    rw [handleLoaded_of_sound load h.unit hsound]
    cases hf : ((m.understood id).cache.dependencyIds id).find?
        ((m.understood id).cache.isIn .error) with
    | some failed =>
      exact ⟨_, h.sameSettled_read hu hs hreads, h.sound.falls_rejected h.unit hsound⟩
    | none =>
      refine absurd (h.welcomes hu hs hsound fun d hd => ?_) hbad
      simpa using List.find?_eq_none.mp hf d hd

end Reading

theorem AtRest.complete_of_text (h : s.AtRest) {c : Completion} (hc : c.unit ∈ s.pending)
    {text : String} (hr : c.result = .ok text) :
    s.complete c = handleLoaded (loadUnit (s.received c).depth)
      ((s.received c).withText c.unit text) c.unit := by
  rw [(h.complete_of_pending hc).1, hr]
  rfl

theorem AtRest.started (h : s.AtRest) :
    ∀ id u, s.cache.get? id = some u → u.state ≠ .notStarted :=
  fun id u hu hs => by cases (h.sound.fits id u hu).ahead hs

/-- A text that is welcome is read, and its imports are asked for. -/
theorem AtRest.takes (h : s.AtRest) (sync : s.sync = false) {c : Completion}
    (hc : c.unit ∈ s.pending) {u : SourceUnit Tree Value Listener}
    (hu : s.cache.get? c.unit = some u) {text : String} (hr : c.result = .ok text)
    (hw : s.Welcomes u text) :
    ∃ t imports, Takes s t c.unit u text imports ∧ Moment.Sound ⟨t, [], .nothing⟩ ∧
      s.complete c = t.checkBarrier := by
  have hs : u.state = .loading := ((h.sound.fits _ u hu).pending.mp hc).1
  have hin := h.inText hc hu hr
  have hcomplete := h.complete_of_text hc hr
  obtain ⟨imports, hreads, hfound, hsound, hloaded⟩ :=
    hin.welcomed hu (by simp [hs, State.isSettled]) hw
  rw [hloaded] at hcomplete
  generalize (s.received c).withText c.unit text = m at hin hcomplete hsound hreads hfound
  generalize m.understood c.unit = n at hreads hfound hsound hcomplete
  have hsync : n.sync = false := by
    rw [hreads.same]
    exact hin.setting.sync.trans sync
  have hasks := asks_foldl hsync (s.received c).depth imports
  have hall : ∀ j v, n.cache.get? j = some v → v.state = .notStarted → j ∈ imports :=
    fun j v hv hn => by simpa using (hsound.fits j v hv).ahead hn
  have htakes := hin.takes hu hreads hfound (hasks.awaits hall)
  rw [awaiting_eq_self h.started, SourceUnit.awaited_of_ne (by simp [hs])] at htakes
  have hfold := ((loadsByWorks_loadUnit (s.received c).depth).foldl imports hsound).moves
  exact ⟨_, imports, htakes, Moves.sound hfold hsound, hcomplete⟩

theorem Falls.collapses {m : Session Tree Value Listener} (hf : Falls m t)
    (hsame : SameSettled s m) : Collapses s t where
  settled := by
    intro id u hu hs
    obtain ⟨v, hv, huv⟩ := hf.unit id u ((hsame id u hs).mp hu)
    rw [hv, huv.settled hs]
  failed := by
    intro id v hv hopen
    obtain ⟨w, hw⟩ := Cache.get?_of_index_lt (hf.size ▸ Cache.index_lt_of_get? hv)
    obtain ⟨x, hx, hwx⟩ := hf.unit id w hw
    obtain rfl := Option.some.inj (hv.symm.trans hx)
    cases hs : w.state.isSettled with
    | true =>
      have := hopen w ((hsame id w hs).mpr hw)
      simp [hs] at this
    | false => exact (hwx.failed hs).1
  pending := hf.pending

/-- Any other answer makes the batch fall. -/
theorem AtRest.collapses (h : s.AtRest) {c : Completion} (hc : c.unit ∈ s.pending)
    {u : SourceUnit Tree Value Listener} (hu : s.cache.get? c.unit = some u)
    (hbad : ∀ text, c.result = .ok text → ¬ s.Welcomes u text) :
    Collapses s (s.complete c) := by
  have hs : u.state = .loading := ((h.sound.fits _ u hu).pending.mp hc).1
  have hopen : u.state.isSettled = false := by simp [hs, State.isSettled]
  cases hr : c.result with
  | error e =>
    obtain ⟨hcomplete, hloading⟩ := h.complete_of_pending hc
    have hfalls := (h.sound.receive hloading).falls_refused c.unit e
    have heq : s.complete c = (s.received c).refused c.unit e := by
      rw [hcomplete, hr]
      rfl
    have hunit : (s.received c).cache.get? c.unit = some { u with cancellable := false } := by
      simp [Cache.get?_modify, hu]
    rw [heq]
    refine hfalls.collapses (sameSettled_of_other hu hopen hunit hopen fun j hj w _ => ?_)
    simp [Cache.get?_modify, hj]
  | ok text =>
    rw [h.complete_of_text hc hr]
    obtain ⟨n, hsame, hfalls⟩ := (h.inText hc hu hr).unwelcome hu hopen (hbad text hr)
      (loadUnit (s.received c).depth)
    exact hfalls.collapses hsame

end Session

end UnitLoader
