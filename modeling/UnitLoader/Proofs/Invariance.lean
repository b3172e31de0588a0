import UnitLoader.Proofs.Moves

/-! Every move keeps the invariant. -/

namespace UnitLoader

variable {Tree Value Listener : Type} {s : Session Tree Value Listener} {ahead : List UnitId}

namespace Moment

/-- The invariant is about the units, the fetches and the outbox, and nothing else. -/
theorem Sound.congr {m n : Moment Tree Value Listener} (h : m.Sound)
    (units : n.session.cache.units = m.session.cache.units)
    (pending : n.session.pending = m.session.pending)
    (outbox : n.session.outbox = m.session.outbox) (hand : n.hand = m.hand)
    (ahead : ∀ id, m.session.cache.isIn .notStarted id = true → id ∈ m.ahead → id ∈ n.ahead) :
    n.Sound where
  fits := by
    intro id u hu
    rw [Cache.get?, units] at hu
    have hf := h.fits id u hu
    exact
      { proper := hf.proper
        pending := by rw [pending, hand, hf.pending]
        cancellable := by rw [pending, hf.cancellable]
        ahead := fun hs => ahead id (Cache.isIn_iff.mpr ⟨u, hu, hs⟩) (hf.ahead hs)
        loaded := by rw [hand, hf.loaded]
        loading := fun result he => hf.loading result (hand ▸ he) }
  nodup := by
    rw [pending]
    exact h.nodup
  known := by
    rw [pending, Cache.size, units]
    exact h.known
  hand := by
    rw [hand, Cache.size, units]
    exact h.hand
  outbox := by
    rw [outbox]
    exact fun note hn => (h.outbox note hn).mono fun id u hu _ => by rw [Cache.get?, units]; exact hu

theorem Sound.of_push {m n : Moment Tree Value Listener} (h : m.Sound)
    {w : SourceUnit Tree Value Listener} (cache : n.session.cache = m.session.cache.push w)
    (pending : n.session.pending = m.session.pending)
    (outbox : n.session.outbox = m.session.outbox) (unit : n.Fits ⟨m.session.cache.size⟩ w)
    (other : ∀ j u, j.index < m.session.cache.size → m.Fits j u → n.Fits j u)
    (hand : ∀ j, n.hand.unit? = some j → j = ⟨m.session.cache.size⟩) : n.Sound where
  fits := by
    intro j u hu
    rw [cache, Cache.get?_push] at hu
    split at hu
    · next hj =>
      obtain rfl := Option.some.inj hu
      have hid : j = ⟨m.session.cache.size⟩ := UnitId.ext_iff.mpr hj
      rw [hid]
      exact unit
    · exact other j u (Cache.index_lt_of_get? hu) (h.fits j u hu)
  nodup := by
    rw [pending]
    exact h.nodup
  known := by
    intro j hj
    rw [pending] at hj
    rw [cache, Cache.size_push]
    exact Nat.lt_succ_of_lt (h.known j hj)
  hand := by
    intro j hj
    rw [hand j hj, cache, Cache.size_push]
    exact Nat.lt_succ_self _
  outbox := by
    rw [outbox]
    exact fun note hn => (h.outbox note hn).mono fun id u hu _ => by
      rw [cache, Cache.get?_push_of_get? hu]

theorem Sound.skip {id : UnitId} (h : Sound ⟨s, id :: ahead, .nothing⟩)
    (old : s.cache.isIn .notStarted id = false) : Sound ⟨s, ahead, .nothing⟩ := by
  refine h.congr rfl rfl rfl rfl fun j hn hj => ?_
  rcases List.mem_cons.mp hj with rfl | hj
  · exact absurd hn (by simp [old])
  · exact hj

theorem Sound.notStarted {m : Moment Tree Value Listener} (h : m.Sound) {id : UnitId}
    {u : SourceUnit Tree Value Listener} (hu : m.session.cache.get? id = some u)
    (hs : u.state = .notStarted) : id ∉ m.session.pending ∧ u.cancellable = false := by
  have hf := h.fits id u hu
  have hp : id ∉ m.session.pending := fun hp => by
    have := (hf.pending.mp hp).1
    simp [hs] at this
  exact ⟨hp, Bool.eq_false_iff.mpr fun hc => hp (hf.cancellable.mp hc)⟩

theorem proper_loading {u : SourceUnit Tree Value Listener} (h : u.Proper)
    (hs : u.state.isPastParsing = false) (cancellable : Bool) :
    SourceUnit.Proper { u with state := .loading, cancellable := cancellable } where
  transformed := by simp
  tree := by simp
  result := by simp
  error := by simp
  dependencies := fun _ => h.dependencies hs
  listeners := fun he => by cases he

theorem Sound.start {id : UnitId} (h : Sound ⟨s, id :: ahead, .nothing⟩)
    (new : s.cache.isIn .notStarted id = true) (result : Except FetchError String) :
    Sound ⟨s.started id, ahead, .answer id result⟩ := by
  obtain ⟨u, hu, hs⟩ := Cache.isIn_iff.mp new
  obtain ⟨hp, hc⟩ := h.notStarted hu hs
  refine h.of_modify rfl rfl (fun v hv => ?_) (fun v hv => ?_) (fun j v hj hv => ?_) h.nodup
    (fun j hj => .inr hj) (fun j hj => (Option.some.inj hj).symm) (Cache.index_lt_of_get? hu)
  · obtain rfl := Option.some.inj (hu.symm.trans hv)
    simp [hs, State.isSettled]
  · obtain rfl := Option.some.inj (hu.symm.trans hv)
    have hadv : u.advance .loading = { u with state := .loading, cancellable := u.cancellable } := by
      simp [SourceUnit.advance, hs, State.mayBecome, State.rank]
    rw [hadv]
    exact
      { proper := proper_loading (h.fits id u hu).proper (by simp [hs, State.isPastParsing, State.rank]) _
        pending := iff_of_false hp fun hn => hn.2 result rfl
        cancellable := iff_of_false (by simp [hc]) hp
        ahead := by simp
        loaded := by simp
        loading := fun _ _ => rfl }
  · refine (h.fits j v hv).of_other (by simp [InHand.unit?]) (by simpa [InHand.unit?] using hj) .rfl
      fun _ hj' => ?_
    exact (List.mem_cons.mp hj').resolve_left (Ne.symm hj)

theorem Sound.fetch {id : UnitId} (h : Sound ⟨s, id :: ahead, .nothing⟩)
    (new : s.cache.isIn .notStarted id = true) (result : Except FetchError String) :
    Sound ⟨(s.started id).fetched id, ahead, .answer id result⟩ :=
  (h.start new result).congr rfl rfl rfl rfl fun _ _ hid => hid

theorem Sound.ask {id : UnitId} (h : Sound ⟨s, id :: ahead, .nothing⟩)
    (new : s.cache.isIn .notStarted id = true) :
    Sound ⟨(s.started id).request id, ahead, .nothing⟩ := by
  obtain ⟨u, hu, hs⟩ := Cache.isIn_iff.mp new
  obtain ⟨hp, hc⟩ := h.notStarted hu hs
  have hpending : ((s.started id).request id).pending = s.pending ++ [id] :=
    Session.pending_request _ id
  refine h.of_modify (Session.cache_request_started s id) (Session.outbox_request _ id) (fun v hv => ?_) (fun v hv => ?_) (fun j v hj hv => ?_) ?_
    (fun j hj => ?_) (fun j hj => by cases hj) (Cache.index_lt_of_get? hu)
  · obtain rfl := Option.some.inj (hu.symm.trans hv)
    simp [hs, State.isSettled]
  · obtain rfl := Option.some.inj (hu.symm.trans hv)
    have hadv : u.advance .loading = { u with state := .loading } := by
      simp [SourceUnit.advance, hs, State.mayBecome, State.rank]
    rw [hadv]
    exact
      { proper := proper_loading (h.fits id u hu).proper (by simp [hs, State.isPastParsing, State.rank]) _
        pending := by simp [hpending]
        cancellable := by simp [hpending]
        ahead := by simp
        loaded := by simp
        loading := fun _ he => by cases he }
  · refine (h.fits j v hv).of_other (by simp [InHand.unit?]) (by simp [InHand.unit?]) ?_
      fun _ hj' => ?_
    · simp [hpending, Ne.symm hj]
    · exact (List.mem_cons.mp hj').resolve_left (Ne.symm hj)
  · rw [hpending]
    exact List.nodup_append.mpr ⟨h.nodup, List.nodup_singleton id, fun a ha b hb => by
      obtain rfl := List.mem_singleton.mp hb
      rintro rfl
      exact hp ha⟩
  · rw [hpending] at hj
    exact (List.mem_append.mp hj).symm.imp_left List.mem_singleton.mp

theorem Sound.receive {c : Completion} (h : Sound ⟨s, ahead, .nothing⟩)
    (loading : s.cache.isIn .loading c.unit = true) :
    Sound ⟨s.received c, ahead, .answer c.unit c.result⟩ := by
  obtain ⟨u, hu, hs⟩ := Cache.isIn_iff.mp loading
  have hpending : (s.received c).pending = s.pending.erase c.unit := rfl
  have hgone : c.unit ∉ s.pending.erase c.unit := fun hm => (h.nodup.mem_erase_iff.mp hm).1 rfl
  refine h.of_modify rfl rfl (fun v hv => ?_) (fun v hv => ?_) (fun j v hj hv => ?_)
    (h.nodup.erase _) (fun j hj => .inr (List.mem_of_mem_erase hj))
    (fun j hj => (Option.some.inj hj).symm) (Cache.index_lt_of_get? hu)
  · obtain rfl := Option.some.inj (hu.symm.trans hv)
    simp [hs, State.isSettled]
  · obtain rfl := Option.some.inj (hu.symm.trans hv)
    have hf := h.fits c.unit u hu
    exact
      { proper := ⟨hf.proper.transformed, hf.proper.tree, hf.proper.result, hf.proper.error,
          hf.proper.dependencies, hf.proper.listeners⟩
        pending := iff_of_false (by rwa [hpending]) fun hn => hn.2 c.result rfl
        cancellable := iff_of_false (by simp) (by rwa [hpending])
        ahead := by simp [hs]
        loaded := by simp [hs]
        loading := fun _ _ => hs }
  · refine (h.fits j v hv).of_other (by simp [InHand.unit?]) (by simpa [InHand.unit?] using hj) ?_
      fun _ hj' => hj'
    rw [hpending]
    exact List.mem_erase_of_ne (Ne.symm hj)

theorem Sound.take {id : UnitId} {text : String} (h : Sound ⟨s, ahead, .answer id (.ok text)⟩) :
    Sound ⟨s.withText id text, ahead, .text id⟩ := by
  obtain ⟨u, hu⟩ := Cache.get?_of_index_lt (h.hand id rfl)
  have hf := h.fits id u hu
  have hs : u.state = .loading := hf.loading _ rfl
  have hp : id ∉ s.pending := fun hp => (hf.pending.mp hp).2 _ rfl
  refine h.of_modify rfl rfl (fun v hv => ?_) (fun v hv => ?_) (fun j v hj hv => ?_) h.nodup
    (fun j hj => .inr hj) (fun j hj => (Option.some.inj hj).symm) (Cache.index_lt_of_get? hu)
  · obtain rfl := Option.some.inj (hu.symm.trans hv)
    simp [hs, State.isSettled]
  · obtain rfl := Option.some.inj (hu.symm.trans hv)
    have hadv : ({ u with text := some (s.translate text) } :
        SourceUnit Tree Value Listener).advance .loaded =
          { u with text := some (s.translate text), state := .loaded } := by
      simp [SourceUnit.advance, hs, State.mayBecome, State.rank]
    rw [hadv]
    exact
      { proper := ⟨by simp, by simp, by simp, by simp, fun _ => hf.proper.dependencies
          (by simp [hs, State.isPastParsing, State.rank]), fun he => by cases he⟩
        pending := iff_of_false hp (by simp)
        cancellable := hf.cancellable
        ahead := by simp
        loaded := by simp
        loading := fun _ he => by cases he }
  · exact (h.fits j v hv).of_other (by simpa [InHand.unit?] using hj)
      (by simpa [InHand.unit?] using hj) .rfl fun _ hj' => hj'

/-! ### Failures -/

theorem Sound.cancellable {m : Moment Tree Value Listener} (h : m.Sound) {id : UnitId}
    {u : SourceUnit Tree Value Listener} (hu : m.session.cache.get? id = some u)
    (hc : u.cancellable = true) : id ∈ m.session.pending :=
  (h.fits id u hu).cancellable.mp hc

theorem Sound.falls_refused {m : Moment Tree Value Listener} (h : m.Sound) (id : UnitId)
    (e : FetchError) : Session.Falls m.session (m.session.refused id e) :=
  Session.falls_failBatch h.quiet (Session.stumbles_report m.session _) h.nodup
    (fun _ _ hu hc => h.cancellable hu hc) id _

theorem Sound.falls_misread {id : UnitId} {u : SourceUnit Tree Value Listener}
    (h : Sound ⟨s, ahead, .text id⟩) (hu : s.cache.get? id = some u) (sound : s.isSound u = false) :
    Session.Falls s (s.misread id) := by
  obtain ⟨reporter, project, hb⟩ := Session.parse_of_not_sound hu sound
  have hs : u.state = .loaded := (h.fits id u hu).loaded.mpr rfl
  have hst : Session.Stumbles s { s with toBuild := (s.toBuild.parse s.tools id).build } :=
    Session.stumbles_of_cache (by rw [hb]) rfl ⟨rfl, rfl, rfl, rfl, rfl⟩
  refine Session.falls_abortAll h.quiet (hst.trans (Session.stumbles_recordError (fun v hv => ?_) _))
    h.nodup (fun j v hv hc => ?_) _
  · rw [hb] at hv
    obtain rfl := Option.some.inj (hu.symm.trans hv)
    simp [hs, State.isSettled]
  · simp only [hb, Session.modifyUnit, Session.onBuild, Build.modify, Cache.get?_modify] at hv
    split at hv
    · obtain ⟨w, hw, rfl⟩ := Option.map_eq_some_iff.mp hv
      exact h.cancellable hw hc
    · exact h.cancellable hv hc

/-! ### Reading -/

theorem Sound.reads {id : UnitId} {u : SourceUnit Tree Value Listener}
    (h : Sound ⟨s, ahead, .text id⟩) (hu : s.cache.get? id = some u) (sound : s.isSound u = true) :
    ∃ imports, Session.Reads s (s.understood id) id u
      (s.tools.parse ⟨u.address, u.text.getD ""⟩ u.kind).value imports := by
  have hf := h.fits id u hu
  have hs : u.state = .loaded := hf.loaded.mpr rfl
  exact Session.reads_understood hu sound hs
    (hf.proper.dependencies (by simp [hs, State.isPastParsing, State.rank]))

theorem Sound.read {id : UnitId} {u : SourceUnit Tree Value Listener} {tree : Tree}
    {imports : List UnitId} {t : Session Tree Value Listener} (h : Sound ⟨s, ahead, .text id⟩)
    (hu : s.cache.get? id = some u) (hr : Session.Reads s t id u tree imports) :
    Sound ⟨t, t.cache.dependencyIds id ++ ahead, .nothing⟩ := by
  have hf := h.fits id u hu
  have hs : u.state = .loaded := hf.loaded.mpr rfl
  have hp : id ∉ s.pending := fun hp => by
    have := (hf.pending.mp hp).1
    simp [hs] at this
  have hpending : t.pending = s.pending := by rw [hr.same]
  have hdeps : t.cache.dependencyIds id = imports := by
    rw [Cache.dependencyIds_eq hr.unit]
    rfl
  have hold (j : UnitId) (v : SourceUnit Tree Value Listener) (hv : s.cache.get? j = some v) :
      (id = j ∧ v = u) ∨ (id ≠ j ∧ t.cache.get? j = some v) := by
    by_cases hj : id = j
    · subst hj
      exact .inl ⟨rfl, Option.some.inj (hv.symm.trans hu)⟩
    · exact .inr ⟨hj, hr.other j v hj hv⟩
  have hknown (j : UnitId) (hj : j.index < s.cache.size) : j.index < t.cache.size := by
    obtain ⟨v, hv⟩ := Cache.get?_of_index_lt hj
    rcases hold j v hv with ⟨rfl, -⟩ | ⟨-, hv⟩
    · exact Cache.index_lt_of_get? hr.unit
    · exact Cache.index_lt_of_get? hv
  refine ⟨fun j v hv => ?_, hpending ▸ h.nodup, fun j hj => hknown j ?_, fun j hj => ?_,
    fun note hn => ?_⟩
  · cases hw : s.cache.get? j with
    | none =>
      obtain ⟨himp, address, kind, rfl⟩ := hr.fresh j v hv hw
      have hj : j ∉ t.pending := fun hj => by
        rw [hpending] at hj
        have hlt : j.index < s.cache.size := h.known j hj
        exact absurd (Cache.get?_eq_none_iff.mp hw) (by omega)
      exact
        { proper := ⟨by simp [SourceUnit.new, Origin.initialState], by simp [SourceUnit.new,
            Origin.initialState], by simp [SourceUnit.new, Origin.initialState], by simp
            [SourceUnit.new, Origin.initialState], fun _ => rfl, fun _ => rfl⟩
          pending := iff_of_false hj (by simp [SourceUnit.new, Origin.initialState])
          cancellable := iff_of_false (by simp [SourceUnit.new]) hj
          ahead := fun _ => List.mem_append_left _ (hdeps ▸ himp)
          loaded := by simp [SourceUnit.new, Origin.initialState]
          loading := fun _ he => by cases he }
    | some w =>
      rcases hold j w hw with ⟨rfl, rfl⟩ | ⟨hj, hw'⟩
      · obtain rfl := Option.some.inj (hv.symm.trans hr.unit)
        exact
          { proper := ⟨by simp, fun _ => rfl, by simp, by simp, by simp [State.isPastParsing],
              by simp [State.isSettled]⟩
            pending := iff_of_false (by rwa [hpending]) (by simp)
            cancellable := iff_of_false (fun hc => hp (hf.cancellable.mp hc)) (by rwa [hpending])
            ahead := by simp
            loaded := by simp
            loading := fun _ he => by cases he }
      · obtain rfl := Option.some.inj (hv.symm.trans hw')
        exact (h.fits j v hw).of_other (by simpa [InHand.unit?] using hj) (by simp [InHand.unit?])
          (by rw [hpending]) fun _ hj => List.mem_append_right _ hj
  · rw [hpending] at hj
    exact h.known j hj
  · cases hj
  · have houtbox : t.outbox = s.outbox := by rw [hr.same]
    rw [houtbox] at hn
    refine (h.outbox note hn).mono fun j v hv hset => ?_
    rcases hold j v hv with ⟨rfl, rfl⟩ | ⟨-, hv'⟩
    · simp [hs, State.isSettled] at hset
    · exact hv'

theorem Sound.falls_rejected {id failed : UnitId} {u : SourceUnit Tree Value Listener}
    (h : Sound ⟨s, ahead, .text id⟩) (hu : s.cache.get? id = some u) (sound : s.isSound u = true) :
    Session.Falls (s.understood id) (s.rejected id failed) := by
  obtain ⟨imports, hr⟩ := h.reads hu sound
  have hread := h.read hu hr
  exact Session.falls_failBatch hread.quiet (Session.Stumbles.refl _) hread.nodup
    (fun _ _ hu hc => hread.cancellable hu hc) id _

/-! ### The barrier -/

theorem Sound.ready (h : Sound ⟨s, ahead, .nothing⟩) (reached : s.barrierReached = true) :
    s.Ready := by
  simp only [Session.barrierReached, Bool.and_eq_true, Cache.areAll_iff, Cache.hasAny_iff,
    decide_eq_true_eq] at reached
  obtain ⟨hall, hany⟩ := reached
  have hloading (id : UnitId) (u : SourceUnit Tree Value Listener) (hu : s.cache.get? id = some u) :
      u.state ≠ .loading := by
    intro hs
    have := hall id u hu
    simp [hs, State.isPastParsing, State.rank] at this
  have hpending : s.pending = [] := by
    refine List.eq_nil_iff_forall_not_mem.mpr fun id hp => ?_
    obtain ⟨u, hu⟩ := Cache.get?_of_index_lt (h.known id hp)
    exact hloading id u hu ((h.fits id u hu).pending.mp hp).1
  refine ⟨fun id u hu => ?_, fun id u hu => (h.fits id u hu).proper.tree, hany, h.quiet,
    fun id u hu => Bool.eq_false_iff.mpr fun hc => ?_, hpending⟩
  · have hpast := hall id u hu
    have htransformed := (h.fits id u hu).proper.transformed
    cases hs : u.state <;> simp_all [State.isPastParsing, State.rank, State.isSettled]
  · have := h.cancellable hu hc
    simp [hpending] at this

theorem Sound.of_completes {t : Session Tree Value Listener} (h : Sound ⟨s, ahead, .nothing⟩)
    (hready : s.Ready) (hp : s.Passes) (hc : Session.Completes s t) :
    Sound ⟨t, ahead, .nothing⟩ := by
  have hpending : t.pending = [] := by rw [hc.same, hready.pending]
  have hsettled (id : UnitId) (u : SourceUnit Tree Value Listener) (hu : s.cache.get? id = some u)
      (hs : u.state.isSettled = true) : t.cache.get? id = some u := by
    rw [hc.unit id u hu, hready.lookup_of_isSettled hu hs]
  refine ⟨fun id v hv => ?_, by simp [hpending], by simp [hpending], fun _ he => ?_,
    fun note hn => ?_⟩
  · obtain ⟨u, hu⟩ := Cache.get?_of_index_lt (hc.size ▸ Cache.index_lt_of_get? hv)
    rcases hready.state id u hu with hs | hs
    · obtain ⟨value, hvalue⟩ := hready.lookup_of_parsed hp hu hs
      have hunit := hc.unit id u hu
      simp only [hvalue] at hunit
      obtain rfl := Option.some.inj (hv.symm.trans hunit)
      have hcancel : u.cancellable = false := hready.fetched id u hu
      exact
        { proper := ⟨by simp [SourceUnit.completed], by simp [SourceUnit.completed], fun _ => rfl,
            by simp [SourceUnit.completed], by simp [SourceUnit.completed, State.isPastParsing,
            State.rank], fun _ => rfl⟩
          pending := by simp [hpending, SourceUnit.completed]
          cancellable := by simp [hpending, SourceUnit.completed, hcancel]
          ahead := by simp [SourceUnit.completed]
          loaded := by simp [SourceUnit.completed]
          loading := fun _ he => by cases he }
    · obtain rfl := Option.some.inj (hv.symm.trans (hsettled id u hu hs))
      have hf := h.fits id v hu
      exact
        { proper := hf.proper
          pending := by rw [hpending, ← hready.pending]; exact hf.pending
          cancellable := by rw [hpending, ← hready.pending]; exact hf.cancellable
          ahead := hf.ahead
          loaded := hf.loaded
          loading := fun _ he => by cases he }
  · cases he
  · rw [hc.outbox] at hn
    rcases List.mem_append.mp hn with hn | hn
    · exact (h.outbox note hn).mono hsettled
    · obtain ⟨r, hr, hnote⟩ := List.mem_filterMap.mp hn
      obtain ⟨u, hu, hnote⟩ := Option.bind_eq_some_iff.mp hnote
      split at hnote
      · cases hnote
      · obtain rfl := Option.some.inj hnote
        have hunit := hc.unit r.1 u hu
        rw [Session.lookup_of_mem hready.nodup_results hr] at hunit
        exact ⟨_, hunit, rfl, rfl⟩

theorem Sound.pass (h : Sound ⟨s, ahead, .nothing⟩) (reached : s.barrierReached = true) :
    Sound ⟨s.checkBarrier, ahead, .nothing⟩ := by
  have hready := h.ready reached
  by_cases hp : s.Passes
  · exact h.of_completes hready hp (hready.completes reached hp)
  · exact h.of_falls (hready.falls reached hp).falls ahead

end Moment

theorem Move.sound {m n : Moment Tree Value Listener} (hmove : Move m n) (h : m.Sound) :
    n.Sound := by
  cases hmove with
  | skip old => exact h.skip old
  | ask new => exact h.ask new
  | fetch new => exact h.fetch new _
  | giveUp new => exact h.start new _
  | receive _ loading => exact h.receive loading
  | take => exact h.take
  | refuse => exact h.of_falls (h.falls_refused _ _) _
  | misread unit sound => exact h.of_falls (h.falls_misread unit sound) _
  | read unit sound =>
    obtain ⟨imports, hr⟩ := h.reads unit sound
    exact h.read unit hr
  | reject unit sound =>
    obtain ⟨imports, hr⟩ := h.reads unit sound
    exact (h.read unit hr).of_falls (h.falls_rejected unit sound) _
  | pass reached => exact h.pass reached

theorem Moves.sound {m n : Moment Tree Value Listener} (hmoves : Moves m n) (h : m.Sound) :
    n.Sound := by
  induction hmoves with
  | refl => exact h
  | tail _ hmove ih => exact hmove.sound ih

end UnitLoader
