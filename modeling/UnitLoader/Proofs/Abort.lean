import UnitLoader.Proofs.Notices

/-! The end of a batch that fails. Every unit that is not settled fails, every settled
unit stays as it is, no fetch is left under way, and the listeners of the failed units
are in the outbox with the error of their unit. -/

namespace UnitLoader

namespace SourceUnit

variable {Tree Value Listener : Type}

/-- A unit before and after the failure of a batch. -/
structure Falls (u v : SourceUnit Tree Value Listener) : Prop where
  settled : u.state.isSettled = true → v = u
  failed : u.state.isSettled = false →
    v.state = .error ∧ v.error.isSome ∧ v.listeners = [] ∧ v.cancellable = false
  address : v.address = u.address
  kind : v.kind = u.kind
  origin : v.origin = u.origin
  dependencies : v.dependencies = u.dependencies

/-- A unit that may have failed, with nobody told of it. -/
structure Stumbles (u v : SourceUnit Tree Value Listener) : Prop where
  settled : u.state.isSettled = true → v = u
  failed : v.state = .error → u.state = .error ∨ v.error.isSome
  unsettled : u.state.isSettled = false → v.state ≠ .complete
  address : v.address = u.address
  kind : v.kind = u.kind
  origin : v.origin = u.origin
  dependencies : v.dependencies = u.dependencies
  listeners : v.listeners = u.listeners

def uncancelled (u : SourceUnit Tree Value Listener) : SourceUnit Tree Value Listener :=
  { u with cancellable := false }

theorem Stumbles.refl (u : SourceUnit Tree Value Listener) : Stumbles u u where
  settled := fun _ => rfl
  failed := .inl
  unsettled := by
    intro h hc
    simp [hc, State.isSettled] at h
  address := rfl
  kind := rfl
  origin := rfl
  dependencies := rfl
  listeners := rfl

theorem Stumbles.trans {u v w : SourceUnit Tree Value Listener} (h : Stumbles u v)
    (h' : Stumbles v w) : Stumbles u w where
  settled := by
    intro hs
    obtain rfl := h.settled hs
    exact h'.settled hs
  failed := by
    intro hw
    cases hs : u.state.isSettled with
    | true =>
      obtain rfl := h.settled hs
      exact h'.failed hw
    | false =>
      rcases h'.failed hw with hv | he
      · rcases h.failed hv with hu | he
        · exact .inl hu
        · rw [h'.settled (by simp [hv, State.isSettled])]
          exact .inr he
      · exact .inr he
  unsettled := by
    intro hs hw
    cases hv : v.state.isSettled with
    | true =>
      rw [h'.settled hv] at hw
      exact h.unsettled hs hw
    | false => exact h'.unsettled hv hw
  address := h'.address.trans h.address
  kind := h'.kind.trans h.kind
  origin := h'.origin.trans h.origin
  dependencies := h'.dependencies.trans h.dependencies
  listeners := h'.listeners.trans h.listeners

theorem stumbles_fail (u : SourceUnit Tree Value Listener) (e : LoadError) :
    Stumbles u (u.fail e) := by
  cases hs : u.state.isSettled with
  | true =>
    rw [fail_of_isSettled hs]
    exact .refl u
  | false =>
    exact
      { settled := fun h => absurd (h.symm.trans hs) (by simp)
        failed := fun _ => .inr (by simp [error_fail hs])
        unsettled := fun _ => by simp [state_fail hs]
        address := address_fail u e
        kind := kind_fail u e
        origin := origin_fail u e
        dependencies := dependencies_fail u e
        listeners := listeners_fail u e }

theorem stumbles_recordError {u : SourceUnit Tree Value Listener} (e : LoadError)
    (hs : u.state.isSettled = false) : Stumbles u (u.recordError e) where
  settled := fun h => absurd (h.symm.trans hs) (by simp)
  failed := .inl
  unsettled := by
    intro _ hc
    simp [show u.state = .complete from hc, State.isSettled] at hs
  address := rfl
  kind := rfl
  origin := rfl
  dependencies := rfl
  listeners := rfl

theorem Stumbles.uncancelled {u v : SourceUnit Tree Value Listener} (h : Stumbles u v)
    (hc : u.state.isSettled = true → u.cancellable = false) : Stumbles u v.uncancelled where
  settled := by
    intro hs
    obtain rfl := h.settled hs
    simp [SourceUnit.uncancelled, ← hc hs]
  failed := h.failed
  unsettled := h.unsettled
  address := h.address
  kind := h.kind
  origin := h.origin
  dependencies := h.dependencies
  listeners := h.listeners

theorem falls_hushed {u v : SourceUnit Tree Value Listener} (h : Stumbles u v)
    (hs : v.state.isSettled = true) (hc : v.cancellable = false)
    (hq : u.state.isSettled = true → u.listeners = []) : Falls u v.hushed := by
  cases hu : u.state.isSettled with
  | true =>
    obtain rfl := h.settled hu
    have hsame : v.hushed = v := by
      simp only [hushed]
      split
      · rw [← hq hu]
      · rfl
    rw [hsame]
    exact ⟨fun _ => rfl, fun h => absurd (h.symm.trans hu) (by simp), rfl, rfl, rfl, rfl⟩
  | false =>
    have he : v.state = .error := by
      have := h.unsettled hu
      cases hv : v.state <;> simp_all [State.isSettled]
    have hsome : v.error.isSome := (h.failed he).resolve_left fun hue => by
      simp [hue, State.isSettled] at hu
    have hh : v.hushed = { v with listeners := [] } := if_pos he
    rw [hh]
    exact ⟨fun h => absurd (h.symm.trans hu) (by simp), fun _ => ⟨he, hsome, rfl, hc⟩, h.address,
      h.kind, h.origin, h.dependencies⟩

end SourceUnit

namespace Event

def isFetching {Value : Type} : Event Value → Bool
  | requested _ _ => true
  | received _ _ => true
  | fetched _ _ => true
  | cancelled _ _ => true
  | _ => false

end Event

namespace Session

variable {Tree Value Listener : Type}

/-- What no unit of a session ever changes. -/
structure SameSetting (s t : Session Tree Value Listener) : Prop where
  tools : t.tools = s.tools
  baseAddress : t.baseAddress = s.baseAddress
  sync : t.sync = s.sync
  translate : t.translate = s.translate
  held : t.held = s.held

theorem SameSetting.refl (s : Session Tree Value Listener) : SameSetting s s :=
  ⟨rfl, rfl, rfl, rfl, rfl⟩

theorem SameSetting.trans {s t w : Session Tree Value Listener} (h : SameSetting s t)
    (h' : SameSetting t w) : SameSetting s w :=
  ⟨h'.tools.trans h.tools, h'.baseAddress.trans h.baseAddress, h'.sync.trans h.sync,
    h'.translate.trans h.translate, h'.held.trans h.held⟩

/-- A session before and after the failure of a batch. -/
structure Falls (s t : Session Tree Value Listener) : Prop where
  size : t.cache.size = s.cache.size
  unit : ∀ id u, s.cache.get? id = some u → ∃ v, t.cache.get? id = some v ∧ u.Falls v
  pending : t.pending = []
  waiting : ∀ id, (t.waitingFor id).Perm (s.waitingFor id)
  outbox : ∃ notes, t.outbox = s.outbox ++ notes ∧ ∀ n ∈ notes, t.Shows n.unit n.outcome
  setting : SameSetting s t

/-- A session some units of which may have failed, with nobody told of it. -/
structure Stumbles (s t : Session Tree Value Listener) : Prop where
  size : t.cache.size = s.cache.size
  unit : ∀ id u, s.cache.get? id = some u → ∃ v, t.cache.get? id = some v ∧ u.Stumbles v
  outbox : t.outbox = s.outbox
  setting : SameSetting s t

/-- A settled unit waits for nothing, and nobody waits for it. -/
def Quiet (s : Session Tree Value Listener) : Prop :=
  ∀ id u, s.cache.get? id = some u → u.state.isSettled = true →
    u.listeners = [] ∧ u.cancellable = false

theorem Stumbles.refl (s : Session Tree Value Listener) : Stumbles s s :=
  ⟨rfl, fun _ u hu => ⟨u, hu, .refl u⟩, rfl, .refl s⟩

theorem Stumbles.trans {s t w : Session Tree Value Listener} (h : Stumbles s t)
    (h' : Stumbles t w) : Stumbles s w where
  size := h'.size.trans h.size
  unit := by
    intro id u hu
    obtain ⟨v, hv, huv⟩ := h.unit id u hu
    obtain ⟨x, hx, hvx⟩ := h'.unit id v hv
    exact ⟨x, hx, huv.trans hvx⟩
  outbox := h'.outbox.trans h.outbox
  setting := h.setting.trans h'.setting

theorem stumbles_modify {s t : Session Tree Value Listener} {id : UnitId}
    {f : SourceUnit Tree Value Listener → SourceUnit Tree Value Listener}
    (cache : t.cache = s.cache.modify id f)
    (unit : ∀ u, s.cache.get? id = some u → u.Stumbles (f u))
    (outbox : t.outbox = s.outbox) (setting : SameSetting s t) : Stumbles s t where
  size := by rw [cache, Cache.size_modify]
  unit := by
    intro j u hu
    rw [cache, Cache.get?_modify]
    split
    · next hj =>
      subst hj
      exact ⟨f u, by simp [hu], unit u hu⟩
    · exact ⟨u, hu, .refl u⟩
  outbox := outbox
  setting := setting

theorem stumbles_of_cache {s t : Session Tree Value Listener} (cache : t.cache = s.cache)
    (outbox : t.outbox = s.outbox) (setting : SameSetting s t) : Stumbles s t :=
  ⟨by rw [cache], fun _ u hu => ⟨u, by rw [cache, hu], .refl u⟩, outbox, setting⟩

theorem stumbles_report (s : Session Tree Value Listener) (d : Diagnostic) :
    Stumbles s (s.onBuild (·.report d)) :=
  stumbles_of_cache rfl rfl ⟨rfl, rfl, rfl, rfl, rfl⟩

theorem stumbles_failUnit (s : Session Tree Value Listener) (id : UnitId) (error : LoadError) :
    Stumbles s (s.modifyUnit id (·.fail error)) :=
  stumbles_modify rfl (fun u _ => SourceUnit.stumbles_fail u error) rfl ⟨rfl, rfl, rfl, rfl, rfl⟩

theorem stumbles_recordError {s : Session Tree Value Listener} {id : UnitId}
    (h : ∀ u, s.cache.get? id = some u → u.state.isSettled = false) (error : LoadError) :
    Stumbles s (s.modifyUnit id (·.recordError error)) :=
  stumbles_modify rfl (fun u hu => SourceUnit.stumbles_recordError error (h u hu)) rfl
    ⟨rfl, rfl, rfl, rfl, rfl⟩

theorem listenersOf_of_stumbles {s t : Session Tree Value Listener} (h : Stumbles s t)
    (id : UnitId) : t.listenersOf id = s.listenersOf id := by
  cases hu : s.cache.get? id with
  | some u =>
    obtain ⟨v, hv, hst⟩ := h.unit id u hu
    rw [listenersOf_eq hu, listenersOf_eq hv, hst.listeners]
  | none =>
    have hn : t.cache.get? id = none := by
      rw [Cache.get?_eq_none_iff, h.size]
      exact Cache.get?_eq_none_iff.mp hu
    simp [listenersOf, hu, hn]

theorem falls_notifyFailures {s m : Session Tree Value Listener} (h : Stumbles s m)
    (hs : s.Quiet)
    (hm : ∀ id u, m.cache.get? id = some u → u.state.isSettled = true ∧ u.cancellable = false)
    (hp : m.pending = []) : Falls s m.notifyFailures := by
  have hunit (id : UnitId) (u : SourceUnit Tree Value Listener) (hu : s.cache.get? id = some u) :
      ∃ v, m.cache.get? id = some v ∧ m.notifyFailures.cache.get? id = some v.hushed ∧
        u.Falls v.hushed := by
    obtain ⟨v, hv, hst⟩ := h.unit id u hu
    refine ⟨v, hv, ?_, SourceUnit.falls_hushed hst (hm id v hv).1 (hm id v hv).2
      fun hset => (hs id u hu hset).1⟩
    rw [notifyFailures_eq]
    simp [Cache.get?_foldl_modify m.cache.nodup_ids, Cache.mem_ids_of_get? hv, hv]
  exact
    { size := by
        rw [notifyFailures_eq]
        simp [h.size]
      unit := fun id u hu => by
        obtain ⟨v, -, hv, hf⟩ := hunit id u hu
        exact ⟨v.hushed, hv, hf⟩
      pending := by
        rw [notifyFailures_eq]
        exact hp
      waiting := fun id => (waitingFor_notifyFailures m id).trans
        (.of_eq (waitingFor_eq (listenersOf_of_stumbles h id) h.outbox))
      outbox := by
        refine ⟨m.cache.ids.filterMap (failureNote? m.cache), ?_, ?_⟩
        · rw [notifyFailures_eq]
          simp [h.outbox]
        · intro n hn
          obtain ⟨id, -, hnote⟩ := List.mem_filterMap.mp hn
          obtain ⟨v, hv, hnote⟩ := Option.bind_eq_some_iff.mp hnote
          split at hnote
          · next he =>
            obtain rfl := Option.some.inj hnote
            obtain ⟨u, hu⟩ := Cache.get?_of_index_lt (h.size ▸ Cache.index_lt_of_get? hv)
            obtain ⟨w, hw, hnew, -⟩ := hunit id u hu
            obtain rfl := Option.some.inj (hv.symm.trans hw)
            obtain ⟨w, hw, hst⟩ := h.unit id u hu
            obtain rfl := Option.some.inj (hv.symm.trans hw)
            refine ⟨v.hushed, hnew, by simp [SourceUnit.hushed, he.1], ?_⟩
            have hsome : v.error.isSome := by
              refine (hst.failed he.1).resolve_left fun hue => he.2 ?_
              rw [hst.listeners]
              exact (hs id u hu (by simp [hue, State.isSettled])).1
            obtain ⟨e, hv'⟩ := Option.isSome_iff_exists.mp hsome
            simp [SourceUnit.hushed, he.1, hv']
          · cases hnote
      setting := by
        rw [notifyFailures_eq]
        exact ⟨h.setting.tools, h.setting.baseAddress, h.setting.sync, h.setting.translate,
          h.setting.held⟩ }

/-! ### Aborting -/

theorem cancelFetch_eq (s : Session Tree Value Listener) (id : UnitId) :
    ∃ fetcher events,
      s.cancelFetch id =
        { s with
          cache := s.cache.modify id SourceUnit.uncancelled
          history := s.history ++ events
          fetcher := fetcher } ∧
      ∀ e ∈ events, e.isFetching = true := by
  cases hu : s.cache.get? id with
  | none =>
    refine ⟨s.fetcher, [], ?_, by simp⟩
    rw [Cache.modify_eq_self (by simp [hu]), List.append_nil]
    simp only [cancelFetch, hu]
  | some u =>
    cases hc : u.cancellable with
    | true =>
      refine ⟨s.fetcher.cancel id, [.cancelled id u.address], ?_, by simp [Event.isFetching]⟩
      simp only [cancelFetch, hu, hc, if_true]
      rfl
    | false =>
      refine ⟨s.fetcher, [], ?_, by simp⟩
      have hsame : s.cache.modify id SourceUnit.uncancelled = s.cache :=
        Cache.modify_eq_self fun w hw => by
          obtain rfl := Option.some.inj (hu.symm.trans hw)
          simp [SourceUnit.uncancelled, ← hc]
      rw [hsame, List.append_nil]
      simp [cancelFetch, hu, hc]

theorem cancelFetch_foldl (ids : List UnitId) (s : Session Tree Value Listener) :
    ∃ fetcher events,
      ids.foldl cancelFetch s =
        { s with
          cache := ids.foldl (fun c id => c.modify id SourceUnit.uncancelled) s.cache
          history := s.history ++ events
          fetcher := fetcher } ∧
      ∀ e ∈ events, e.isFetching = true := by
  induction ids generalizing s with
  | nil => exact ⟨s.fetcher, [], by simp, by simp⟩
  | cons id ids ih =>
    obtain ⟨fetcher', events', he', hf'⟩ := cancelFetch_eq s id
    obtain ⟨fetcher, events, he, hf⟩ := ih (s.cancelFetch id)
    refine ⟨fetcher, events' ++ events, ?_, ?_⟩
    · rw [List.foldl_cons, he, he']
      simp
    · intro e hm
      rcases List.mem_append.mp hm with hm | hm
      · exact hf' e hm
      · exact hf e hm

theorem abortUnit_foldl (root : LoadError) (ids : List UnitId) (s : Session Tree Value Listener) :
    ids.foldl (abortUnit root) s =
      { s with
        cache := ids.foldl (fun c id => c.modify id fun u => u.fail (.aborted u.address root))
          s.cache } := by
  induction ids generalizing s with
  | nil => rfl
  | cons id ids ih => rw [List.foldl_cons, ih]; rfl

/-- An abort in full: all fetches are called off, then all units fail that still can,
and then their listeners are told. -/
theorem abortAll_eq (s : Session Tree Value Listener) (cause : LoadError) :
    ∃ fetcher events,
      s.abortAll cause =
        notifyFailures { s with
          cache := s.cache.ids.foldl
            (fun c id => c.modify id fun u => u.fail (.aborted u.address cause.rootCause))
            (s.pending.foldl (fun c id => c.modify id SourceUnit.uncancelled) s.cache)
          history := s.history ++ events
          fetcher := fetcher
          pending := [] } ∧
      ∀ e ∈ events, e.isFetching = true := by
  obtain ⟨fetcher, events, he, hf⟩ := cancelFetch_foldl s.pending { s with pending := [] }
  refine ⟨fetcher, events, ?_, hf⟩
  have hids : (s.pending.foldl (fun c id => c.modify id SourceUnit.uncancelled) s.cache).ids =
      s.cache.ids :=
    Cache.ids_eq_of_size_eq (Cache.size_foldl_modify _ _ _)
  simp only [abortAll, he, abortUnit_foldl, hids]

/-- An abort from any point at which no more than some units have failed. -/
theorem falls_abortAll {s m : Session Tree Value Listener} (hs : s.Quiet) (h : Stumbles s m)
    (hn : m.pending.Nodup)
    (hc : ∀ id u, m.cache.get? id = some u → u.cancellable = true → id ∈ m.pending)
    (cause : LoadError) : Falls s (m.abortAll cause) := by
  obtain ⟨fetcher, events, he, -⟩ := abortAll_eq m cause
  rw [he]
  have hget (id : UnitId) (u : SourceUnit Tree Value Listener) (hu : m.cache.get? id = some u) :
      (m.cache.ids.foldl
        (fun c id => c.modify id fun u => u.fail (.aborted u.address cause.rootCause))
        (m.pending.foldl (fun c id => c.modify id SourceUnit.uncancelled) m.cache)).get? id =
      some ((if id ∈ m.pending then u.uncancelled else u).fail
        (.aborted u.address cause.rootCause)) := by
    rw [Cache.get?_foldl_modify m.cache.nodup_ids, if_pos (Cache.mem_ids_of_get? hu),
      Cache.get?_foldl_modify hn, hu]
    split <;> rfl
  -- A unit that was settled keeps what it had; all others fail, and no fetch is left.
  refine falls_notifyFailures (s := s)
    ⟨by simp [h.size], fun id u hu => ?_, h.outbox, ⟨h.setting.tools, h.setting.baseAddress,
      h.setting.sync, h.setting.translate, h.setting.held⟩⟩ hs (fun id v hv => ?_) rfl
  · obtain ⟨v, hv, hst⟩ := h.unit id u hu
    refine ⟨_, hget id v hv, ?_⟩
    split
    · exact (hst.uncancelled fun hset => (hs id u hu hset).2).trans (SourceUnit.stumbles_fail _ _)
    · exact hst.trans (SourceUnit.stumbles_fail _ _)
  · have hlt : id.index < m.cache.size := by simpa using Cache.index_lt_of_get? hv
    obtain ⟨u, hu⟩ := Cache.get?_of_index_lt hlt
    obtain rfl := Option.some.inj (hv.symm.trans (hget id u hu))
    refine ⟨SourceUnit.isSettled_fail _ _, ?_⟩
    rw [SourceUnit.cancellable_fail]
    split
    · rfl
    · next hp => exact Bool.eq_false_iff.mpr fun hu' => hp (hc id u hu hu')

theorem cancellable_failUnit {s : Session Tree Value Listener} {id j : UnitId} {error : LoadError}
    {v : SourceUnit Tree Value Listener}
    (hv : (s.modifyUnit id (·.fail error)).cache.get? j = some v) :
    ∃ u, s.cache.get? j = some u ∧ v.cancellable = u.cancellable := by
  simp only [modifyUnit, onBuild, Build.modify, Cache.get?_modify] at hv
  split at hv
  · obtain ⟨u, hu, rfl⟩ := Option.map_eq_some_iff.mp hv
    exact ⟨u, hu, SourceUnit.cancellable_fail u error⟩
  · exact ⟨v, hv, rfl⟩

theorem falls_failBatch {s m : Session Tree Value Listener} (hs : s.Quiet) (h : Stumbles s m)
    (hn : m.pending.Nodup)
    (hc : ∀ id u, m.cache.get? id = some u → u.cancellable = true → id ∈ m.pending)
    (id : UnitId) (error : LoadError) : Falls s (m.failBatch id error) := by
  refine falls_abortAll hs (h.trans (stumbles_failUnit m id error)) hn (fun j v hv hc' => ?_) error
  obtain ⟨u, hu, he⟩ := cancellable_failUnit hv
  exact hc j u hu (he ▸ hc')

theorem history_abortAll (s : Session Tree Value Listener) (cause : LoadError) :
    ∃ events, (s.abortAll cause).history = s.history ++ events ∧
      ∀ e ∈ events, e.isFetching = true := by
  obtain ⟨fetcher, events, he, hf⟩ := abortAll_eq s cause
  exact ⟨events, by rw [he, notifyFailures_eq], hf⟩

end Session

end UnitLoader
