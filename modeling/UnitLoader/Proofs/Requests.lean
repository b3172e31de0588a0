import UnitLoader.Proofs.Links
import UnitLoader.Proofs.Loading

/-! What can be asked of a session between its runs. Each request prepares the session
and then takes it through moves, and it leaves the session at rest again. -/

namespace UnitLoader

variable {Tree Value Listener : Type}

def SourceUnit.given (address code : String) (listener : Option Listener) :
    SourceUnit Tree Value Listener :=
  { (SourceUnit.new address .script .eval : SourceUnit Tree Value Listener) with
    text := some code
    listeners := listener.toList }

namespace Session

/-- Nothing is in hand or ahead, and no batch waits at the barrier. -/
structure AtRest (s : Session Tree Value Listener) : Prop where
  sound : Moment.Sound ⟨s, [], .nothing⟩
  closed : s.barrierReached = false
  linked : s.cache.Linked

variable {s : Session Tree Value Listener}

theorem AtRest.congr {t : Session Tree Value Listener} (h : s.AtRest)
    (units : t.cache.units = s.cache.units) (pending : t.pending = s.pending)
    (outbox : t.outbox = s.outbox) : t.AtRest where
  sound := h.sound.congr units pending outbox rfl fun _ _ hid => hid
  closed := by
    have := h.closed
    simp only [Session.barrierReached, Cache.areAll, Cache.hasAny, units] at this ⊢
    exact this
  linked := by
    intro id u hu d hd
    rw [Cache.get?, units] at hu
    rw [Cache.size, units]
    exact h.linked id u hu d hd

theorem atRest_fresh (tools : Toolchain Tree Value) (baseAddress : String) (sync : Bool)
    (resolver : Resolver) (translate : String → String) (fetcher : Fetcher)
    (ns : Namespace Value) :
    (fresh tools baseAddress sync resolver translate fetcher ns :
      Session Tree Value Listener).AtRest where
  sound :=
    { fits := fun id u hu => by simp [fresh, Build.empty, Cache.empty, Cache.get?] at hu
      nodup := List.nodup_nil
      known := by simp [fresh]
      hand := fun _ he => by cases he
      outbox := by simp [fresh] }
  closed := rfl
  linked := fun id u hu => by simp [fresh, Build.empty, Cache.empty, Cache.get?] at hu

/-! ### Looking units up -/

theorem find_cases (s : Session Tree Value Listener) (address : String) (kind : Kind) :
    (∃ u, s.cache.get? (s.find address kind).id = some u ∧
        (s.find address kind).session.cache.units = s.cache.units) ∨
      ((s.find address kind).id = ⟨s.cache.size⟩ ∧
        (s.find address kind).session.cache =
          s.cache.push (.new (s.resolveAddress address) kind .load)) := by
  rcases s.cache.getOrInsert_cases (s.resolveAddress address) kind with
    ⟨u, hu, -, -, -, hunits⟩ | ⟨-, hid, hcache⟩
  · exact .inl ⟨u, hu, hunits⟩
  · exact .inr ⟨hid, hcache⟩

theorem get?_find {id : UnitId} {u : SourceUnit Tree Value Listener}
    (hu : s.cache.get? id = some u) (address : String) (kind : Kind) :
    (s.find address kind).session.cache.get? id = some u := by
  rcases s.find_cases address kind with ⟨-, -, hunits⟩ | ⟨-, hcache⟩
  · rwa [Cache.get?, hunits]
  · rw [hcache, Cache.get?_push_of_get? hu]

theorem get?_find_back {address : String} {kind : Kind} {id : UnitId}
    {v : SourceUnit Tree Value Listener}
    (hv : (s.find address kind).session.cache.get? id = some v) :
    s.cache.get? id = some v ∨ v = .new (s.resolveAddress address) kind .load := by
  rcases s.find_cases address kind with ⟨-, -, hunits⟩ | ⟨-, hcache⟩
  · rw [Cache.get?, hunits] at hv
    exact .inl hv
  · rw [hcache, Cache.get?_push] at hv
    split at hv
    · exact .inr (Option.some.inj hv).symm
    · exact .inl hv

theorem proper_new (address : String) (kind : Kind) (origin : Origin) :
    (SourceUnit.new address kind origin : SourceUnit Tree Value Listener).Proper := by
  cases origin <;> exact
    { transformed := by simp [SourceUnit.new, Origin.initialState]
      tree := by simp [SourceUnit.new, Origin.initialState]
      result := by simp [SourceUnit.new, Origin.initialState]
      error := by simp [SourceUnit.new, Origin.initialState]
      dependencies := fun _ => rfl
      listeners := fun _ => rfl }

theorem AtRest.sound_find (h : s.AtRest) (address : String) (kind : Kind) :
    Moment.Sound ⟨(s.find address kind).session, [(s.find address kind).id], .nothing⟩ := by
  rcases s.find_cases address kind with ⟨u, -, hunits⟩ | ⟨hid, hcache⟩
  · exact h.sound.congr hunits rfl rfl rfl fun _ _ hid => by cases hid
  · have hnew : (⟨s.cache.size⟩ : UnitId) ∉ s.pending := fun hp => by
      have hlt : s.cache.size < s.cache.size := h.sound.known _ hp
      omega
    refine h.sound.of_push hcache rfl rfl ?_ (fun j u _ hf => ?_) fun _ he => by cases he
    · exact
        { proper := proper_new _ _ _
          pending := iff_of_false hnew (by simp [SourceUnit.new, Origin.initialState])
          cancellable := iff_of_false (by simp [SourceUnit.new]) hnew
          ahead := fun _ => List.mem_singleton.mpr hid.symm
          loaded := by simp [SourceUnit.new, Origin.initialState]
          loading := fun _ he => by cases he }
    · exact hf.of_other (by simp [InHand.unit?]) (by simp [InHand.unit?]) .rfl
        fun _ hj => by cases hj

theorem AtRest.closed_find (h : s.AtRest) (address : String) (kind : Kind) :
    (s.find address kind).session.barrierReached = false := by
  rcases s.find_cases address kind with ⟨u, -, hunits⟩ | ⟨hid, hcache⟩
  · have := h.closed
    simp only [Session.barrierReached, Cache.areAll, Cache.hasAny, hunits] at this ⊢
    exact this
  · have hnew : (s.find address kind).session.cache.get? ⟨s.cache.size⟩ =
        some (.new (s.resolveAddress address) kind .load) := by
      rw [hcache, Cache.get?_push, if_pos rfl]
    exact barrierReached_eq_false hnew rfl

/-! ### Registering listeners -/

def listening (s : Session Tree Value Listener) (id : UnitId) (listener : Listener) :
    Session Tree Value Listener :=
  s.modifyUnit id fun u => { u with listeners := u.listeners ++ [listener] }

@[simp] theorem cache_listening (s : Session Tree Value Listener) (id : UnitId)
    (listener : Listener) : (s.listening id listener).cache =
      s.cache.modify id fun u => { u with listeners := u.listeners ++ [listener] } :=
  rfl

theorem addListener_cases (s : Session Tree Value Listener) (id : UnitId) (listener : Listener) :
    (∃ e, s.addListener id listener = .error e ∧
        ∀ u, s.cache.get? id = some u → u.state.isSettled = true) ∨
      ∃ u, s.cache.get? id = some u ∧ u.state.isSettled = false ∧
        s.addListener id listener = .ok (s.listening id listener) := by
  simp only [addListener]
  cases hu : s.cache.get? id with
  | none => exact .inl ⟨_, rfl, fun u hu => by cases hu⟩
  | some u =>
    cases hs : u.state.isSettled with
    | true =>
      refine .inl ⟨.alreadySettled u.address, by simp [SourceUnit.addListener, hs], fun v hv => ?_⟩
      rwa [← Option.some.inj hv]
    | false =>
      refine .inr ⟨u, rfl, hs, ?_⟩
      have hcache : s.cache.modify id (fun _ => { u with listeners := u.listeners ++ [listener] }) =
          s.cache.modify id fun v => { v with listeners := v.listeners ++ [listener] } :=
        Cache.modify_congr fun w hw => by
          obtain rfl := Option.some.inj (hu.symm.trans hw)
          rfl
      simp [SourceUnit.addListener, hs, listening, modifyUnit, onBuild, Build.modify, hcache]

theorem sound_listening {ahead : List UnitId} {hand : InHand} (h : Moment.Sound ⟨s, ahead, hand⟩)
    {id : UnitId} {u : SourceUnit Tree Value Listener} (hu : s.cache.get? id = some u)
    (hs : u.state.isSettled = false) (listener : Listener) :
    Moment.Sound ⟨s.listening id listener, ahead, hand⟩ where
  fits := by
    intro j v hv
    rw [cache_listening, Cache.get?_modify] at hv
    split at hv
    · next hj =>
      subst hj
      simp only [hu, Option.map_some, Option.some.injEq] at hv
      subst hv
      have hf := h.fits id u hu
      exact
        { proper := ⟨hf.proper.transformed, hf.proper.tree, hf.proper.result, hf.proper.error,
            hf.proper.dependencies, fun he => absurd (he.symm.trans hs) (by simp)⟩
          pending := hf.pending
          cancellable := hf.cancellable
          ahead := hf.ahead
          loaded := hf.loaded
          loading := hf.loading }
    · have hf := h.fits j v hv
      exact ⟨hf.proper, hf.pending, hf.cancellable, hf.ahead, hf.loaded, hf.loading⟩
  nodup := h.nodup
  known := by
    rw [cache_listening, Cache.size_modify]
    exact h.known
  hand := by
    rw [cache_listening, Cache.size_modify]
    exact h.hand
  outbox := by
    refine fun note hn => (h.outbox note hn).mono fun j v hv hset => ?_
    rw [cache_listening, Cache.get?_modify_of_ne, hv]
    rintro rfl
    obtain rfl := Option.some.inj (hu.symm.trans hv)
    simp [hs] at hset

theorem closed_listening (h : s.barrierReached = false) (id : UnitId) (listener : Listener) :
    (s.listening id listener).barrierReached = false := by
  have hstates : ((s.listening id listener).cache.units.map (·.state)) =
      s.cache.units.map (·.state) := by
    refine List.ext_getElem? fun i => ?_
    simp only [cache_listening, Cache.modify, List.getElem?_map, List.getElem?_modify]
    cases s.cache.units[i]? with
    | none => simp
    | some u => by_cases hi : id.index = i <;> simp [hi]
  have hpast (c : Cache Tree Value Listener) (p : State → Bool) :
      c.areAll p = (c.units.map (·.state)).all p := by
    rw [List.all_map]
    rfl
  have hany (c : Cache Tree Value Listener) (p : State → Bool) :
      c.hasAny p = (c.units.map (·.state)).any p := by
    rw [List.any_map]
    rfl
  rw [← h]
  simp only [Session.barrierReached, hpast, hany, hstates]

/-! ### Evaluating text -/

/-- A session with a unit for a text, before anything is done with it. -/
def evaluating (s : Session Tree Value Listener) (code : String) (listener : Option Listener) :
    Session Tree Value Listener :=
  { s with cache := (s.cache.insertEval s.baseAddress .script).cache }.modifyUnit ⟨s.cache.size⟩
    fun u => { u with text := some code, listeners := u.listeners ++ listener.toList }

theorem get?_evaluating (s : Session Tree Value Listener) (code : String)
    (listener : Option Listener) (id : UnitId) :
    (s.evaluating code listener).cache.get? id =
      if id.index = s.cache.size then
        some (.given (s.cache.nextEvalAddress s.baseAddress) code listener)
      else s.cache.get? id := by
  simp only [evaluating, modifyUnit, onBuild, Build.modify, Cache.insertEval, Cache.get?_modify,
    Cache.get?_push, UnitId.ext_iff]
  by_cases hid : id.index = s.cache.size
  · simp [hid, SourceUnit.given, SourceUnit.new]
  · simp [hid, Ne.symm hid]

theorem proper_given (address code : String) (listener : Option Listener) :
    (SourceUnit.given address code listener : SourceUnit Tree Value Listener).Proper where
  transformed := fun he => by cases he
  tree := fun he => by cases he
  result := fun he => by cases he
  error := fun he => by cases he
  dependencies := fun _ => rfl
  listeners := fun he => by cases he

theorem AtRest.sound_evaluating (h : s.AtRest) (code : String) (listener : Option Listener) :
    Moment.Sound ⟨s.evaluating code listener, [], .text ⟨s.cache.size⟩⟩ := by
  have hnew : (⟨s.cache.size⟩ : UnitId) ∉ s.pending := fun hp => by
    have hlt : s.cache.size < s.cache.size := h.sound.known _ hp
    omega
  have hsize : (s.evaluating code listener).cache.size = s.cache.size + 1 := by
    simp [evaluating, modifyUnit, onBuild, Build.modify, Cache.insertEval]
  refine ⟨fun j v hv => ?_, h.sound.nodup, fun j hj => ?_, fun j hj => ?_, fun note hn => ?_⟩
  · rw [get?_evaluating] at hv
    split at hv
    · next hj =>
      obtain rfl := Option.some.inj hv
      obtain rfl : j = ⟨s.cache.size⟩ := UnitId.ext_iff.mpr hj
      exact
        { proper := proper_given _ _ _
          pending := iff_of_false hnew fun hn => by cases hn.1
          cancellable := iff_of_false (by simp [SourceUnit.given, SourceUnit.new]) hnew
          ahead := fun he => by cases he
          loaded := iff_of_true rfl rfl
          loading := fun _ he => by cases he }
    · next hj =>
      refine (h.sound.fits j v hv).of_other (by simp [InHand.unit?]) ?_ .rfl fun _ hj => hj
      simpa [InHand.unit?, UnitId.ext_iff] using Ne.symm hj
  · rw [hsize]
    exact Nat.lt_succ_of_lt (h.sound.known j hj)
  · obtain rfl := Option.some.inj hj
    rw [hsize]
    exact Nat.lt_succ_self _
  · refine (h.sound.outbox note hn).mono fun j u hu _ => ?_
    have hlt : j.index < s.cache.size := Cache.index_lt_of_get? hu
    rw [get?_evaluating, if_neg (by omega), hu]

/-! ### Steps -/

/-- A step of a session: a request, or the arrival of an answer. -/
inductive Advance : Session Tree Value Listener → Session Tree Value Listener → Prop
  | load (s : Session Tree Value Listener) (address : String) (kind : Kind) :
      Advance s (s.load address kind).session
  | loadWith (s : Session Tree Value Listener) (address : String) (kind : Kind)
      (listener : Listener) : Advance s (s.loadWith address kind listener).2
  | loadSync (s : Session Tree Value Listener) (address : String) (kind : Kind) :
      Advance s (s.loadSync address kind).session
  | eval (s : Session Tree Value Listener) (code : String) (listener : Option Listener) :
      Advance s (s.eval code listener).session
  | complete (s : Session Tree Value Listener) (c : Completion) : Advance s (s.complete c)
  | receive (s : Session Tree Value Listener) {t : Session Tree Value Listener}
      (answer : s.receive? = some t) : Advance s t

/-- How a step begins, with the listeners that are registered by it: a unit is looked
up, or a text is given, or an answer is about to be taken. -/
inductive Enters : Session Tree Value Listener → List (UnitId × Listener) →
    Moment Tree Value Listener → Prop
  | find (s : Session Tree Value Listener) (address : String) (kind : Kind) :
      Enters s [] ⟨(s.find address kind).session, [(s.find address kind).id], .nothing⟩
  | subscribe (s : Session Tree Value Listener) (address : String) (kind : Kind)
      {u : SourceUnit Tree Value Listener}
      (unit : (s.find address kind).session.cache.get? (s.find address kind).id = some u)
      (unsettled : u.state.isSettled = false) (listener : Listener) :
      Enters s [((s.find address kind).id, listener)]
        ⟨(s.find address kind).session.listening (s.find address kind).id listener,
          [(s.find address kind).id], .nothing⟩
  | evaluate (s : Session Tree Value Listener) (code : String) (listener : Option Listener) :
      Enters s (listener.toList.map fun l => (⟨s.cache.size⟩, l))
        ⟨s.evaluating code listener, [], .text ⟨s.cache.size⟩⟩
  | receive (s : Session Tree Value Listener) (channel : List Completion) :
      Enters s [] ⟨{ s with channel := channel }, [], .nothing⟩

variable {registered : List (UnitId × Listener)}

theorem Enters.linked {m : Moment Tree Value Listener} (h : Enters s registered m)
    (hs : s.cache.Linked) : m.session.cache.Linked := by
  have hfind (address : String) (kind : Kind) : (s.find address kind).session.cache.Linked := by
    rcases s.find_cases address kind with ⟨-, -, hunits⟩ | ⟨-, hcache⟩
    · intro id u hu d hd
      rw [Cache.get?, hunits] at hu
      rw [Cache.size, hunits]
      exact hs id u hu d hd
    · exact linked_of_push hs hcache rfl
  cases h with
  | find address kind => exact hfind address kind
  | subscribe address kind unit unsettled listener =>
    exact linked_of_modify (hfind address kind) rfl fun _ => rfl
  | evaluate code listener =>
    have hpush : ({ s with cache := (s.cache.insertEval s.baseAddress .script).cache } :
        Session Tree Value Listener).cache.Linked := linked_of_push hs rfl rfl
    exact linked_of_modify hpush rfl fun _ => rfl
  | receive => exact hs

theorem Enters.sound {m : Moment Tree Value Listener} (h : Enters s registered m) (hs : s.AtRest) :
    m.Sound := by
  cases h with
  | find address kind => exact hs.sound_find address kind
  | subscribe address kind unit unsettled listener =>
    exact sound_listening (hs.sound_find address kind) unit unsettled listener
  | evaluate code listener => exact hs.sound_evaluating code listener
  | receive channel => exact hs.sound.congr rfl rfl rfl rfl fun _ _ hid => hid

theorem AtRest.withSync (h : s.AtRest) (sync : Bool) : AtRest { s with sync := sync } :=
  h.congr rfl rfl rfl

/-- A step taken apart. -/
structure Steps (s t : Session Tree Value Listener) (registered : List (UnitId × Listener))
    (sync : Bool) (m : Moment Tree Value Listener) (last : Session Tree Value Listener) :
    Prop where
  enters : Enters { s with sync := sync } registered m
  moves : Moves m ⟨last, [], .nothing⟩
  closed : last.barrierReached = false
  leaves : t = { last with sync := s.sync }

theorem AtRest.of_steps {t last : Session Tree Value Listener} {sync : Bool}
    {m : Moment Tree Value Listener} (h : s.AtRest) (hs : Steps s t registered sync m last) :
    t.AtRest := by
  have hfirst := hs.enters.sound (h.withSync sync)
  have hlast : last.AtRest :=
    ⟨hs.moves.sound hfirst, hs.closed, hs.moves.linked hfirst (hs.enters.linked h.linked)⟩
  rw [hs.leaves]
  exact hlast.withSync _

theorem Steps.of_moves {t : Session Tree Value Listener} {m : Moment Tree Value Listener}
    (enters : Enters s registered m) (hm : m.Sound) (sync : m.session.sync = s.sync)
    (moves : Moves m ⟨t, [], .nothing⟩) (closed : t.barrierReached = false) :
    Steps s t registered s.sync m t where
  enters := enters
  moves := moves
  closed := closed
  leaves := by
    have hsync : t.sync = s.sync := (Moves.develops moves hm).setting.sync.trans sync
    rw [← hsync]

theorem AtRest.steps_load (h : s.AtRest) (address : String) (kind : Kind) :
    ∃ m, Steps s (s.load address kind).session [] s.sync m (s.load address kind).session := by
  have hm := h.sound_find address kind
  obtain ⟨hworks, hclosed⟩ := works_loadUnit s.depth hm
  exact ⟨_, .of_moves (.find s address kind) hm rfl hworks.moves
    (hclosed (h.closed_find address kind))⟩

def taken (result : Except LoaderError UnitId) (listener : Listener) : List (UnitId × Listener) :=
  match result with
  | .ok id => [(id, listener)]
  | .error _ => []

theorem AtRest.steps_loadWith (h : s.AtRest) (address : String) (kind : Kind)
    (listener : Listener) :
    ∃ m, Steps s (s.loadWith address kind listener).2
      (taken (s.loadWith address kind listener).1 listener) s.sync m
      (s.loadWith address kind listener).2 := by
  have hm := h.sound_find address kind
  simp only [loadWith]
  rcases (s.find address kind).session.addListener_cases (s.find address kind).id listener with
    ⟨e, he, hset⟩ | ⟨u, hu, hs, hok⟩
  · have hold : (s.find address kind).session.cache.isIn .notStarted (s.find address kind).id =
        false := Cache.isIn_eq_false_of_settled rfl hset
    simp only [he]
    exact ⟨_, .of_moves (.find s address kind) hm rfl (.single (.skip hold))
      (h.closed_find address kind)⟩
  · have hm' := sound_listening hm hu hs listener
    obtain ⟨hworks, hclosed⟩ := works_loadUnit s.depth hm'
    simp only [hok]
    exact ⟨_, .of_moves (.subscribe s address kind hu hs listener) hm' rfl hworks.moves
      (hclosed (closed_listening (h.closed_find address kind) _ _))⟩

theorem AtRest.steps_loadSync (h : s.AtRest) (address : String) (kind : Kind) :
    ∃ m last, Steps s (s.loadSync address kind).session [] true m last := by
  have hs := h.withSync true
  have hm := hs.sound_find address kind
  obtain ⟨hworks, hclosed⟩ := works_loadUnit s.depth hm
  exact ⟨_, _, .find _ address kind, hworks.moves, hclosed (hs.closed_find address kind), rfl⟩

theorem AtRest.steps_eval (h : s.AtRest) (code : String) (listener : Option Listener) :
    ∃ m, Steps s (s.eval code listener).session
      (listener.toList.map fun l => ((s.eval code listener).id, l)) s.sync m
      (s.eval code listener).session := by
  have hm := h.sound_evaluating code listener
  obtain ⟨hworks, hclosed⟩ :=
    works_handleLoaded (loadsByWorks_loadUnit (s.evaluating code listener).depth) hm
  exact ⟨_, .of_moves (.evaluate s code listener) hm rfl hworks.moves hclosed⟩

theorem complete_of_loading {c : Completion} (hc : c.unit ∈ s.pending)
    (hl : s.cache.isIn .loading c.unit = true) :
    s.complete c =
      handleFetched (loadUnit (s.received c).depth) (s.received c) c.unit c.result := by
  simp only [complete, hc, hl, decide_true, Bool.and_true, if_true]
  rfl

theorem AtRest.complete_of_pending {c : Completion} (h : s.AtRest) (hc : c.unit ∈ s.pending) :
    s.complete c = handleFetched (loadUnit (s.received c).depth) (s.received c) c.unit c.result ∧
      s.cache.isIn .loading c.unit = true := by
  obtain ⟨u, hu⟩ := Cache.get?_of_index_lt (h.sound.known _ hc)
  have hl : s.cache.isIn .loading c.unit = true :=
    Cache.isIn_iff.mpr ⟨u, hu, ((h.sound.fits _ u hu).pending.mp hc).1⟩
  exact ⟨complete_of_loading hc hl, hl⟩

theorem complete_of_not_pending {c : Completion} (hc : c.unit ∉ s.pending) : s.complete c = s := by
  simp [complete, hc, List.erase_of_not_mem hc]

theorem AtRest.moves_complete (h : s.AtRest) (c : Completion) :
    Moves ⟨s, [], .nothing⟩ ⟨s.complete c, [], .nothing⟩ ∧
      (s.complete c).barrierReached = false := by
  by_cases hc : c.unit ∈ s.pending
  · obtain ⟨heq, hl⟩ := h.complete_of_pending hc
    have hreceive : Move ⟨s, [], .nothing⟩ ⟨s.received c, [], .answer c.unit c.result⟩ :=
      .receive hc hl
    obtain ⟨hworks, hclosed⟩ :=
      works_handleFetched (loadsByWorks_loadUnit (s.received c).depth) (hreceive.sound h.sound)
    rw [heq]
    exact ⟨.head hreceive hworks.moves, hclosed⟩
  · rw [complete_of_not_pending hc]
    exact ⟨.refl, h.closed⟩

theorem AtRest.steps_complete (h : s.AtRest) (c : Completion) :
    ∃ m, Steps s (s.complete c) [] s.sync m (s.complete c) := by
  obtain ⟨hmoves, hclosed⟩ := h.moves_complete c
  exact ⟨_, .of_moves (.receive s s.channel) h.sound rfl hmoves hclosed⟩

theorem AtRest.steps_receive {t : Session Tree Value Listener} (h : s.AtRest)
    (ht : s.receive? = some t) : ∃ m, Steps s t [] s.sync m t := by
  simp only [receive?] at ht
  cases hc : s.channel with
  | nil => simp [hc] at ht
  | cons c rest =>
    obtain rfl : { s with channel := rest }.complete c = t := by simpa [hc] using ht
    have hrest : AtRest { s with channel := rest } := h.congr rfl rfl rfl
    obtain ⟨hmoves, hclosed⟩ := hrest.moves_complete c
    exact ⟨_, .of_moves (.receive s rest) hrest.sound rfl hmoves hclosed⟩

theorem AtRest.steps {t : Session Tree Value Listener} (h : s.AtRest) (ha : Advance s t) :
    ∃ registered sync m last, Steps s t registered sync m last := by
  cases ha with
  | load address kind =>
    obtain ⟨m, hm⟩ := h.steps_load address kind
    exact ⟨_, _, m, _, hm⟩
  | loadWith address kind listener =>
    obtain ⟨m, hm⟩ := h.steps_loadWith address kind listener
    exact ⟨_, _, m, _, hm⟩
  | loadSync address kind => exact ⟨[], true, h.steps_loadSync address kind⟩
  | eval code listener =>
    obtain ⟨m, hm⟩ := h.steps_eval code listener
    exact ⟨_, _, m, _, hm⟩
  | complete c =>
    obtain ⟨m, hm⟩ := h.steps_complete c
    exact ⟨_, _, m, _, hm⟩
  | receive answer =>
    obtain ⟨m, hm⟩ := h.steps_receive answer
    exact ⟨_, _, m, _, hm⟩

theorem AtRest.advance {t : Session Tree Value Listener} (h : s.AtRest) (ha : Advance s t) :
    t.AtRest := by
  obtain ⟨registered, sync, m, last, hsteps⟩ := h.steps ha
  exact h.of_steps hsteps

end Session

end UnitLoader
