import UnitLoader.Proofs.Progress

/-! The operations of a session as runs of moves. The recursion of blocking fetches
follows the recursion of the loading itself: what a unit imports is put ahead, and
each of it is worked off before the unit that imports it is done with. -/

namespace UnitLoader

variable {Tree Value Listener : Type}

/-- A move other than the arrival of an answer: what a session gets in hand by it, it has
fetched itself. -/
structure Work (m n : Moment Tree Value Listener) : Prop where
  move : Move m n
  own : m.hand = .nothing → ∀ id result, n.hand = .answer id result →
    m.session.cache.isIn .notStarted id = true

abbrev Works : Moment Tree Value Listener → Moment Tree Value Listener → Prop :=
  Relation.ReflTransGen Work

theorem Work.of_hand {m n : Moment Tree Value Listener} (move : Move m n)
    (hand : m.hand ≠ .nothing) : Work m n :=
  ⟨move, fun he => absurd he hand⟩

theorem Work.of_empty {m n : Moment Tree Value Listener} (move : Move m n)
    (hand : n.hand = .nothing) : Work m n :=
  ⟨move, fun _ _ _ he => by cases hand.symm.trans he⟩

theorem Works.moves {m n : Moment Tree Value Listener} (h : Works m n) : Moves m n :=
  Relation.ReflTransGen.mono (fun _ _ => Work.move) _ _ h

namespace Session

theorem barrierReached_eq_false {s : Session Tree Value Listener} {id : UnitId}
    {u : SourceUnit Tree Value Listener} (hu : s.cache.get? id = some u)
    (hs : u.state.isPastParsing = false) : s.barrierReached = false := by
  refine Bool.eq_false_iff.mpr fun hb => ?_
  simp only [Session.barrierReached, Bool.and_eq_true, Cache.areAll_iff] at hb
  have := hb.1 id u hu
  simp [hs] at this

theorem checkBarrier_of_closed {s : Session Tree Value Listener}
    (closed : s.barrierReached = false) : s.checkBarrier = s := by
  simp [checkBarrier, closed]

theorem barrierReached_checkBarrier {s : Session Tree Value Listener} {ahead : List UnitId}
    (h : Moment.Sound ⟨s, ahead, .nothing⟩) : s.checkBarrier.barrierReached = false := by
  cases hb : s.barrierReached with
  | true => exact (calm_checkBarrier h hb).barrierReached
  | false => rw [checkBarrier_of_closed hb, hb]

theorem works_checkBarrier (s : Session Tree Value Listener) (ahead : List UnitId) :
    Works ⟨s, ahead, .nothing⟩ ⟨s.checkBarrier, ahead, .nothing⟩ := by
  cases hb : s.barrierReached with
  | true => exact .single (.of_empty (.pass hb) rfl)
  | false => rw [checkBarrier_of_closed hb]

/-- What it takes to load a unit that is ahead by moves of the session's own. -/
def LoadsByWorks (load : Session Tree Value Listener → UnitId → Session Tree Value Listener) :
    Prop :=
  ∀ s id ahead, Moment.Sound ⟨s, id :: ahead, .nothing⟩ →
    Works ⟨s, id :: ahead, .nothing⟩ ⟨load s id, ahead, .nothing⟩

theorem LoadsByWorks.foldl
    {load : Session Tree Value Listener → UnitId → Session Tree Value Listener}
    (hload : LoadsByWorks load) (ids : List UnitId) {s : Session Tree Value Listener}
    {ahead : List UnitId} (h : Moment.Sound ⟨s, ids ++ ahead, .nothing⟩) :
    Works ⟨s, ids ++ ahead, .nothing⟩ ⟨ids.foldl load s, ahead, .nothing⟩ := by
  induction ids generalizing s with
  | nil => exact .refl
  | cons id ids ih =>
    have hfirst := hload s id (ids ++ ahead) h
    exact hfirst.trans (ih (hfirst.moves.sound h))

theorem handleLoaded_of_not_sound
    (load : Session Tree Value Listener → UnitId → Session Tree Value Listener)
    {s : Session Tree Value Listener} {id : UnitId} {u : SourceUnit Tree Value Listener}
    (hu : s.cache.get? id = some u) (hs : s.isSound u = false) :
    handleLoaded load s id = s.misread id := by
  have hp : (s.toBuild.parse s.tools id).passed = false := (parse_passed hu).trans hs
  simp only [handleLoaded, hp, Bool.false_eq_true, if_false]
  rfl

theorem handleLoaded_of_sound
    (load : Session Tree Value Listener → UnitId → Session Tree Value Listener)
    {s : Session Tree Value Listener} {id : UnitId} {u : SourceUnit Tree Value Listener}
    (hu : s.cache.get? id = some u) (hs : s.isSound u = true) :
    handleLoaded load s id =
      match ((s.understood id).cache.dependencyIds id).find?
        ((s.understood id).cache.isIn .error) with
      | some failed => s.rejected id failed
      | none =>
        (((s.understood id).cache.dependencyIds id).foldl load (s.understood id)).checkBarrier := by
  have hp : (s.toBuild.parse s.tools id).passed = true := (parse_passed hu).trans hs
  simp only [handleLoaded, hp, if_true]
  rfl

theorem handleLoaded_of_fine
    (load : Session Tree Value Listener → UnitId → Session Tree Value Listener)
    {s : Session Tree Value Listener} {id : UnitId} {u : SourceUnit Tree Value Listener}
    (hu : s.cache.get? id = some u) (hs : s.isSound u = true)
    (fine : ∀ d ∈ (s.understood id).cache.dependencyIds id,
      (s.understood id).cache.isIn .error d = false) :
    handleLoaded load s id =
      (((s.understood id).cache.dependencyIds id).foldl load (s.understood id)).checkBarrier := by
  have hfind : ((s.understood id).cache.dependencyIds id).find?
      ((s.understood id).cache.isIn .error) = none :=
    List.find?_eq_none.mpr fun d hd => by simp [fine d hd]
  rw [handleLoaded_of_sound load hu hs, hfind]

/-- A text ends the batch, whatever would be done with its imports, or there is no fault in it. -/
theorem handleLoaded_or {s : Session Tree Value Listener} {id : UnitId} {ahead : List UnitId}
    {u : SourceUnit Tree Value Listener} (h : Moment.Sound ⟨s, ahead, .text id⟩)
    (hu : s.cache.get? id = some u) :
    (∃ t, (∀ load, handleLoaded load s id = t) ∧ t.Calm ∧
        Move ⟨s, ahead, .text id⟩ ⟨t, ahead, .nothing⟩) ∨
      (s.isSound u = true ∧ ∀ d ∈ (s.understood id).cache.dependencyIds id,
        (s.understood id).cache.isIn .error d = false) := by
  cases hs : s.isSound u with
  | false =>
    exact .inl ⟨s.misread id, fun load => handleLoaded_of_not_sound load hu hs,
      (h.falls_misread hu hs).calm, .misread hu hs⟩
  | true =>
    cases hf : ((s.understood id).cache.dependencyIds id).find?
        ((s.understood id).cache.isIn .error) with
    | some failed =>
      refine .inl ⟨s.rejected id failed, fun load => ?_, (h.falls_rejected hu hs).calm,
        .reject hu hs (List.mem_of_find?_eq_some hf) (List.find?_some hf)⟩
      rw [handleLoaded_of_sound load hu hs, hf]
    | none =>
      exact .inr ⟨rfl, fun d hd => by simpa using List.find?_eq_none.mp hf d hd⟩

/-- Working on a text either ends the batch or comes to a check of the barrier. -/
theorem handleLoaded_cases (load : Session Tree Value Listener → UnitId → Session Tree Value Listener)
    {s : Session Tree Value Listener} {id : UnitId} {ahead : List UnitId}
    (h : Moment.Sound ⟨s, ahead, .text id⟩) :
    (∃ t, handleLoaded load s id = t ∧ t.Calm ∧
        Move ⟨s, ahead, .text id⟩ ⟨t, ahead, .nothing⟩) ∨
      (handleLoaded load s id =
          (((s.understood id).cache.dependencyIds id).foldl load (s.understood id)).checkBarrier ∧
        Move ⟨s, ahead, .text id⟩
          ⟨s.understood id, (s.understood id).cache.dependencyIds id ++ ahead, .nothing⟩) := by
  obtain ⟨u, hu⟩ := Cache.get?_of_index_lt (h.hand id rfl)
  rcases handleLoaded_or h hu with ⟨t, ht, hcalm, hmove⟩ | ⟨hs, hfine⟩
  · exact .inl ⟨t, ht load, hcalm, hmove⟩
  · exact .inr ⟨handleLoaded_of_fine load hu hs hfine, .read hu hs hfine⟩

theorem works_handleLoaded
    {load : Session Tree Value Listener → UnitId → Session Tree Value Listener}
    (hload : LoadsByWorks load) {s : Session Tree Value Listener} {id : UnitId}
    {ahead : List UnitId} (h : Moment.Sound ⟨s, ahead, .text id⟩) :
    Works ⟨s, ahead, .text id⟩ ⟨handleLoaded load s id, ahead, .nothing⟩ ∧
      (handleLoaded load s id).barrierReached = false := by
  rcases handleLoaded_cases load h with ⟨t, rfl, hcalm, hmove⟩ | ⟨heq, hmove⟩
  · exact ⟨.single (.of_hand hmove (by simp)), hcalm.barrierReached⟩
  · have hread := hmove.sound h
    have hfold := hload.foldl _ hread
    rw [heq]
    exact ⟨.head (.of_hand hmove (by simp)) (hfold.trans (works_checkBarrier _ ahead)),
      barrierReached_checkBarrier (hfold.moves.sound hread)⟩

theorem works_handleFetched
    {load : Session Tree Value Listener → UnitId → Session Tree Value Listener}
    (hload : LoadsByWorks load) {s : Session Tree Value Listener} {id : UnitId}
    {ahead : List UnitId} {result : Except FetchError String}
    (h : Moment.Sound ⟨s, ahead, .answer id result⟩) :
    Works ⟨s, ahead, .answer id result⟩ ⟨handleFetched load s id result, ahead, .nothing⟩ ∧
      (handleFetched load s id result).barrierReached = false := by
  cases result with
  | error e =>
    exact ⟨.single (.of_hand .refuse (by simp)), (h.falls_refused id e).calm.barrierReached⟩
  | ok text =>
    obtain ⟨hworks, hb⟩ := works_handleLoaded hload h.take
    exact ⟨.head (.of_hand .take (by simp)) hworks, hb⟩

theorem loadUnit_of_old {s : Session Tree Value Listener} {id : UnitId}
    (old : s.cache.isIn .notStarted id = false) (depth : Nat) : loadUnit depth s id = s := by
  cases depth <;> simp [loadUnit, old]

theorem loadUnit_of_new {s : Session Tree Value Listener} {id : UnitId}
    (new : s.cache.isIn .notStarted id = true) (sync : s.sync = false) (depth : Nat) :
    loadUnit depth s id = (s.started id).request id := by
  have hsync : (s.modifyUnit id (·.advance .loading)).sync = false := sync
  cases depth <;> simp [loadUnit, new, hsync, started]

theorem loadUnit_zero {s : Session Tree Value Listener} {id : UnitId}
    (new : s.cache.isIn .notStarted id = true) (sync : s.sync = true) :
    loadUnit 0 s id =
      (s.started id).refused id (.abandoned ((s.started id).cache.addressOf id)) := by
  have hsync : (s.modifyUnit id (·.advance .loading)).sync = true := sync
  simp only [loadUnit, new, hsync, if_true]
  rfl

theorem loadUnit_succ {s : Session Tree Value Listener} {id : UnitId}
    (new : s.cache.isIn .notStarted id = true) (sync : s.sync = true) (depth : Nat) :
    loadUnit (depth + 1) s id =
      handleFetched (loadUnit depth) ((s.started id).fetched id) id
        (s.fetcher.answer ((s.started id).cache.addressOf id)) := by
  have hsync : (s.modifyUnit id (·.advance .loading)).sync = true := sync
  simp only [loadUnit, new, hsync, if_true]
  rfl

theorem barrierReached_request {s : Session Tree Value Listener} {id : UnitId}
    (new : s.cache.isIn .notStarted id = true) :
    ((s.started id).request id).barrierReached = false := by
  obtain ⟨u, hu, hs⟩ := Cache.isIn_iff.mp new
  have hunit : ((s.started id).request id).cache.get? id =
      some { u with state := .loading, cancellable := true } := by
    simp [cache_request_started, Cache.get?_modify, hu, SourceUnit.advance, hs, State.mayBecome, State.rank]
  exact barrierReached_eq_false hunit rfl

theorem work_fetch {s : Session Tree Value Listener} {id : UnitId} (ahead : List UnitId)
    (new : s.cache.isIn .notStarted id = true) (sync : s.sync = true) :
    Work ⟨s, id :: ahead, .nothing⟩ ⟨(s.started id).fetched id, ahead,
      .answer id (s.fetcher.answer ((s.started id).cache.addressOf id))⟩ := by
  refine ⟨.fetch new sync, ?_⟩
  rintro - _ _ ⟨⟩
  exact new

theorem works_loadUnit_single (depth : Nat) {s : Session Tree Value Listener} {id : UnitId}
    {ahead : List UnitId} (single : s.cache.isIn .notStarted id = true → s.sync = false) :
    Works ⟨s, id :: ahead, .nothing⟩ ⟨loadUnit depth s id, ahead, .nothing⟩ ∧
      (s.barrierReached = false → (loadUnit depth s id).barrierReached = false) := by
  cases new : s.cache.isIn .notStarted id with
  | false =>
    rw [loadUnit_of_old new]
    exact ⟨.single (.of_empty (.skip new) rfl), fun hb => hb⟩
  | true =>
    rw [loadUnit_of_new new (single new)]
    exact ⟨.single (.of_empty (.ask new (single new)) rfl), fun _ => barrierReached_request new⟩

/-- Loading a unit is a run of moves, and it does not leave the barrier reached. -/
theorem works_loadUnit (depth : Nat) {s : Session Tree Value Listener} {id : UnitId}
    {ahead : List UnitId} (h : Moment.Sound ⟨s, id :: ahead, .nothing⟩) :
    Works ⟨s, id :: ahead, .nothing⟩ ⟨loadUnit depth s id, ahead, .nothing⟩ ∧
      (s.barrierReached = false → (loadUnit depth s id).barrierReached = false) := by
  -- Only a blocking fetch goes one level deeper.
  induction depth generalizing s id ahead with
  | zero =>
    by_cases hs : s.cache.isIn .notStarted id = true ∧ s.sync = true
    · obtain ⟨new, sync⟩ := hs
      rw [loadUnit_zero new sync]
      have hstart := h.start new (.error (.abandoned ((s.started id).cache.addressOf id)))
      have hgive : Work ⟨s, id :: ahead, .nothing⟩ ⟨s.started id, ahead,
          .answer id (.error (.abandoned ((s.started id).cache.addressOf id)))⟩ := by
        refine ⟨.giveUp new sync, ?_⟩
        rintro - _ _ ⟨⟩
        exact new
      exact ⟨.head hgive (.single (.of_hand .refuse (by simp))),
        fun _ => (hstart.falls_refused id _).calm.barrierReached⟩
    · exact works_loadUnit_single 0 fun new => Bool.eq_false_iff.mpr fun sync => hs ⟨new, sync⟩
  | succ depth ih =>
    by_cases hs : s.cache.isIn .notStarted id = true ∧ s.sync = true
    · obtain ⟨new, sync⟩ := hs
      rw [loadUnit_succ new sync]
      have hfetch := work_fetch ahead new sync
      obtain ⟨hworks, hb⟩ :=
        works_handleFetched (fun s id ahead h => (ih h).1) (hfetch.move.sound h)
      exact ⟨.head hfetch hworks, fun _ => hb⟩
    · exact works_loadUnit_single (depth + 1) fun new =>
        Bool.eq_false_iff.mpr fun sync => hs ⟨new, sync⟩

theorem loadsByWorks_loadUnit (depth : Nat) :
    LoadsByWorks (loadUnit depth : Session Tree Value Listener → UnitId → _) :=
  fun _ _ _ h => (works_loadUnit depth h).1

end Session

end UnitLoader
