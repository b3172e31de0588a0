import UnitLoader.Proofs.CallingOff
import UnitLoader.Proofs.Performance
import UnitLoader.Text.Unicode

/-! What a complete unit rests on. All that it leads to is complete, and when it was
executed, each of its imports had been executed with a value, now or in an earlier batch,
except for those that lead back to it. -/

namespace UnitLoader

variable {Tree Value : Type}

namespace Session

variable {Listener : Type} {s t : Session Tree Value Listener} {id : UnitId}

/-! ### How units settle -/

/-- How the units of a session settle in a move: none does, or all that were open fail, or
the batch is complete. -/
inductive Settles (s t : Session Tree Value Listener) : Prop
  | none (back : ∀ id v, t.cache.get? id = some v → v.state.isSettled = true →
      s.cache.get? id = some v)
  | fails (calm : t.Calm) (back : ∀ id v, t.cache.get? id = some v → v.state = .complete →
      s.cache.get? id = some v)
  | completes (ready : s.Ready) (passes : s.Passes) (completes : Completes s t)

theorem Settles.of_modify {f : SourceUnit Tree Value Listener → SourceUnit Tree Value Listener}
    (cache : t.cache = s.cache.modify id f)
    (unit : ∀ u, s.cache.get? id = some u → (f u).state.isSettled = false) : Settles s t := by
  refine .none fun j v hv hs => ?_
  rw [cache, Cache.get?_modify] at hv
  split at hv
  · next hj =>
    subst hj
    obtain ⟨u, hu, rfl⟩ := Option.map_eq_some_iff.mp hv
    simp [unit u hu] at hs
  · exact hv

theorem Falls.back (h : Falls s t) {v : SourceUnit Tree Value Listener}
    (hv : t.cache.get? id = some v) (hc : v.state = .complete) : s.cache.get? id = some v := by
  obtain ⟨u, hu⟩ := Cache.get?_of_index_lt (h.size ▸ Cache.index_lt_of_get? hv)
  obtain ⟨w, hw, huw⟩ := h.unit id u hu
  obtain rfl := Option.some.inj (hv.symm.trans hw)
  cases hs : u.state.isSettled with
  | true => rw [hu, huw.settled hs]
  | false => cases hc.symm.trans (huw.failed hs).1

theorem Falls.settles (h : Falls s t) : Settles s t :=
  .fails h.calm fun _ _ => h.back

theorem Reads.back {tree : Tree} {imports : List UnitId} {u v : SourceUnit Tree Value Listener}
    {j : UnitId} (h : Reads s t id u tree imports) (hv : t.cache.get? j = some v)
    (hs : v.state.isSettled = true) : s.cache.get? j = some v := by
  rcases h.get?_back hv with ⟨-, rfl⟩ | ⟨-, hu⟩ | ⟨-, -, address, kind, rfl⟩
  · cases hs
  · exact hu
  · cases hs

end Session

open Session

variable {Listener : Type} {s t : Session Tree Value Listener} {id : UnitId}

theorem Move.settles {m n : Moment Tree Value Listener} (hmove : Move m n) (h : m.Sound) :
    Settles m.session n.session := by
  have hadvance {u : SourceUnit Tree Value Listener} {state state' : State}
      (hs : u.state = state) (hlater : state.mayBecome state' = true)
      (hopen : state'.isSettled = false) : (u.advance state').state.isSettled = false := by
    subst hs
    simp only [SourceUnit.advance, hlater, if_true]
    exact hopen
  cases hmove with
  | skip => exact .none fun _ _ hv _ => hv
  | @ask s id ahead new =>
    obtain ⟨u, hu, hs⟩ := Cache.isIn_iff.mp new
    refine .of_modify (cache_request_started s id) fun v hv => ?_
    obtain rfl := Option.some.inj (hu.symm.trans hv)
    exact hadvance hs rfl rfl
  | fetch new | giveUp new =>
    obtain ⟨u, hu, hs⟩ := Cache.isIn_iff.mp new
    refine .of_modify rfl fun v hv => ?_
    obtain rfl := Option.some.inj (hu.symm.trans hv)
    exact hadvance hs rfl rfl
  | receive waits loading =>
    obtain ⟨u, hu, hs⟩ := Cache.isIn_iff.mp loading
    refine .of_modify (f := fun u => { u with cancellable := false }) rfl fun v hv => ?_
    obtain rfl := Option.some.inj (hu.symm.trans hv)
    simp [hs, State.isSettled]
  | @take s id ahead text =>
    obtain ⟨u, hu, hs⟩ := Cache.isIn_iff.mp h.loading
    refine .of_modify rfl fun v hv => ?_
    obtain rfl := Option.some.inj (hu.symm.trans hv)
    exact hadvance (u := { u with text := some (s.translate text) }) hs rfl rfl
  | @refuse s id ahead e =>
    dsimp only
    exact (h.falls_refused id e).settles
  | misread unit sound =>
    dsimp only
    exact (h.falls_misread unit sound).settles
  | @read s id ahead u unit sound =>
    obtain ⟨imports, hr⟩ := h.reads unit sound
    exact .none fun j v hv hs => hr.back hv hs
  | @reject s id failed ahead u unit sound =>
    obtain ⟨imports, hr⟩ := h.reads unit sound
    have hfalls : Falls (s.understood id) (s.rejected id failed) := h.falls_rejected unit sound
    dsimp only
    refine .fails hfalls.calm fun j v hv hc => ?_
    exact hr.back (hfalls.back hv hc) (by simp [hc, State.isSettled])
  | @pass s ahead reached =>
    have hready := h.ready reached
    by_cases hp : s.Passes
    · exact .completes hready hp (hready.completes reached hp)
    · exact (hready.falls reached hp).falls.settles

/-! ### What units rest on -/

/-- A unit that may still be executed imports none that failed, a settled one imports
settled ones, and a complete one complete ones. -/
structure Session.Grounded (s : Session Tree Value Listener) : Prop where
  linked : s.cache.Linked
  fine : ∀ id u, s.cache.get? id = some u → u.state.isSettled = false →
    ∀ d ∈ u.dependencyIds, s.cache.isIn .error d = false
  settled : ∀ id u, s.cache.get? id = some u → u.state.isSettled = true →
    ∀ d ∈ u.dependencyIds, ∃ v, s.cache.get? d = some v ∧ v.state.isSettled = true
  complete : ∀ id u, s.cache.get? id = some u → u.state = .complete →
    ∀ d ∈ u.dependencyIds, s.cache.isIn .complete d = true

/-- How a unit came to be executed: in a batch in which nothing had failed so far, and
on imports that had been executed in it or were complete before. -/
structure Session.Rests (s : Session Tree Value Listener) (earlier : List (Event Value))
    (ids : List UnitId) (batch : List (Event Value)) (id : UnitId) : Prop where
  member : id ∈ ids
  unbroken : ∀ e ∈ batch, e.isAnalysis = false ∧ ∀ j code message, e ≠ .executed j code (.error message)
  imports : ∀ d, s.cache.Imports id d →
    (d ∈ ids ∧ ∃ code value, .executed d code (.ok value) ∈ batch) ∨
      (s.cache.isIn .complete d = true ∧ ∃ code value, .executed d code (.ok value) ∈ earlier) ∨
      s.cache.LeadsTo d id

/-- Each unit that was executed has settled since, and it was executed in its turn. -/
structure Session.InTurn (s : Session Tree Value Listener) : Prop where
  ended : ∀ id code result, .executed id code result ∈ s.history →
    ∃ u, s.cache.get? id = some u ∧ u.state.isSettled = true
  turn : ∀ before id code result after, s.history = before ++ .executed id code result :: after →
    ∃ earlier ids addresses batch, before = earlier ++ .analyzed ids addresses :: batch ∧
      s.Rests earlier ids batch id

namespace Session

theorem KeepsSettled.isIn (h : s.KeepsSettled t) {state : State} (hset : state.isSettled = true)
    (hid : s.cache.isIn state id = true) : t.cache.isIn state id = true := by
  obtain ⟨u, hu, rfl⟩ := Cache.isIn_iff.mp hid
  exact Cache.isIn_iff.mpr ⟨u, h id u hu hset, rfl⟩

/-- Registering listeners and adding units that import nothing yet keeps all that is
grounded. -/
theorem Grounded.extend (h : s.Grounded) (linked : t.cache.Linked)
    (old : ∀ id u, s.cache.get? id = some u →
      ∃ listeners, t.cache.get? id = some { u with listeners := listeners })
    (new : ∀ id v, t.cache.get? id = some v → s.cache.get? id = none → v.dependencies = none) :
    t.Grounded := by
  have hback {id : UnitId} {v : SourceUnit Tree Value Listener} (hv : t.cache.get? id = some v)
      {d : UnitId} (hd : d ∈ v.dependencyIds) : ∃ u, s.cache.get? id = some u ∧
        v.state = u.state ∧ d ∈ u.dependencyIds := by
    cases hu : s.cache.get? id with
    | none => simp [SourceUnit.dependencyIds, new id v hv hu] at hd
    | some u =>
      obtain ⟨listeners, hw⟩ := old id u hu
      obtain rfl := Option.some.inj (hv.symm.trans hw)
      exact ⟨u, rfl, rfl, hd⟩
  have hstate {state : State} {d : UnitId} {u : SourceUnit Tree Value Listener}
      (hu : s.cache.get? d = some u) : t.cache.isIn state d = s.cache.isIn state d := by
    obtain ⟨listeners, hv⟩ := old d u hu
    rw [Cache.isIn_eq hu, Cache.isIn_eq hv]
  refine ⟨linked, fun id v hv hs d hd => ?_, fun id v hv hs d hd => ?_, fun id v hv hs d hd => ?_⟩
  all_goals
    obtain ⟨u, hu, he, hdep⟩ := hback hv hd
    rw [he] at hs
  · obtain ⟨w, hw⟩ := Cache.get?_of_index_lt (h.linked id u hu d hdep)
    rw [hstate hw]
    exact h.fine id u hu hs d hdep
  · obtain ⟨w, hw, hws⟩ := h.settled id u hu hs d hdep
    obtain ⟨listeners, hx⟩ := old d w hw
    exact ⟨_, hx, hws⟩
  · have hd := h.complete id u hu hs d hdep
    obtain ⟨w, hw, -⟩ := Cache.isIn_iff.mp hd
    rw [hstate hw]
    exact hd

/-- A batch that goes through completes all that had not failed. -/
theorem Completes.isIn_complete (h : Completes s t) (ready : s.Ready) (passes : s.Passes)
    {u : SourceUnit Tree Value Listener} (hu : s.cache.get? id = some u)
    (fine : s.cache.isIn .error id = false) : t.cache.isIn .complete id = true := by
  rw [Cache.isIn_eq hu, decide_eq_false_iff_not] at fine
  have hunit := h.unit id u hu
  rcases ready.state id u hu with hp | hs
  · obtain ⟨value, hvalue⟩ := ready.lookup_of_parsed passes hu hp
    rw [hvalue] at hunit
    exact Cache.isIn_iff.mpr ⟨_, hunit, rfl⟩
  · rw [ready.lookup_of_isSettled hu hs] at hunit
    refine Cache.isIn_iff.mpr ⟨u, hunit, ?_⟩
    cases hstate : u.state <;> simp_all [State.isSettled]

/-- What a unit of the batch imports has not failed. -/
theorem Grounded.fine_of_completes (h : s.Grounded) (ready : s.Ready) (passes : s.Passes)
    (completes : Completes s t) {v : SourceUnit Tree Value Listener}
    (hv : t.cache.get? id = some v) (hc : v.state = .complete) :
    ∀ d ∈ v.dependencyIds, d.index < s.cache.size ∧ s.cache.isIn .error d = false := by
  obtain ⟨u, hu⟩ := Cache.get?_of_index_lt (completes.size ▸ Cache.index_lt_of_get? hv)
  have hunit := completes.unit id u hu
  rw [hv] at hunit
  rcases ready.state id u hu with hp | hs
  · obtain ⟨value, hvalue⟩ := ready.lookup_of_parsed passes hu hp
    rw [hvalue] at hunit
    obtain rfl := Option.some.inj hunit
    exact fun d hd => ⟨h.linked id u hu d hd, h.fine id u hu (by simp [hp, State.isSettled]) d hd⟩
  · rw [ready.lookup_of_isSettled hu hs] at hunit
    obtain rfl := Option.some.inj hunit
    intro d hd
    obtain ⟨w, hw, hcomplete⟩ := Cache.isIn_iff.mp (h.complete id v hu hc d hd)
    exact ⟨Cache.index_lt_of_get? hw, by rw [Cache.isIn_eq hw, hcomplete]; rfl⟩

end Session

theorem Move.grounded {m n : Moment Tree Value Listener} (hmove : Move m n) (hm : m.Sound)
    (h : m.session.Grounded) : n.session.Grounded := by
  have hdevelops := hmove.develops hm
  have hkeeps := hdevelops.keepsSettled
  have hlinked := hmove.linked hm h.linked
  have hcalm (calm : n.session.Calm) (id : UnitId) (v : SourceUnit Tree Value Listener)
      (hv : n.session.cache.get? id = some v) : ∀ d ∈ v.dependencyIds,
        ∃ w, n.session.cache.get? d = some w ∧ w.state.isSettled = true := by
    intro d hd
    obtain ⟨w, hw⟩ := Cache.get?_of_index_lt (hlinked id v hv d hd)
    exact ⟨w, hw, calm.settled d w hw⟩
  have hkept {id : UnitId} {v : SourceUnit Tree Value Listener}
      (hv : m.session.cache.get? id = some v) (hc : v.state = .complete) :
      ∀ d ∈ v.dependencyIds, n.session.cache.isIn .complete d = true :=
    fun d hd => hkeeps.isIn rfl (h.complete id v hv hc d hd)
  have hfine (id : UnitId) (v : SourceUnit Tree Value Listener)
      (hv : n.session.cache.get? id = some v) (hs : v.state.isSettled = false) :
      ∀ d ∈ v.dependencyIds, n.session.cache.isIn .error d = false :=
    ((hmove.turns hm).was hv).fine h.fine hdevelops hv hs
  cases hmove.settles hm with
  | none back =>
    refine ⟨hlinked, hfine, fun id v hv hs d hd => ?_, fun id v hv hc => ?_⟩
    · obtain ⟨w, hw, hws⟩ := h.settled id v (back id v hv hs) hs d hd
      exact ⟨w, hkeeps d w hw hws, hws⟩
    · exact hkept (back id v hv (by simp [hc, State.isSettled])) hc
  | fails calm back =>
    exact ⟨hlinked, hfine, fun id v hv _ => hcalm calm id v hv,
      fun id v hv hc => hkept (back id v hv hc) hc⟩
  | completes ready passes completes =>
    refine ⟨hlinked, hfine, fun id v hv _ => hcalm (completes.calm ready passes) id v hv,
      fun id v hv hc d hd => ?_⟩
    obtain ⟨hlt, hnot⟩ := h.fine_of_completes ready passes completes hv hc d hd
    obtain ⟨w, hw⟩ := Cache.get?_of_index_lt hlt
    exact completes.isIn_complete ready passes hw hnot

/-! ### What was executed, and when -/

theorem Event.mem_deeds {events : List (Event Value)} {id : UnitId} {code : String}
    {result : Except String Value} :
    Deed.executed id code result ∈ events.filterMap Event.deed? ↔
      .executed id code result ∈ events := by
  rw [List.mem_filterMap]
  constructor
  · rintro ⟨e, he, hd⟩
    cases e <;> simp only [Event.deed?, Option.some.injEq, reduceCtorEq] at hd
    cases hd
    exact he
  · exact fun he => ⟨_, he, rfl⟩

/-- Up to the last unit of a batch that was executed, none of the batch had failed. -/
theorem Toolchain.ok_of_events {tools : Toolchain Tree Value} {ns : Namespace Value}
    {codes : List (UnitId × String)} {before after : List (Event Value)} {e : Event Value}
    (h : (tools.runAll ns codes).events = before ++ e :: after) :
    ∀ e ∈ before, ∃ id code value, e = .executed id code (.ok value) := by
  induction codes generalizing ns before with
  | nil => simp [runAll] at h
  | cons c rest ih =>
    obtain ⟨id, code⟩ := c
    simp only [runAll] at h
    cases hd : (tools.execute code ns).result with
    | error message =>
      simp only [hd] at h
      cases before with
      | nil => simp
      | cons d before => simp at h
    | ok value =>
      simp only [hd] at h
      cases before with
      | nil => simp
      | cons d before =>
        obtain ⟨rfl, hrest⟩ := List.cons.inj h
        intro e he
        rcases List.mem_cons.mp he with rfl | he
        · exact ⟨id, code, value, rfl⟩
        · exact ih hrest e he

namespace Session

theorem Ready.mem_targets (h : s.Ready) :
    id ∈ (Build.targets s.cache).map (·.1) ↔ s.cache.isIn .parsed id = true := by
  refine ⟨fun hid => Cache.isIn_iff.mpr (mem_targets_fst hid), fun hid => ?_⟩
  obtain ⟨u, hu, hp⟩ := Cache.isIn_iff.mp hid
  obtain ⟨tree, ht⟩ := Option.isSome_iff_exists.mp (h.tree id u hu hp)
  exact List.mem_map.mpr ⟨_, Build.mem_targets.mpr ⟨u, tree, hu, hp, ht, rfl⟩, rfl⟩

/-- What a unit of a batch rests on when it is executed. -/
theorem Executes.rests (he : s.Executes) (hg : s.Grounded) (hr : s.Recorded)
    (proper : ∀ id u, s.cache.get? id = some u → u.Proper) {front after : List (Event Value)}
    {code : String} {result : Except String Value}
    (hd : s.batchRun.events = front ++ .executed id code result :: after) :
    s.cache.isIn .parsed id = true ∧
      s.Rests s.history ((Build.targets s.cache).map (·.1)) (s.loweredEvents ++ front) id := by
  have hdeeds : s.batchRun.deeds = front.filterMap Event.deed? ++
      .executed id code result :: after.filterMap Event.deed? := by
    simp [Ran.deeds, hd, Event.deed?]
  have hparsed : s.cache.isIn .parsed id = true := by
    refine he.isIn_parsed (mem_unitsOf.mpr ⟨code, result, ?_⟩)
    rw [hdeeds]
    simp
  refine ⟨hparsed, he.ready.mem_targets.mpr hparsed, fun e hm => ?_, fun d hdep => ?_⟩
  · rcases List.mem_append.mp hm with hm | hm
    · obtain ⟨target, -, rfl⟩ := List.mem_map.mp hm
      exact ⟨rfl, by simp⟩
    · obtain ⟨j, c, value, rfl⟩ := Toolchain.ok_of_events hd e hm
      exact ⟨rfl, by simp⟩
  · obtain ⟨u, hu, hp⟩ := Cache.isIn_iff.mp hparsed
    have hopen : u.state.isSettled = false := by simp [hp, State.isSettled]
    have hdep' : d ∈ u.dependencyIds := Cache.dependencyIds_eq hu ▸ hdep
    rcases he.order hr proper hdeeds hu (hg.linked id u hu) (hg.fine id u hu hopen) d hdep' with
      ⟨hd, c, value, hm⟩ | ⟨hd, c, value, hm⟩ | hback
    · exact .inl ⟨he.ready.mem_targets.mpr hd, c, value,
        List.mem_append_right _ (Event.mem_deeds.mp hm)⟩
    · exact .inr (.inl ⟨hd, c, value, Event.mem_deeds.mp hm⟩)
    · exact .inr (.inr hback)

theorem Rests.continue {earlier batch : List (Event Value)} {ids : List UnitId}
    (h : s.Rests earlier ids batch id) (continues : s.Continues t)
    (same : t.cache.dependencyIds id = s.cache.dependencyIds id) : t.Rests earlier ids batch id where
  member := h.member
  unbroken := h.unbroken
  imports := by
    intro d hd
    rw [Cache.Imports, same] at hd
    refine (h.imports d hd).imp_right (Or.imp ?_ (Cache.LeadsTo.mono continues.imports))
    exact And.imp_left (continues.settled.isIn rfl)

theorem Continues.dependencyIds (h : s.Continues t) {u : SourceUnit Tree Value Listener}
    (hu : s.cache.get? id = some u) (hs : u.state.isSettled = true) :
    t.cache.dependencyIds id = s.cache.dependencyIds id := by
  rw [Cache.dependencyIds_eq hu, Cache.dependencyIds_eq (h.settled id u hu hs)]

theorem InTurn.turn_of_continues (h : s.InTurn) (continues : s.Continues t)
    {before after : List (Event Value)} {code : String} {result : Except String Value}
    (he : s.history = before ++ .executed id code result :: after) :
    ∃ earlier ids addresses batch, before = earlier ++ .analyzed ids addresses :: batch ∧
      t.Rests earlier ids batch id := by
  obtain ⟨earlier, ids, addresses, batch, hb, hrests⟩ := h.turn before id code result after he
  obtain ⟨u, hu, hs⟩ := h.ended id code result (by rw [he]; simp)
  exact ⟨earlier, ids, addresses, batch, hb,
    hrests.continue continues (continues.dependencyIds hu hs)⟩

theorem InTurn.continue (h : s.InTurn) (continues : s.Continues t) {events : List (Event Value)}
    (history : t.history = s.history ++ events) (quiet : ∀ e ∈ events, e.deed? = none) :
    t.InTurn := by
  refine ⟨fun id code result hm => ?_, fun before id code result after he => ?_⟩
  · rw [history] at hm
    rcases List.mem_append.mp hm with hm | hm
    · obtain ⟨u, hu, hs⟩ := h.ended id code result hm
      exact ⟨u, continues.settled id u hu hs, hs⟩
    · cases quiet _ hm
  · rw [history] at he
    rcases append_eq_append_cons he with ⟨rest, hold⟩ | ⟨front, -, hnew⟩
    · exact h.turn_of_continues continues hold
    · cases quiet (.executed id code result) (by rw [hnew]; simp)

/-- An execution that a batch writes down is one of its run. -/
theorem executed_of_batch {front after : List (Event Value)} {code : String}
    {result : Except String Value}
    (h : s.analyzedEvent :: (s.loweredEvents ++ s.batchRun.events) =
      front ++ .executed id code result :: after) :
    ∃ front', front = s.analyzedEvent :: (s.loweredEvents ++ front') ∧
      s.batchRun.events = front' ++ .executed id code result :: after := by
  have hsplit : (s.analyzedEvent :: s.loweredEvents) ++ s.batchRun.events =
      front ++ .executed id code result :: after := h
  rcases append_eq_append_cons hsplit with ⟨rest, hin⟩ | ⟨front', rfl, hrun⟩
  · have hmem : Event.executed id code result ∈ s.analyzedEvent :: s.loweredEvents := by
      rw [hin]
      simp
    simp [analyzedEvent, loweredEvents] at hmem
  · exact ⟨front', rfl, hrun⟩

theorem Executes.inTurn (he : s.Executes) (hg : s.Grounded) (hr : s.Recorded)
    (proper : ∀ id u, s.cache.get? id = some u → u.Proper) (h : s.InTurn)
    (continues : s.Continues t) (still : Still s.executedSession t) (calm : t.Calm)
    (history : t.history =
      s.history ++ s.analyzedEvent :: (s.loweredEvents ++ s.batchRun.events)) : t.InTurn := by
  have hunit {front after : List (Event Value)} {id : UnitId} {code : String}
      {result : Except String Value}
      (hd : s.batchRun.events = front ++ .executed id code result :: after) :
      (∃ v, t.cache.get? id = some v ∧ v.state.isSettled = true) ∧
        t.Rests s.history ((Build.targets s.cache).map (·.1)) (s.loweredEvents ++ front) id := by
    obtain ⟨hparsed, hrests⟩ := he.rests hg hr proper hd
    obtain ⟨u, hu, -⟩ := Cache.isIn_iff.mp hparsed
    obtain ⟨v, hv, hstem⟩ := he.stem still hu
    refine ⟨⟨v, hv, calm.settled id v hv⟩, hrests.continue continues ?_⟩
    rw [Cache.dependencyIds_eq hv, Cache.dependencyIds_eq hu, SourceUnit.dependencyIds_of_stem hstem]
  refine ⟨fun id code result hm => ?_, fun before id code result after hsplit => ?_⟩
  · rw [history] at hm
    rcases List.mem_append.mp hm with hm | hm
    · obtain ⟨u, hu, hs⟩ := h.ended id code result hm
      exact ⟨u, continues.settled id u hu hs, hs⟩
    · obtain ⟨front, after, hsplit⟩ := List.append_of_mem hm
      obtain ⟨front', -, hd⟩ := executed_of_batch hsplit
      exact (hunit hd).1
  · rw [history] at hsplit
    rcases append_eq_append_cons hsplit with ⟨rest, hold⟩ | ⟨front, rfl, hnew⟩
    · exact h.turn_of_continues continues hold
    · obtain ⟨front', rfl, hd⟩ := executed_of_batch hnew
      exact ⟨s.history, _, _, s.loweredEvents ++ front', rfl, (hunit hd).2⟩

/-- All that can be said of what the units of a session rest on. -/
structure Founded (s : Session Tree Value Listener) : Prop extends
    s.Grounded, s.Recorded, s.InTurn

end Session

theorem Event.deed?_of_not_ofBatch {e : Event Value} (h : e.ofBatch = false) : e.deed? = none := by
  cases e <;> first | rfl | cases h

theorem Move.inTurn {m n : Moment Tree Value Listener} (hmove : Move m n) (hm : m.Sound)
    (h : m.session.Founded) : n.session.InTurn := by
  have hcontinues := hmove.continues hm
  obtain ⟨events, hhistory, hquiet | ⟨hhand, hreached, rfl, hwrites⟩⟩ := hmove.writes hm
  · exact h.toInTurn.continue hcontinues hhistory fun e he => Event.deed?_of_not_ofBatch (hquiet e he)
  · cases hwrites with
    | analysed =>
      exact h.toInTurn.continue hcontinues hhistory (by simp [analyzedEvent, Event.deed?])
    | lowered =>
      refine h.toInTurn.continue hcontinues hhistory fun e he => ?_
      rcases List.mem_cons.mp he with rfl | he
      · rfl
      · obtain ⟨target, -, rfl⟩ := List.mem_map.mp he
        rfl
    | executed executes =>
      obtain ⟨s, ahead, hand⟩ := m
      obtain rfl : hand = .nothing := hhand
      exact executes.inTurn h.toGrounded h.toRecorded (fun id u hu => (hm.fits id u hu).proper)
        h.toInTurn hcontinues (executes.still hreached) (calm_checkBarrier hm hreached) hhistory

theorem throughout_founded : Throughout fun m : Moment Tree Value (UnitLoader.Listener Value) =>
    m.session.Founded := by
  have hsame {s t : Session Tree Value (UnitLoader.Listener Value)} (h : s.Founded)
      (recorded : t.Recorded) (linked : t.cache.Linked) (history : t.history = s.history)
      (settled : s.KeepsSettled t)
      (old : ∀ id u, s.cache.get? id = some u →
        ∃ listeners, t.cache.get? id = some { u with listeners := listeners })
      (new : ∀ id v, t.cache.get? id = some v → s.cache.get? id = none → v.dependencies = none) :
      t.Founded := by
    have hcontinues : s.Continues t := continues_of_stem settled fun id u hu => by
      obtain ⟨listeners, hv⟩ := old id u hu
      exact ⟨_, hv, rfl⟩
    exact
      { toGrounded := h.toGrounded.extend linked old new
        toRecorded := recorded
        toInTurn := h.toInTurn.continue hcontinues (history.trans (List.append_nil _).symm) (by simp) }
  have hrecorded : Throughout fun m : Moment Tree Value (UnitLoader.Listener Value) =>
      m.session.Recorded := lasting_recorded.throughout
  refine ⟨fun s t hs happart => ?_, fun s id u listener hu hopen hs => ?_,
    fun s registered m rest hs henters => ?_, fun m n hm hs hmove => ?_⟩
  · have hcache : t.cache = s.cache := by rw [happart]
    refine hsame hs (hrecorded.apart s t hs.toRecorded happart) ?_ (by rw [happart])
      (undisturbed_of_cache hcache).settled (fun id u hu => ⟨u.listeners, ?_⟩) fun id v hv hu => ?_
    · rw [hcache]
      exact hs.linked
    · rw [hcache, hu]
    · rw [hcache, hu] at hv
      cases hv
  · refine hsame hs (hrecorded.listens s id u listener hu hopen hs.toRecorded)
      (linked_of_modify hs.linked rfl fun _ => rfl) rfl
      (undisturbed_listening hu hopen listener).settled (fun j v hv => ?_) fun j v hv hnone => ?_
    · simp only [cache_listening, Cache.get?_modify, hv]
      split
      · exact ⟨_, rfl⟩
      · exact ⟨v.listeners, rfl⟩
    · simp only [cache_listening, Cache.get?_modify, hnone] at hv
      split at hv <;> cases hv
  · refine hsame hs (hrecorded.enters s registered m rest hs.toRecorded henters)
      (henters.linked rest.linked) henters.prepares.history henters.prepares.settled
      (fun id u hu => ?_) fun id v hv hnone => (henters.new hv hnone).1
    obtain ⟨listeners, hv, -⟩ := henters.old hu
    exact ⟨listeners, hv⟩
  · exact
      { toGrounded := hmove.grounded hm hs.toGrounded
        toRecorded := lasting_recorded.moves m n hm hs.toRecorded hmove
        toInTurn := hmove.inTurn hm hs }

namespace Host

variable {ledger : List Registration} {h : Host Tree Value} {loader : Nat}
  {s : Session Tree Value (UnitLoader.Listener Value)}

theorem Run.founded (run : Run ledger h) (hs : h.session? loader = some s) : s.Founded :=
  throughout_founded.run (fun setup ns => by
    have hnone (id : UnitId) (u : SourceUnit Tree Value (UnitLoader.Listener Value)) :
        (opened setup ns).cache.get? id ≠ some u := fun hu => by cases hu
    exact
      { linked := fun id u hu => absurd hu (hnone id u)
        fine := fun id u hu => absurd hu (hnone id u)
        settled := fun id u hu => absurd hu (hnone id u)
        complete := fun id u hu => absurd hu (hnone id u)
        executed := fun id u _ hu => absurd hu (hnone id u)
        kept := fun _ _ _ hd => by cases hd
        ends := fun id u _ hu => absurd hu (hnone id u)
        ended := fun _ _ _ he => by cases he
        turn := fun before _ _ _ _ he => by
          simp [opened, Session.fresh, Build.empty] at he }) run hs

/-- In every session of every run, a unit that is complete leads to complete units only, and
one that is settled imports settled ones. Each unit that was executed was in a batch none of
whose units had failed, and each of its imports had been executed with a value, in the same
batch or in an earlier one that is complete; an import for which that is not so leads back to
the unit. -/
theorem Run.rests_on_imports (run : Run ledger h) (hs : h.session? loader = some s) :
    (∀ id d, s.cache.isIn .complete id = true → s.cache.LeadsTo id d →
      s.cache.isIn .complete d = true) ∧
    (∀ id u, s.cache.get? id = some u → u.state.isSettled = true → ∀ d ∈ u.dependencyIds,
      ∃ v, s.cache.get? d = some v ∧ v.state.isSettled = true) ∧
    ∀ before id code result after, s.history = before ++ .executed id code result :: after →
      ∃ earlier ids addresses batch, before = earlier ++ .analyzed ids addresses :: batch ∧
        s.Rests earlier ids batch id := by
  have hfounded := run.founded hs
  refine ⟨fun id d hid hleads => ?_, hfounded.settled, hfounded.turn⟩
  -- along the imports, one after another
  induction hleads with
  | refl => exact hid
  | tail _ himports ih =>
    obtain ⟨u, hu, hc⟩ := Cache.isIn_iff.mp ih
    exact hfounded.complete _ u hu hc _ (Cache.dependencyIds_eq hu ▸ himports)

def importingScript : Setup Program UnitLoader.Value :=
  .plain Lang.toolchain .default (.ofList
    [("/main", .ok "import x from \"/a\"\nx"), ("/a", .ok "export x = \"done\"")] false)

/-- A script that was executed, and the module that it imports and that was executed before. -/
theorem Run.rests_on_imports_script :
    ∃ s : Session Program UnitLoader.Value (UnitLoader.Listener UnitLoader.Value),
      s.cache.Imports ⟨0⟩ ⟨1⟩ ∧ s.cache.isIn .complete ⟨0⟩ = true ∧
        s.cache.isIn .complete ⟨1⟩ = true ∧
        ∃ earlier ids batch, s.Rests earlier ids batch ⟨0⟩ := by
  have joined := Run.empty.join importingScript false rfl
  have run := (joined.ask (.request 0 (.loadSync "/main" .script))).tick
  obtain ⟨s, hs⟩ : ∃ s, ((opened importingScript .empty).loadSync "/main" .script).session = s :=
    ⟨_, rfl⟩
  obtain ⟨hcomplete, -, hturn⟩ := Run.rests_on_imports run
    (show Host.session? _ 0 = some s by rw [← hs]; rfl)
  have himports : s.cache.Imports ⟨0⟩ ⟨1⟩ := by
    rw [← hs]
    exact (by decide +kernel : (⟨1⟩ : UnitId) ∈
      ((opened importingScript .empty).loadSync "/main" .script).session.cache.dependencyIds ⟨0⟩)
  have hmain : s.cache.isIn .complete ⟨0⟩ = true := by
    rw [← hs]
    decide +kernel
  have hlast : (s.history.getLast?.bind Event.deed?).bind Deed.unit? = some ⟨0⟩ := by
    rw [← hs]
    decide +kernel
  refine ⟨s, himports, hmain, hcomplete ⟨0⟩ ⟨1⟩ hmain (.single himports), ?_⟩
  obtain ⟨d, hd, hunit⟩ := Option.bind_eq_some_iff.mp hlast
  obtain ⟨e, he, hdeed⟩ := Option.bind_eq_some_iff.mp hd
  obtain ⟨before, hsplit⟩ := List.getLast?_eq_some_iff.mp he
  cases e <;> simp only [Event.deed?, Option.some.injEq, reduceCtorEq] at hdeed
  subst hdeed
  obtain rfl := Option.some.inj hunit
  obtain ⟨earlier, ids, addresses, batch, -, hrests⟩ := hturn before _ _ _ [] hsplit
  exact ⟨earlier, ids, batch, hrests⟩

end Host

end UnitLoader
