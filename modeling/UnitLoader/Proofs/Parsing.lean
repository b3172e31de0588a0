import UnitLoader.Proofs.Provenance
import UnitLoader.Proofs.Tallies
import UnitLoader.Proofs.Tracing

/-! What comes of parsing a unit. A text without an error gives the unit its tree and fixes
its dependencies; one with an error fails it. No unit that is still open has an error. -/

namespace UnitLoader

variable {Tree Value Listener : Type}

namespace Session

/-- A unit has the tree of a text without an error. The text itself may be given up. -/
def HasRead (s : Session Tree Value Listener) (u : SourceUnit Tree Value Listener) : Prop :=
  ∃ text, s.isSound { u with text := some text } = true ∧
    u.tree = some (s.readTree { u with text := some text })

/-- A unit was parsed without an error. -/
structure ParsedWell (s : Session Tree Value Listener) (id : UnitId)
    (u : SourceUnit Tree Value Listener) : Prop where
  parsed : .parsed id u.address u.kind ∈ s.history
  read : s.HasRead u

/-- A unit has failed with the errors of its text. -/
structure ParsedBadly (s : Session Tree Value Listener) (u : SourceUnit Tree Value Listener) :
    Prop where
  unsound : s.isSound u = false
  state : u.state = .error
  error : ∃ message, u.error = some (.parse u.address message)

/-- The dependencies of a unit are fixed by parsing it without an error. They are modules
that are there, each of them once. -/
structure Fixes (s : Session Tree Value Listener) (id : UnitId)
    (u : SourceUnit Tree Value Listener) : Prop where
  fixed : u.dependencies.isSome = true ↔ s.ParsedWell id u
  unfixed : u.dependencies = none → s.times .parsed id = 0 ∨ s.ParsedBadly u
  nodup : u.dependencyIds.Nodup
  modules : ∀ d ∈ u.dependencyIds, ∃ v, s.cache.get? d = some v ∧ v.kind = .module

variable {s t : Session Tree Value Listener} {id : UnitId} {u v : SourceUnit Tree Value Listener}

/-! ### The imports of a tree -/

theorem nodup_importAddresses {resolve : String → String} {specifiers addresses : List String}
    (h : addresses.Nodup) : (importAddresses resolve specifiers addresses).Nodup := by
  induction specifiers generalizing addresses with
  | nil => exact h
  | cons first rest ih =>
    rw [importAddresses, List.foldl_cons, ← importAddresses]
    refine ih ?_
    split
    · exact h
    · next hnew => exact h.append (List.nodup_singleton _) (by simpa using hnew)

theorem FoundAt.nodup {c : Cache Tree Value Listener} {addresses : List String}
    {ids : List UnitId} (h : FoundAt c addresses ids) (hn : addresses.Nodup) : ids.Nodup := by
  induction h with
  | nil => exact .nil
  | cons hfirst hrest ih =>
    obtain ⟨hnew, hn⟩ := List.nodup_cons.mp hn
    exact List.nodup_cons.mpr ⟨fun hin => hnew ((FoundAt.mem_iff hrest hfirst).mpr hin), ih hn⟩

/-- What is known of a unit from its tree. -/
structure Learned (s : Session Tree Value Listener) (u : SourceUnit Tree Value Listener) :
    Prop where
  unread : u.dependencies = none → u.tree = none
  read : u.dependencies.isSome = true → s.HasRead u
  nodup : u.dependencyIds.Nodup
  modules : ∀ d ∈ u.dependencyIds, ∃ v, s.cache.get? d = some v ∧ v.kind = .module

theorem learned_of_none (htree : u.tree = none) (hdependencies : u.dependencies = none) :
    s.Learned u where
  unread := fun _ => htree
  read := by simp [hdependencies]
  nodup := by simp [SourceUnit.dependencyIds, hdependencies]
  modules := by simp [SourceUnit.dependencyIds, hdependencies]

theorem Learned.mono (h : s.Learned u) (keeps : s.cache.Keeps t.cache) (tools : t.tools = s.tools)
    (stem : v.stem = u.stem) : t.Learned v := by
  obtain ⟨haddress, hkind, -, htree, hdependencies⟩ := SourceUnit.fields_of_stem stem
  have hids := SourceUnit.dependencyIds_of_stem stem
  refine ⟨?_, ?_, hids ▸ h.nodup, fun d hd => ?_⟩
  · rw [htree, hdependencies]
    exact h.unread
  · simp only [HasRead, isSound, readTree, tools, haddress, hkind, htree, hdependencies]
    exact h.read
  · obtain ⟨w, hw, hm⟩ := h.modules d (hids ▸ hd)
    obtain ⟨x, hx, -, hk, -⟩ := keeps d w hw
    exact ⟨x, hx, hk.trans hm⟩

theorem Turns.learned (turns : Turns s t) (develops : Develops s t)
    (h : ∀ id u, s.cache.get? id = some u → s.Learned u) (hv : t.cache.get? id = some v) :
    t.Learned v := by
  have htools := develops.setting.tools
  have hkeep {u : SourceUnit Tree Value Listener} (hu : s.cache.get? id = some u)
      (stem : v.stem = u.stem) : t.Learned v := (h id u hu).mono develops.keeps htools stem
  cases turns with
  | still still =>
    obtain ⟨u, hu, he⟩ := still.get?_back hv
    exact hkeep hu (SourceUnit.stem_of_core he)
  | @reads i u imports m unit loaded sound reads still fine =>
    obtain ⟨w, hw, he⟩ := still.get?_back hv
    have hstem := SourceUnit.stem_of_core he
    obtain ⟨haddress, hkind, -, htree, hdependencies⟩ := SourceUnit.fields_of_stem hstem
    rcases reads.get?_back hw with ⟨rfl, rfl⟩ | ⟨-, hw⟩ | ⟨hnone, -, address, kind, rfl⟩
    · have hfound := reads.found.keeps still.keeps
      have hids : v.dependencyIds = imports := SourceUnit.dependencyIds_of_stem hstem
      refine ⟨by simp [hdependencies], fun _ => ⟨u.text.getD "", ?_, ?_⟩,
        hids ▸ hfound.nodup (nodup_importAddresses .nil), fun d hd => ?_⟩
      · simpa [isSound, htools, haddress, hkind] using sound
      · simp [readTree, htools, haddress, hkind, htree]
      · obtain ⟨address, -, hl⟩ := hfound.exists_address (hids ▸ hd)
        obtain ⟨x, hx, -, -, hm⟩ := Cache.lookup_eq_some hl
        exact ⟨x, hx, hm⟩
    · exact hkeep hw hstem
    · exact learned_of_none htree hdependencies
  | stops ready falls still =>
    obtain ⟨u, hu, he⟩ := still.get?_back hv
    exact hkeep hu (SourceUnit.stem_of_core he)
  | executes executes still ends =>
    obtain ⟨u, hu, stem⟩ := executes.stem_back still hv
    exact hkeep hu stem

end Session

open Session

theorem lasting_learned : Lasting fun s : Session Tree Value (UnitLoader.Listener Value) =>
    ∀ id u, s.cache.get? id = some u → s.Learned u where
  still := by
    intro s t hs still _ id v hv
    obtain ⟨u, hu, he⟩ := Still.get?_back still hv
    exact (hs id u hu).mono (Still.keeps (t := { t with ns := s.ns }) still) still.tools
      (SourceUnit.stem_of_core he)
  gains := by
    intro s t w _ hs gains new _ id v hv
    rcases gains.get?_back hv with ⟨u, hu, he⟩ | ⟨-, he⟩
    · exact (hs id u hu).mono gains.keeps gains.tools (SourceUnit.stem_of_core he)
    · obtain ⟨-, -, -, htree, hdependencies⟩ :=
        SourceUnit.fields_of_stem (SourceUnit.stem_of_core he)
      cases new <;> exact learned_of_none htree hdependencies
  moves := fun _ _ hm hs hmove _ _ hv => (hmove.turns hm).learned (hmove.develops hm) hs hv

/-! ### Errors -/

namespace Session

variable {s t : Session Tree Value Listener} {id : UnitId} {u : SourceUnit Tree Value Listener}

/-- No unit that is still open has an error. -/
def Faultless (s : Session Tree Value Listener) : Prop :=
  ∀ id u, s.cache.get? id = some u → u.state.isSettled = false → u.error = none

theorem Calm.faultless (h : s.Calm) : s.Faultless := by
  intro id u hu hs
  cases hs.symm.trans (h.settled id u hu)

theorem Faultless.modify (h : s.Faultless)
    {f : SourceUnit Tree Value Listener → SourceUnit Tree Value Listener}
    (cache : t.cache = s.cache.modify id f) (error : ∀ u, (f u).error = u.error)
    (unsettled : ∀ u, s.cache.get? id = some u → u.state.isSettled = false) : t.Faultless := by
  intro j v hv hs
  rw [cache, Cache.get?_modify] at hv
  split at hv
  · next hj =>
    subst hj
    obtain ⟨u, hu, rfl⟩ := Option.map_eq_some_iff.mp hv
    exact (error u).trans (h id u hu (unsettled u hu))
  · exact h j v hv hs

theorem Reads.faultless {tree : Tree} {imports : List UnitId} (reads : Reads s t id u tree imports)
    (h : s.Faultless) (hu : s.cache.get? id = some u) (unsettled : u.state.isSettled = false) :
    t.Faultless := by
  intro j v hv hs
  rcases reads.get?_back hv with ⟨rfl, rfl⟩ | ⟨-, hv⟩ | ⟨-, -, address, kind, rfl⟩
  · exact h j u hu unsettled
  · exact h j v hv hs
  · rfl

theorem unsettled_of_isIn {state : State} (hid : s.cache.isIn state id = true)
    (unsettled : state.isSettled = false) (hu : s.cache.get? id = some u) :
    u.state.isSettled = false := by
  rw [Cache.isIn_eq hu, decide_eq_true_eq] at hid
  rwa [hid]

theorem Enters.faultless {registered : List (UnitId × Listener)} {m : Moment Tree Value Listener}
    (enters : Enters s registered m) (h : s.Faultless) : m.session.Faultless := by
  have hfind (address : String) (kind : Kind) : (s.find address kind).session.Faultless := by
    intro id u hu hs
    rcases get?_find_back hu with hu | rfl
    · exact h id u hu hs
    · rfl
  cases enters with
  | find address kind => exact hfind address kind
  | subscribe address kind unit unsettled listener =>
    refine (hfind address kind).modify (cache_listening _ _ _) (fun _ => rfl) fun v hv => ?_
    rwa [← Option.some.inj (unit.symm.trans hv)]
  | evaluate code listener =>
    intro id u hu hs
    rw [get?_evaluating] at hu
    split at hu
    · obtain rfl := Option.some.inj hu
      rfl
    · exact h id u hu hs
  | receive => exact h

end Session

theorem SourceUnit.error_advance (u : SourceUnit Tree Value Listener) (state : State) :
    (u.advance state).error = u.error := by
  simp only [advance]
  split <;> rfl

/-- An error is only recorded where the unit fails with it, or the whole batch does. -/
theorem Move.faultless {m n : Moment Tree Value Listener} (hmove : Move m n) (hm : m.Sound)
    (h : m.session.Faultless) : n.session.Faultless := by
  cases hmove with
  | skip => exact h
  | ask new =>
    exact h.modify (cache_request_started _ _) (fun u => u.error_advance _)
      fun u hu => unsettled_of_isIn new rfl hu
  | fetch new | giveUp new =>
    exact h.modify (cache_started _ _) (fun u => u.error_advance _)
      fun u hu => unsettled_of_isIn new rfl hu
  | receive _ loading =>
    exact h.modify (cache_received _ _) (fun _ => rfl) fun u hu => unsettled_of_isIn loading rfl hu
  | take =>
    exact h.modify (cache_withText _ _ _) (fun u => SourceUnit.error_advance _ _)
      fun u hu => unsettled_of_isIn hm.loading rfl hu
  | @refuse s id ahead e =>
    have hfalls : Falls s (s.refused id e) := hm.falls_refused id e
    dsimp only
    exact hfalls.calm.faultless
  | @misread s id ahead u unit sound =>
    have hfalls : Falls s (s.misread id) := hm.falls_misread unit sound
    dsimp only
    exact hfalls.calm.faultless
  | read unit sound =>
    obtain ⟨imports, reads⟩ := hm.reads unit sound
    exact reads.faultless h unit (hm.isSettled_text unit)
  | @reject s id failed ahead u unit sound =>
    have hfalls : Falls (s.understood id) (s.rejected id failed) := hm.falls_rejected unit sound
    dsimp only
    exact hfalls.calm.faultless
  | pass reached => exact (calm_checkBarrier hm reached).faultless

theorem throughout_faultless :
    Throughout fun m : Moment Tree Value (UnitLoader.Listener Value) => m.session.Faultless where
  apart := by
    intro s t hs happart
    rw [happart]
    exact hs
  listens := fun s id u listener unit unsettled hs => by
    refine Faultless.modify hs (cache_listening _ _ _) (fun _ => rfl) fun v hv => ?_
    rwa [← Option.some.inj (unit.symm.trans hv)]
  enters := fun _ _ _ _ hs enters => enters.faultless hs
  moves := fun _ _ hm h hmove => hmove.faultless hm h

/-! ### The history -/

namespace Session

variable {s t : Session Tree Value Listener} {id : UnitId} {u v : SourceUnit Tree Value Listener}

/-- Only a unit that is read gets dependencies. -/
theorem Turns.dependencies_eq (turns : Turns s t) (hu : s.cache.get? id = some u)
    (hv : t.cache.get? id = some v) (unread : u.state ≠ .loaded) :
    v.dependencies = u.dependencies := by
  cases turns.was hv with
  | same unit stem =>
    obtain rfl := Option.some.inj (hu.symm.trans unit)
    exact (SourceUnit.fields_of_stem stem).2.2.2.2
  | unread unit loaded =>
    obtain rfl := Option.some.inj (hu.symm.trans unit)
    exact absurd loaded unread
  | absent none => cases none.symm.trans hu

theorem Turns.dependencies_of_new (turns : Turns s t) (hu : s.cache.get? id = none)
    (hv : t.cache.get? id = some v) : v.dependencies = none := by
  cases turns.was hv with
  | same unit => cases hu.symm.trans unit
  | unread unit => cases hu.symm.trans unit
  | absent none address stem => exact (SourceUnit.fields_of_stem stem).2.2.2.2

theorem times_of_history {events : List (Event Value)} (history : t.history = s.history ++ events)
    (stage : Stage) (id : UnitId) :
    t.times stage id = s.times stage id + events.countP (Event.marks stage id) := by
  rw [times, history, List.countP_append]
  rfl

theorem CallsOff.times {events : List (Event Value)} (h : CallsOff s events t) (stage : Stage)
    (id : UnitId) :
    t.times stage id = s.times stage id + events.countP (Event.marks stage id) := by
  rw [times_of_history h.history, List.countP_append, count_cancellations, Nat.add_zero]

theorem get?_abortAll (hn : s.pending.Nodup) (hu : s.cache.get? id = some u) (cause : LoadError) :
    (s.abortAll cause).cache.get? id =
      some ((if id ∈ s.pending then u.uncancelled else u).fail
        (.aborted u.address cause.rootCause)).hushed := by
  obtain ⟨fetcher, events, he, -⟩ := abortAll_eq s cause
  have hid := Cache.mem_ids_of_get? hu
  have hids {c : Cache Tree Value Listener} (hc : c.size = s.cache.size) : id ∈ c.ids :=
    Cache.ids_eq_of_size_eq hc ▸ hid
  rw [he, notifyFailures_eq]
  simp only [Cache.get?_foldl_modify (Cache.nodup_ids _), Cache.get?_foldl_modify hn]
  rw [if_pos (hids (by simp)), if_pos hid, hu]
  split <;> rfl

/-- The unit that a batch fails for keeps its text and has the error as its own. -/
theorem get?_abortAll_culprit (hn : s.pending.Nodup) (idle : id ∉ s.pending)
    (hu : s.cache.get? id = some u) (unsettled : u.state.isSettled = false)
    (clean : u.error = none) (e : LoadError) :
    ((s.modifyUnit id (·.recordError e)).abortAll e).cache.get? id =
      some { u with state := .error, error := some e, listeners := [] } := by
  have hunit : (s.modifyUnit id (·.recordError e)).cache.get? id = some (u.recordError e) := by
    simp [modifyUnit, onBuild, Build.modify, Cache.get?_modify, hu]
  have hidle : id ∉ (s.modifyUnit id (·.recordError e)).pending := idle
  have hnodup : (s.modifyUnit id (·.recordError e)).pending.Nodup := hn
  rw [get?_abortAll hnodup hunit, if_neg hidle, SourceUnit.fail_recordError unsettled]
  simp [SourceUnit.fail, unsettled, SourceUnit.recordError, clean, SourceUnit.hushed]

theorem get?_misread {ahead : List UnitId} (hm : Moment.Sound ⟨s, ahead, .text id⟩)
    (hu : s.cache.get? id = some u) (bad : s.isSound u = false) (clean : u.error = none) :
    ∃ message, (s.misread id).cache.get? id = some
      { u with state := .error, error := some (.parse u.address message), listeners := [] } := by
  obtain ⟨reporter, project, hb⟩ := parse_of_not_sound hu bad
  have hidle : id ∉ s.pending := fun hp => by
    have hloading := ((hm.fits id u hu).pending.mp hp).1
    cases hloading.symm.trans ((hm.fits id u hu).loaded.mpr rfl)
  have hparsed : ({ s with toBuild := (s.toBuild.parse s.tools id).build } :
      Session Tree Value Listener).cache.get? id = some u := by rw [hb, hu]
  rw [misread, Cache.addressOf_eq hu]
  exact ⟨_, get?_abortAll_culprit (s := { s with toBuild := (s.toBuild.parse s.tools id).build })
    hm.nodup hidle hparsed (hm.isSettled_text hu) clean _⟩

/-- What the history has of the parsing of a unit. -/
structure Noted (s : Session Tree Value Listener) (id : UnitId)
    (u : SourceUnit Tree Value Listener) : Prop where
  read : u.dependencies.isSome = true → .parsed id u.address u.kind ∈ s.history
  unread : u.dependencies = none → s.times .parsed id = 0 ∨ s.ParsedBadly u

theorem Noted.keep (h : s.Noted id u) (becomes : u.Becomes v)
    (dependencies : v.dependencies = u.dependencies)
    (history : ∃ events, t.history = s.history ++ events) (tools : t.tools = s.tools)
    (times : t.times .parsed id = s.times .parsed id) : t.Noted id v where
  read := by
    obtain ⟨events, history⟩ := history
    rw [dependencies, becomes.address, becomes.kind, history]
    exact fun hsome => List.mem_append_left _ (h.read hsome)
  unread := by
    rw [dependencies, times]
    refine fun hnone => (h.unread hnone).imp_right fun bad => ?_
    obtain rfl := becomes.settled (by rw [bad.state]; rfl)
    exact ⟨by simpa only [isSound, tools] using bad.unsound, bad.state, bad.error⟩

end Session

open Session

section Moves

variable {m n : Moment Tree Value Listener} {id : UnitId} {v : SourceUnit Tree Value Listener}

/-- Only the unit whose text is in hand is parsed. -/
theorem Move.times_parsed (hmove : Move m n) (hm : m.Sound) (other : m.hand ≠ .text id) :
    n.session.times .parsed id = m.session.times .parsed id := by
  have hquiet {events : List (Event Value)}
      (history : n.session.history = m.session.history ++ events)
      (quiet : events.countP (Event.marks .parsed id) = 0) :
      n.session.times .parsed id = m.session.times .parsed id := by
    rw [times_of_history history, quiet, Nat.add_zero]
  have hne {j : UnitId} (hhand : m.hand = .text j) : j ≠ id := fun he => other (he ▸ hhand)
  cases hmove with
  | skip | giveUp | take => rfl
  | ask => exact hquiet (history_request _ _) (by simp [Event.marks])
  | fetch | receive => exact hquiet rfl (by simp [Event.marks, Stage.ofFetch])
  | @refuse s i ahead e =>
    have hcalls : CallsOff s [] (s.refused i e) := hm.callsOff_refused rfl e
    dsimp only
    exact hcalls.times _ _
  | misread unit sound =>
    have hcalls := hm.callsOff_misread unit sound
    dsimp only
    exact (hcalls.times _ _).trans (by simp [Event.marks, hne rfl])
  | read unit sound =>
    obtain ⟨imports, reads⟩ := hm.reads unit sound
    exact hquiet reads.history (by simp [Event.marks, hne rfl])
  | @reject s i failed ahead u unit sound =>
    have hcalls := hm.callsOff_rejected unit sound failed
    dsimp only
    exact (hcalls.times _ _).trans (by simp [Event.marks, hne rfl])
  | pass reached =>
    have hready := hm.ready reached
    obtain ⟨events, hwrites, hcalls⟩ := hready.writes reached
    have hcount := hwrites.count hready .parsed id
    simp only [Stage.point, Nat.reduceEqDiff, false_and, if_false, Nat.le_zero] at hcount
    rw [hcalls.times, hcount, Nat.add_zero]

theorem Move.noted_text (hmove : Move m n) (hm : m.Sound) (hhand : m.hand = .text id)
    (clean : m.session.Faultless) (hv : n.session.cache.get? id = some v) :
    n.session.Noted id v := by
  cases hmove with
  | @misread s i ahead u unit sound =>
    dsimp only at hv ⊢
    obtain rfl := InHand.text.inj hhand
    have hfits := hm.fits i u unit
    have hnone : u.dependencies = none := hfits.proper.dependencies (by
      rw [hfits.loaded.mpr rfl]
      rfl)
    have htools : (s.misread i).tools = s.tools := (hm.falls_misread unit sound).setting.tools
    obtain ⟨message, hget⟩ := get?_misread hm unit sound (clean i u unit (hm.isSettled_text unit))
    obtain rfl := Option.some.inj (hget.symm.trans hv)
    refine ⟨fun hsome => ?_, fun _ => .inr ⟨?_, rfl, message, rfl⟩⟩
    · simp [hnone] at hsome
    · simpa only [isSound, htools] using sound
  | @read s i ahead u unit sound =>
    dsimp only at hv ⊢
    obtain rfl := InHand.text.inj hhand
    obtain ⟨imports, reads⟩ := hm.reads unit sound
    obtain rfl := Option.some.inj (reads.unit.symm.trans hv)
    refine ⟨fun _ => ?_, fun hnone => by cases hnone⟩
    rw [reads.history]
    exact List.mem_append_right _ List.mem_cons_self
  | @reject s i failed ahead u unit sound =>
    dsimp only at hv ⊢
    obtain rfl := InHand.text.inj hhand
    obtain ⟨imports, reads⟩ := hm.reads unit sound
    have hfalls : Falls (s.understood i) (s.rejected i failed) := hm.falls_rejected unit sound
    obtain ⟨w, hw, hwv⟩ := hfalls.unit i _ reads.unit
    obtain rfl := Option.some.inj (hw.symm.trans hv)
    refine ⟨fun _ => ?_, fun hnone => by cases hwv.dependencies.symm.trans hnone⟩
    rw [(hm.callsOff_rejected unit sound failed).history, hwv.address, hwv.kind]
    exact List.mem_append_right _ List.mem_cons_self
  | _ => cases hhand

theorem Move.noted (hmove : Move m n) (hm : m.Sound) (tallies : ∀ id, m.Tallies id)
    (clean : m.session.Faultless)
    (h : ∀ id u, m.session.cache.get? id = some u → m.session.Noted id u)
    (hv : n.session.cache.get? id = some v) : n.session.Noted id v := by
  by_cases hhand : m.hand = .text id
  · exact hmove.noted_text hm hhand clean hv
  have hdevelops := hmove.develops hm
  have htimes := hmove.times_parsed hm hhand
  cases hu : m.session.cache.get? id with
  | some u =>
    have hunread : u.state ≠ .loaded := fun loaded => hhand ((hm.fits id u hu).loaded.mp loaded)
    obtain ⟨w, hw, hbecomes⟩ := hdevelops.unit id u hu
    obtain rfl := Option.some.inj (hv.symm.trans hw)
    obtain ⟨events, history, -⟩ := hdevelops.history
    exact (h id u hu).keep hbecomes ((hmove.turns hm).dependencies_eq hu hv hunread)
      ⟨events, history⟩ hdevelops.setting.tools htimes
  | none =>
    -- A unit that is found now has not been through any stage.
    have hfresh : m.session.times .parsed id = 0 :=
      (tallies id).ahead .parsed (by rw [Moment.progress_of_absent hu]; decide)
    have hnone := (hmove.turns hm).dependencies_of_new hu hv
    exact ⟨by simp [hnone], fun _ => .inl (htimes.trans hfresh)⟩

end Moves

/-- What the history has of the parsing of each unit, which takes how often it was parsed and
that no open unit has an error. -/
structure Moment.Records (m : Moment Tree Value Listener) : Prop where
  tallies : ∀ id, m.Tallies id
  faultless : m.session.Faultless
  noted : ∀ id u, m.session.cache.get? id = some u → m.session.Noted id u

theorem throughout_records :
    Throughout fun m : Moment Tree Value (UnitLoader.Listener Value) => m.Records where
  apart := by
    intro s t hs happart
    refine ⟨throughout_tallies.apart s t hs.tallies happart,
      throughout_faultless.apart s t hs.faultless happart, ?_⟩
    rw [happart]
    exact fun id u hu => (hs.noted id u hu).keep (.refl u) rfl ⟨[], (List.append_nil _).symm⟩ rfl rfl
  listens := by
    intro s id u listener unit unsettled hs
    refine ⟨throughout_tallies.listens s id u listener unit unsettled hs.tallies,
      throughout_faultless.listens s id u listener unit unsettled hs.faultless, fun j v hv => ?_⟩
    simp only [cache_listening, Cache.get?_modify] at hv
    split at hv
    · next hj =>
      subst hj
      rw [unit] at hv
      obtain rfl := Option.some.inj hv
      exact (hs.noted id u unit).keep ⟨rfl, rfl, rfl, by simp [unsettled]⟩ rfl
        ⟨[], (List.append_nil _).symm⟩ rfl rfl
    · exact (hs.noted j v hv).keep (.refl v) rfl ⟨[], (List.append_nil _).symm⟩ rfl rfl
  enters := by
    intro s registered m rest hs enters
    refine ⟨throughout_tallies.enters s registered m rest hs.tallies enters,
      throughout_faultless.enters s registered m rest hs.faultless enters, fun id v hv => ?_⟩
    have hprepares := enters.prepares
    have htimes : m.session.times .parsed id = s.times .parsed id := by
      rw [times, times, hprepares.history]
    cases hu : s.cache.get? id with
    | some u =>
      obtain ⟨listeners, hget, -⟩ := enters.old hu
      obtain rfl := Option.some.inj (hget.symm.trans hv)
      refine (hs.noted id u hu).keep ⟨rfl, rfl, rfl, fun hset => ?_⟩ rfl
        ⟨[], hprepares.history.trans (List.append_nil _).symm⟩ enters.sameSetting.tools htimes
      exact Option.some.inj (hget.symm.trans (hprepares.settled id u hu hset))
    | none =>
      have hnone := (enters.new hv hu).1
      have hfresh : s.times .parsed id = 0 :=
        (hs.tallies id).ahead .parsed (by rw [Moment.progress_of_absent hu]; decide)
      exact ⟨by simp [hnone], fun _ => .inl (htimes.trans hfresh)⟩
  moves := fun m n hm hs hmove =>
    ⟨throughout_tallies.moves m n hm hs.tallies hmove,
      throughout_faultless.moves m n hm hs.faultless hmove,
      fun _ _ hv => hmove.noted hm hs.tallies hs.faultless hs.noted hv⟩

namespace Host

variable {ledger : List Registration} {h : Host Tree Value} {loader : Nat}
  {s : Session Tree Value (UnitLoader.Listener Value)} {id : UnitId}
  {u : SourceUnit Tree Value (UnitLoader.Listener Value)}

theorem records_opened (setup : Setup Tree Value) (ns : Namespace Value) :
    Moment.Records ⟨opened setup ns, [], .nothing⟩ := by
  refine ⟨fun id => ⟨fun _ => Nat.zero_le _, fun _ _ => rfl, fun u hu => ?_, fun u hu => ?_⟩,
    fun id u hu => ?_, fun id u hu => ?_⟩
  all_goals cases (get?_opened setup ns id).symm.trans hu

theorem Run.records (run : Run ledger h) (hs : h.session? loader = some s) :
    Moment.Records ⟨s, [], .nothing⟩ :=
  throughout_records.run records_opened run hs

theorem Run.learned (run : Run ledger h) (hs : h.session? loader = some s)
    (hu : s.cache.get? id = some u) : s.Learned u :=
  lasting_learned.run (fun setup ns id u hu => by
    cases (get?_opened setup ns id).symm.trans hu) run hs id u hu

theorem Run.fixes (run : Run ledger h) (hs : h.session? loader = some s)
    (hu : s.cache.get? id = some u) : s.Fixes id u := by
  have hnoted := (run.records hs).noted id u hu
  have hlearned := run.learned hs hu
  refine ⟨⟨fun hsome => ⟨hnoted.read hsome, hlearned.read hsome⟩, fun well => ?_⟩,
    hnoted.unread, hlearned.nodup, hlearned.modules⟩
  obtain ⟨text, -, htree⟩ := well.read
  cases hids : u.dependencies with
  | none => cases htree.symm.trans (hlearned.unread hids)
  | some ids => rfl

end Host

end UnitLoader
