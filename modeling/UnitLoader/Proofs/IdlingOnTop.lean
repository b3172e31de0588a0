import UnitLoader.Proofs.LoadingOnTop

/-! Requests and answers on top of earlier units: a request of something in the closure, the
answers that arrive for it, and waiting for them. -/

namespace UnitLoader

variable {Tree Value Listener : Type}

namespace Session

variable {r o s t : Session Tree Value Listener} {entry : String} {kind : Kind}
  {cs : List Completion}

/-! ### The closure -/

/-- What waits may be taken over, dropped, or answered from what is parked. -/
theorem Faithful.supplied {sources : Sources} {ds : List Completion} (h : Faithful sources cs s)
    (cache : t.cache = s.cache) (answer : t.fetcher.answer = s.fetcher.answer)
    (queued : ∀ c ∈ ds ++ t.channel, c ∈ cs ++ s.channel ∨
      ∃ p ∈ s.fetcher.parked, Fetcher.completionOf (s.fetcher.answer p.address) p = some c)
    (parked : ∀ p ∈ t.fetcher.parked, p ∈ s.fetcher.parked) : Faithful sources ds t where
  answer := answer.trans h.answer
  queued := by
    intro c hc
    rw [cache]
    rcases queued c hc with hc | ⟨p, hp, hanswer⟩
    · exact h.queued c hc
    · obtain ⟨u, hu, ha⟩ := h.parked p hp
      simp only [Fetcher.completionOf, Option.ite_none_left_eq_some, Option.some.injEq] at hanswer
      obtain ⟨-, rfl⟩ := hanswer
      exact ⟨u, hu, by rw [← h.answer, ← ha]⟩
  parked := by
    intro p hp
    rw [cache]
    exact h.parked p (parked p hp)

theorem Confined.of_same (h : r.Confined entry kind s) (cache : t.cache = s.cache)
    (tools : t.tools = s.tools) (baseAddress : t.baseAddress = s.baseAddress)
    (translate : t.translate = s.translate) (project : t.project = s.project) :
    r.Confined entry kind t where
  tools := tools.trans h.tools
  baseAddress := baseAddress.trans h.baseAddress
  translate := translate.trans h.translate
  resolver := project ▸ h.resolver
  units := cache ▸ h.units

end Session

open Session

theorem Moment.confined_of_nothing {r s : Session Tree Value Listener} {entry : String}
    {kind : Kind} {cs : List Completion} {ahead : List UnitId} (session : r.Confined entry kind s)
    (faithful : s.Faithful r.fetcher.answer cs) :
    Moment.Confined r entry kind cs ⟨s, ahead, .nothing⟩ :=
  ⟨session, ⟨fun _ _ _ he => InHand.noConfusion he, fun _ _ he => InHand.noConfusion he⟩, faithful⟩

namespace Session

variable {r o s t : Session Tree Value Listener} {entry : String} {kind : Kind}
  {cs : List Completion}

/-- A session between two steps that has not left the closure, and the same on top of earlier
units. -/
structure Alongside (r o : Session Tree Value Listener) (entry : String) (kind : Kind)
    (cs : List Completion) (s t : Session Tree Value Listener) : Prop where
  rest : s.AtRest
  confined : r.Confined entry kind s
  faithful : s.Faithful r.fetcher.answer cs
  onTop : OnTop (r.Imported entry kind) o s t

/-! ### Requests -/

theorem keeps_find (s : Session Tree Value Listener) (address : String) (k : Kind) :
    s.cache.Keeps (s.find address k).session.cache :=
  fun _ u hu => ⟨u, get?_find hu address k, rfl, rfl, rfl⟩

theorem Confined.find (h : r.Confined entry kind s) {address : String} {k : Kind}
    (closure : r.ImportClosure entry kind (s.resolveAddress address) k) :
    r.Confined entry kind (s.find address k).session := by
  refine ⟨h.tools, h.baseAddress, h.translate, h.resolver, fun id v hv => ?_⟩
  rcases get?_find_back hv with hv | rfl
  · exact h.units id v hv
  · exact ⟨rfl, closure, fun _ ht => by cases ht⟩

theorem Faithful.find {sources : Sources} (h : Faithful sources cs s) (address : String)
    (k : Kind) : Faithful sources cs (s.find address k).session :=
  h.keeps (s.keeps_find address k) rfl rfl fun p hp => ⟨p, hp, rfl, rfl⟩

theorem OnTop.find {A : String → Prop} (spent : o.cache.Spent A) (h : OnTop A o s t)
    {address : String} (leads : A (s.resolveAddress address)) (k : Kind) :
    (t.find address k).id = (s.find address k).id.after o.cache.size ∧
      OnTop A o (s.find address k).session (t.find address k).session := by
  have hresolve : t.resolveAddress address = s.resolveAddress address := by
    rw [resolveAddress, h.baseAddress, h.build.project.resolve, resolveAddress]
  obtain ⟨hid, hcache⟩ := h.build.cache.getOrInsert (spent.lacks _ leads) k
  simp only [Session.find, hresolve]
  exact ⟨hid, h.withBuild ⟨hcache, h.build.reporter, h.build.project⟩⟩

theorem OnTop.depth {A : String → Prop} (h : OnTop A o s t) : t.depth = s.depth := by
  rw [Session.depth, h.fetcher.reach, Session.depth]

theorem Alongside.load (spent : o.cache.Spent (r.Imported entry kind)) (insular : r.tools.Insular)
    (h : Alongside r o entry kind cs s t) {address : String} {k : Kind}
    (closure : r.ImportClosure entry kind (s.resolveAddress address) k) :
    Alongside r o entry kind cs (s.load address k).session (t.load address k).session := by
  obtain ⟨hid, hfound⟩ := h.onTop.find spent ⟨k, closure⟩ k
  have hsound := h.rest.sound_find address k
  have hconfined : Moment.Confined r entry kind cs
      ⟨(s.find address k).session, [(s.find address k).id], .nothing⟩ :=
    Moment.confined_of_nothing (h.confined.find closure) (h.faithful.find address k)
  obtain ⟨hworks, -⟩ := works_loadUnit s.depth hsound
  have hlast := hworks.confined hsound insular.resolver hconfined
  refine ⟨h.rest.advance (.load s address k), hlast.session, hlast.faithful, ?_⟩
  simp only [Session.load, hid, h.onTop.depth]
  exact loadsOnTop_loadUnit spent insular s.depth _ _ _ [] hsound hconfined hfound

theorem Alongside.withSync (h : Alongside r o entry kind cs s t) (sync : Bool) :
    Alongside r o entry kind cs { s with sync := sync } { t with sync := sync } where
  rest := h.rest.withSync sync
  confined := h.confined.of_same rfl rfl rfl rfl rfl
  faithful := h.faithful.supplied rfl rfl (fun _ hc => .inl hc) fun _ hp => hp
  onTop := { h.onTop with sync := rfl }

theorem Alongside.loadSync (spent : o.cache.Spent (r.Imported entry kind))
    (insular : r.tools.Insular) (h : Alongside r o entry kind cs s t) {address : String} {k : Kind}
    (closure : r.ImportClosure entry kind (s.resolveAddress address) k) :
    Alongside r o entry kind cs (s.loadSync address k).session (t.loadSync address k).session := by
  have hloaded := ((h.withSync true).load spent insular closure).withSync s.sync
  have hform (s : Session Tree Value Listener) : (s.loadSync address k).session =
      { (Session.load { s with sync := true } address k).session with sync := s.sync } := rfl
  rw [hform, hform, h.onTop.sync]
  exact hloaded

/-! ### Answers -/

theorem confined_received (keeps : r.tools.KeepsResolver) (rest : s.AtRest)
    {c : Completion} (hp : c.unit ∈ s.pending) (confined : r.Confined entry kind s)
    (faithful : s.Faithful r.fetcher.answer (c :: cs)) :
    Moment.Confined r entry kind cs ⟨s.received c, [], .answer c.unit c.result⟩ := by
  obtain ⟨-, hl⟩ := rest.complete_of_pending hp
  have hreceive : Move ⟨s, [], .nothing⟩ ⟨s.received c, [], .answer c.unit c.result⟩ :=
    .receive hp hl
  have hkeeps := (hreceive.develops rest.sound).keeps
  obtain ⟨u, hu, hr⟩ := faithful.queued c (by simp)
  refine ⟨(Turns.still (still_received s c)).confined keeps confined
      (hreceive.develops rest.sound).setting fun id u hu hs => ?_,
    ⟨fun id text v hand hv => ?_, fun _ _ he => InHand.noConfusion he⟩, ?_⟩
  · cases (rest.sound.fits id u hu).loaded.mp hs
  · obtain ⟨rfl, hr'⟩ := InHand.answer.inj hand
    obtain ⟨w, hw, ha, -⟩ := hkeeps c.unit u hu
    obtain rfl := Option.some.inj (hw.symm.trans hv)
    rw [ha, ← hr, hr']
  · have hold : Faithful r.fetcher.answer cs s :=
      faithful.supplied rfl rfl (fun d hd => .inl (by simp [List.mem_append.mp hd])) fun p hp => hp
    exact hold.keeps hkeeps rfl rfl fun p hp => ⟨p, hp, rfl, rfl⟩

theorem Alongside.complete (spent : o.cache.Spent (r.Imported entry kind))
    (insular : r.tools.Insular) {c : Completion} (h : Alongside r o entry kind (c :: cs) s t) :
    Alongside r o entry kind cs (s.complete c) (t.complete (c.after o.cache.size)) := by
  have hiff : (c.after o.cache.size).unit ∈ t.pending ↔ c.unit ∈ s.pending := by
    rw [h.onTop.pending]
    exact UnitId.mem_map_after
  by_cases hp : c.unit ∈ s.pending
  · obtain ⟨heq, hl⟩ := h.rest.complete_of_pending hp
    have hl' := (h.onTop.build.cache.isIn_after .loading c.unit).trans hl
    have hsound : Moment.Sound ⟨s.received c, [], .answer c.unit c.result⟩ :=
      (Move.receive hp hl).sound h.rest.sound
    have hconfined := confined_received insular.resolver h.rest hp h.confined h.faithful
    have hreceived := h.onTop.received c
    have hworks := works_handleFetched (loadsByWorks_loadUnit (s.received c).depth) hsound
    have hlast := hworks.1.confined hsound insular.resolver hconfined
    have heq' := complete_of_loading (hiff.mpr hp) hl'
    refine ⟨h.rest.advance (.complete s c), heq ▸ hlast.session, heq ▸ hlast.faithful, ?_⟩
    rw [heq, heq', hreceived.depth]
    exact hreceived.handleFetched spent insular
      (loadsOnTop_loadUnit spent insular _) (loadsByWorks_loadUnit _) hsound hconfined
  · rw [complete_of_not_pending hp, complete_of_not_pending (mt hiff.mp hp)]
    exact ⟨h.rest, h.confined, h.faithful.supplied rfl rfl
      (fun d hd => .inl (by simp [List.mem_append.mp hd])) fun p hp => hp, h.onTop⟩

theorem OnTop.complete_old {A : String → Prop} (h : OnTop A o s t) {c : Completion}
    (old : c.unit.index < o.cache.size) : t.complete c = t := by
  refine complete_of_not_pending fun hmem => ?_
  rw [h.pending] at hmem
  obtain ⟨id, -, he⟩ := List.mem_map.mp hmem
  exact Nat.not_lt.mpr (Nat.le_add_right _ _) (he ▸ old)

theorem OnTop.foldl_complete_old {A : String → Prop} (h : OnTop A o s t) {stale : List Completion}
    (old : ∀ c ∈ stale, c.unit.index < o.cache.size) : stale.foldl Session.complete t = t := by
  induction stale with
  | nil => rfl
  | cons c stale ih =>
    rw [List.foldl_cons, h.complete_old (old c List.mem_cons_self)]
    exact ih fun c hc => old c (List.mem_cons_of_mem _ hc)

theorem Alongside.foldl_complete (spent : o.cache.Spent (r.Imported entry kind))
    (insular : r.tools.Insular) (cs : List Completion) (h : Alongside r o entry kind cs s t) :
    Alongside r o entry kind [] (cs.foldl Session.complete s)
      ((cs.map (·.after o.cache.size)).foldl Session.complete t) := by
  induction cs generalizing s t with
  | nil => exact h
  | cons c cs ih => exact ih (h.complete spent insular)

theorem Alongside.takeAnswers (spent : o.cache.Spent (r.Imported entry kind))
    (insular : r.tools.Insular) (h : Alongside r o entry kind [] s t) :
    Alongside r o entry kind [] s.takeAnswers t.takeAnswers := by
  obtain ⟨stale, hstale, hchannel⟩ := h.onTop.channel
  have hempty : Alongside r o entry kind s.channel { s with channel := [] }
      { t with channel := [] } :=
    { rest := h.rest.congr rfl rfl rfl
      confined := h.confined.of_same rfl rfl rfl rfl rfl
      faithful := h.faithful.supplied rfl rfl (fun c hc => .inl (by simpa using hc)) fun p hp => hp
      onTop := { h.onTop with channel := ⟨[], by simp, rfl⟩ } }
  rw [Session.takeAnswers, Session.takeAnswers, hchannel, List.foldl_append,
    hempty.onTop.foldl_complete_old hstale]
  exact hempty.foldl_complete spent insular _

theorem takeAnswers_of_empty (h : s.channel = []) : s.takeAnswers = s := by
  cases s
  subst h
  rfl

theorem takeRounds_succ (rounds : Nat) (s : Session Tree Value Listener) :
    takeRounds (rounds + 1) s = takeRounds rounds s.takeAnswers := by
  rw [takeRounds]
  split
  · next h =>
    have hempty : s.channel = [] := List.isEmpty_iff.mp h
    rw [takeAnswers_of_empty hempty]
    cases rounds with
    | zero => rfl
    | succ rounds => rw [takeRounds, if_pos h]
  · rfl

theorem Alongside.takeRounds (spent : o.cache.Spent (r.Imported entry kind))
    (insular : r.tools.Insular) (rounds : Nat) (h : Alongside r o entry kind [] s t) :
    Alongside r o entry kind [] (takeRounds rounds s) (takeRounds rounds t) := by
  induction rounds generalizing s t with
  | zero => exact h
  | succ rounds ih =>
    rw [takeRounds_succ, takeRounds_succ]
    exact ih (h.takeAnswers spent insular)

theorem Alongside.runUntilIdle (spent : o.cache.Spent (r.Imported entry kind))
    (insular : r.tools.Insular) (h : Alongside r o entry kind [] s t) :
    Alongside r o entry kind [] s.runUntilIdle t.runUntilIdle := by
  rw [Session.runUntilIdle, Session.runUntilIdle, h.onTop.depth]
  exact h.takeRounds spent insular s.depth

/-! ### Answers one by one -/

/-- The answers that nobody waits for come first, and are dropped. -/
theorem Alongside.drop (h : Alongside r o entry kind [] s t) :
    ∃ t', Relation.ReflTransGen (fun a b => a.receive? = some b) t t' ∧
      Alongside r o entry kind [] s t' ∧ t'.channel = s.channel.map (·.after o.cache.size) := by
  obtain ⟨stale, hstale, hchannel⟩ := h.onTop.channel
  induction stale generalizing t with
  | nil => exact ⟨t, .refl, h, hchannel⟩
  | cons c stale ih =>
    have hnext : Alongside r o entry kind [] s
        { t with channel := stale ++ s.channel.map (·.after o.cache.size) } :=
      { h with onTop := { h.onTop with
          channel := ⟨stale, fun d hd => hstale d (List.mem_cons_of_mem _ hd), rfl⟩ } }
    have hreceive := receive?_of_channel (hchannel.trans List.cons_append)
    rw [hnext.onTop.complete_old (hstale c List.mem_cons_self)] at hreceive
    obtain ⟨t', htaken, hlast⟩ :=
      ih hnext (fun d hd => hstale d (List.mem_cons_of_mem _ hd)) rfl
    exact ⟨t', .head hreceive htaken, hlast⟩

theorem Alongside.receive (spent : o.cache.Spent (r.Imported entry kind))
    (insular : r.tools.Insular) (h : Alongside r o entry kind [] s t)
    (channel : t.channel = s.channel.map (·.after o.cache.size))
    {s' : Session Tree Value Listener} (received : s.receive? = some s') :
    ∃ t', t.receive? = some t' ∧ Alongside r o entry kind [] s' t' := by
  cases hc : s.channel with
  | nil => simp [receive?, hc] at received
  | cons c others =>
    obtain rfl := Option.some.inj ((receive?_of_channel hc).symm.trans received)
    rw [hc, List.map_cons] at channel
    have htaken : Alongside r o entry kind [c] { s with channel := others }
        { t with channel := others.map (·.after o.cache.size) } :=
      { rest := h.rest.congr rfl rfl rfl
        confined := h.confined.of_same rfl rfl rfl rfl rfl
        faithful := h.faithful.supplied rfl rfl
          (fun d hd => .inl (by simpa [hc] using hd)) fun _ hp => hp
        onTop := { h.onTop with channel := ⟨[], by simp, rfl⟩ } }
    exact ⟨_, receive?_of_channel channel, htaken.complete spent insular⟩

theorem Alongside.polls (spent : o.cache.Spent (r.Imported entry kind)) (insular : r.tools.Insular)
    (h : Alongside r o entry kind [] s t) {s' : Session Tree Value Listener}
    (polls : PollsTo s s') : ∃ t', PollsTo t t' ∧ Alongside r o entry kind [] s' t' := by
  obtain ⟨taken, nothing⟩ := polls
  induction taken using Relation.ReflTransGen.head_induction_on generalizing t with
  | refl =>
    obtain ⟨t', htaken, hlast, hchannel⟩ := h.drop
    rw [channel_of_receive? nothing] at hchannel
    exact ⟨t', ⟨htaken, by simp [receive?, hchannel]⟩, hlast⟩
  | head received _ ih =>
    obtain ⟨t₁, htaken, hsame, hchannel⟩ := h.drop
    obtain ⟨t₂, hreceive, hnext⟩ := hsame.receive spent insular hchannel received
    obtain ⟨t', ⟨hfurther, hnothing⟩, hlast⟩ := ih hnext
    exact ⟨t', ⟨htaken.trans (.head hreceive hfurther), hnothing⟩, hlast⟩

theorem PollsTo.unique {t' : Session Tree Value Listener} (h : PollsTo s t) (h' : PollsTo s t') :
    t' = t := by
  obtain ⟨taken, nothing⟩ := h
  obtain ⟨taken', nothing'⟩ := h'
  induction taken using Relation.ReflTransGen.head_induction_on with
  | refl =>
    rcases taken'.cases_head with rfl | ⟨m, hm, -⟩
    · rfl
    · cases nothing.symm.trans hm
  | head received _ ih =>
    rcases taken'.cases_head with rfl | ⟨m, hm, hfurther⟩
    · cases nothing'.symm.trans received
    · obtain rfl := Option.some.inj (received.symm.trans hm)
      exact ih hfurther

/-! ### What the fetcher is told to answer -/

theorem completionOf_after (result : Except FetchError String) (n : Nat) (p : Parked) :
    Fetcher.completionOf result (p.after n) =
      (Fetcher.completionOf result p).map (·.after n) := by
  cases hc : p.cancelled <;> simp [Fetcher.completionOf, Parked.after, Completion.after, hc]

theorem OnTop.answerParked {A : String → Prop} (h : OnTop A o s t) {dead : List Parked}
    (cancelled : ∀ p ∈ dead, p.cancelled = true) (now : List Parked)
    (answer : String → Except FetchError String) :
    OnTop A o (s.answerParked now answer)
      (t.answerParked (dead ++ now.map (·.after o.cache.size)) answer) := by
  obtain ⟨stale, hstale, hchannel⟩ := h.channel
  have hdead : dead.filterMap (fun p => Fetcher.completionOf (answer p.address) p) = [] :=
    List.filterMap_eq_nil_iff.mpr fun p hp => by simp [Fetcher.completionOf, cancelled p hp]
  have hnow : (now.map (·.after o.cache.size)).filterMap
      (fun p => Fetcher.completionOf (answer p.address) p) =
      (now.filterMap fun p => Fetcher.completionOf (answer p.address) p).map
        (·.after o.cache.size) := by
    rw [List.filterMap_map, List.map_filterMap]
    exact List.filterMap_congr fun p _ => completionOf_after _ _ p
  refine { h with channel := ⟨stale, hstale, ?_⟩ }
  simp only [Session.answerParked, hchannel, List.filterMap_append, hdead, hnow, List.nil_append,
    List.map_append, List.append_assoc]

/-- The session after its fetcher has answered some of what is parked. -/
def answering (s : Session Tree Value Listener) (answered : Parked → Bool) :
    Session Tree Value Listener :=
  ({ s with fetcher := { s.fetcher with parked := s.fetcher.parked.filter (! answered ·) } } :
    Session Tree Value Listener).answerParked (s.fetcher.parked.filter answered) s.fetcher.answer

theorem release_eq (s : Session Tree Value Listener) (address : String) :
    (s.release address).2 = s.answering fun p => decide (p.address = address) := by
  simp only [Session.release, List.partition_eq_filter_filter]
  rfl

theorem releaseAll_eq (s : Session Tree Value Listener) :
    s.releaseAll.2 = s.answering fun _ => true := by
  simp [Session.releaseAll, answering]

theorem Faithful.answering {sources : Sources} (h : Faithful sources cs s)
    (answered : Parked → Bool) : Faithful sources cs (s.answering answered) := by
  refine h.supplied rfl rfl (fun c hc => ?_) fun p hp => List.mem_of_mem_filter hp
  rw [Session.answering, Session.answerParked, ← List.append_assoc] at hc
  refine (List.mem_append.mp hc).imp_right fun hc => ?_
  obtain ⟨p, hp, hanswer⟩ := List.mem_filterMap.mp hc
  exact ⟨p, List.mem_of_mem_filter hp, hanswer⟩

theorem OnTop.answering {A : String → Prop} (h : OnTop A o s t) {answered : Parked → Bool}
    (same : ∀ p, answered (p.after o.cache.size) = answered p) :
    OnTop A o (s.answering answered) (t.answering answered) := by
  obtain ⟨dead, hdead, hparked⟩ := h.fetcher.parked
  have hfilter (q : Parked → Bool) (hq : ∀ p, q (p.after o.cache.size) = q p) :
      t.fetcher.parked.filter q =
        dead.filter q ++ (s.fetcher.parked.filter q).map (·.after o.cache.size) := by
    rw [hparked, List.filter_append, List.filter_map]
    congr 3
    exact funext hq
  have hsupplied : OnTop A o
      { s with fetcher := { s.fetcher with parked := s.fetcher.parked.filter (! answered ·) } }
      { t with fetcher := { t.fetcher with parked := t.fetcher.parked.filter (! answered ·) } } :=
    { h with fetcher :=
        { h.fetcher with
          parked := ⟨dead.filter (! answered ·), fun p hp => hdead p (List.mem_of_mem_filter hp),
            hfilter _ fun p => congrArg _ (same p)⟩ } }
  rw [Session.answering, Session.answering, hfilter _ same, h.fetcher.answer]
  exact hsupplied.answerParked (fun p hp => hdead p (List.mem_of_mem_filter hp)) _ _

theorem Alongside.answering (h : Alongside r o entry kind cs s t) {answered : Parked → Bool}
    (same : ∀ p, answered (p.after o.cache.size) = answered p) :
    Alongside r o entry kind cs (s.answering answered) (t.answering answered) where
  rest := h.rest.congr rfl rfl rfl
  confined := h.confined.of_same rfl rfl rfl rfl rfl
  faithful := h.faithful.answering answered
  onTop := h.onTop.answering same

end Session

end UnitLoader
