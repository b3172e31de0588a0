import UnitLoader.Proofs.Balance
import UnitLoader.Text.Unicode

/-! What becomes of a request to the fetcher. At every time it waits, or its answer was
taken, or it was called off, and never two of these. -/

namespace UnitLoader

variable {Tree Value : Type}

/-- What can become of a session: what its owner, its listeners and those that share its
namespace do to it, and the answers of its fetcher in between. A listener is called between
two steps, so what it does is a step again; and an answer that is given while a step is
under way could as well have been given before or after it. -/
inductive Session.Course (first : Session Tree Value (Listener Value)) :
    Session Tree Value (Listener Value) → Prop
  | start : Course first first
  | step {s t : Session Tree Value (Listener Value)} {sharing : Bool} {defined : List (Deed Value)}
      (before : Course first s) (alters : Session.Alters sharing s defined t) : Course first t

/-- What has become of a request. -/
inductive Fate
  | waiting
  | consumed
  | calledOff

namespace Session

/-- Whether it is so with the request of a unit. While it waits, it is parked or its answer
is in the channel. Once it was called off, there is no answer to be had from the fetcher, and
none that could still arrive does anything. -/
def Meets {Listener : Type} (s : Session Tree Value Listener) (id : UnitId) : Fate → Prop
  | .waiting =>
    id ∈ s.pending ∧ s.cache.isIn .loading id = true ∧ s.answered id = 0 ∧ s.calledOff id = 0 ∧
      s.fetcher.held id + s.queued id = 1
  | .consumed =>
    id ∉ s.pending ∧ s.answered id = 1 ∧ s.calledOff id = 0 ∧
      s.fetcher.held id + s.queued id = 0
  | .calledOff =>
    id ∉ s.pending ∧ s.answered id = 0 ∧ s.calledOff id = 1 ∧
      (∀ p ∈ s.fetcher.parked, p.unit = id → ∀ result, Fetcher.completionOf result p = none) ∧
      ∀ channel c, c.unit = id →
        ({ s with channel := channel } : Session Tree Value Listener).complete c =
          { s with channel := channel }

section Steps

variable {Listener : Type} {s t : Session Tree Value Listener}

theorem unasked_of_history (history : t.history = s.history) (pending : t.pending = s.pending)
    (channel : t.channel = s.channel)
    (fetcher : t.fetcher = { s.fetcher with log := t.fetcher.log }) : Unasked s t [] :=
  ⟨history.trans (List.append_nil _).symm, by simp, pending, channel, fetcher⟩

end Steps

variable {s t : Session Tree Value (Listener Value)} {id : UnitId}

/-- What is done for its owner is a run of a session's own moves, or an answer is taken. -/
theorem AtRest.works (h : s.AtRest) (act : Act s t) :
    (∃ m last, Unasked s m.session [] ∧ m.Sound ∧ Works m ⟨last, [], .nothing⟩ ∧
      Unasked last t []) ∨
    ∃ c others, s.channel = c :: others ∧
      t = ({ s with channel := others } : Session Tree Value (Listener Value)).complete c := by
  have hnone (t : Session Tree Value (Listener Value)) : Unasked t t [] :=
    unasked_of_history rfl rfl rfl rfl
  cases act with
  | load address kind =>
    have hm := h.sound_find address kind
    exact .inl ⟨_, _, unasked_of_history rfl rfl rfl rfl, hm, (works_loadUnit s.depth hm).1, hnone _⟩
  | loadWith address kind listener =>
    have hm := h.sound_find address kind
    simp only [loadWith]
    rcases (s.find address kind).session.addListener_cases (s.find address kind).id listener with
      ⟨e, he, hset⟩ | ⟨u, hu, hs, hok⟩
    · simp only [he]
      have hold : (s.find address kind).session.cache.isIn .notStarted (s.find address kind).id =
          false := Cache.isIn_eq_false_of_settled rfl hset
      exact .inl ⟨_, _, unasked_of_history rfl rfl rfl rfl, hm,
        .single (.of_empty (.skip hold) rfl), hnone _⟩
    · simp only [hok]
      have hm' := sound_listening hm hu hs listener
      exact .inl ⟨_, _, unasked_of_history rfl rfl rfl rfl, hm', (works_loadUnit s.depth hm').1,
        hnone _⟩
  | loadSync address kind =>
    have hm := (h.withSync true).sound_find address kind
    exact .inl ⟨_, _, unasked_of_history rfl rfl rfl rfl, hm, (works_loadUnit s.depth hm).1,
      unasked_of_history rfl rfl rfl rfl⟩
  | eval code listener =>
    have hm := h.sound_evaluating code listener
    exact .inl ⟨_, _, unasked_of_history rfl rfl rfl rfl, hm,
      (works_handleLoaded (loadsByWorks_loadUnit (s.evaluating code listener).depth) hm).1, hnone _⟩
  | receive answer =>
    simp only [receive?] at answer
    cases hc : s.channel with
    | nil => simp [hc] at answer
    | cons c others => exact .inr ⟨c, others, rfl, by simpa [hc, eq_comm] using answer⟩

/-- An answer counts when it is the oldest in the channel and its unit waits for it. -/
def Consumes (s t : Session Tree Value (Listener Value)) (id : UnitId) : Prop :=
  ∃ c others, s.channel = c :: others ∧ c.unit = id ∧ id ∈ s.pending ∧
    t = ({ s with channel := others } : Session Tree Value (Listener Value)).complete c

theorem Act.balanced (act : Act s t) (h : s.AtRest) (once : s.asked id ≤ 1)
    (hb : s.Balanced id) : t.Balanced id ∧ (t.answered id = s.answered id ∨ s.Consumes t id) := by
  rcases h.works act with ⟨m, last, hstart, hm, hworks, hend⟩ | ⟨c, others, hc, rfl⟩
  · obtain ⟨hlast, hanswered⟩ := hworks.balanced hm (hstart.balanced hb)
    exact ⟨hend.balanced hlast,
      .inl ((hend.answered id).trans (hanswered.trans (hstart.answered id)))⟩
  · have hrest : AtRest ({ s with channel := others } : Session Tree Value (Listener Value)) :=
      h.congr rfl rfl rfl
    by_cases hp : c.unit ∈ s.pending
    · obtain ⟨heq, hl⟩ := hrest.complete_of_pending (c := c) hp
      have hreceive : Move ⟨{ s with channel := others }, [], .nothing⟩
          ⟨({ s with channel := others } : Session Tree Value (Listener Value)).received c, [],
            .answer c.unit c.result⟩ := .receive hp hl
      have hreceived := hb.received hc hp once
      obtain ⟨hworks, -⟩ := works_handleFetched
        (loadsByWorks_loadUnit
          (({ s with channel := others } : Session Tree Value (Listener Value)).received c).depth)
        (hreceive.sound hrest.sound)
      obtain ⟨hbalanced, hanswered⟩ := hworks.balanced (hreceive.sound hrest.sound) hreceived
      rw [heq]
      refine ⟨hbalanced, ?_⟩
      by_cases he : c.unit = id
      · exact .inr ⟨c, others, hc, he, he ▸ hp, heq.symm⟩
      · refine .inl (hanswered.trans ?_)
        rw [answered_received, if_neg he]
        rfl
    · rw [complete_of_not_pending (s := { s with channel := others }) hp]
      exact ⟨hb.discard hc hp, .inl rfl⟩

theorem Alters.atRest {sharing : Bool} {defined : List (Deed Value)}
    (alters : Session.Alters sharing s defined t) (h : s.AtRest) : t.AtRest := by
  cases alters with
  | act step => exact h.advance step.advance
  | listen unit unsettled listener => exact (h.serves_listening unit unsettled listener).rest
  | define free name value => exact h.congr rfl rfl rfl
  | beside change =>
    have same := change.same
    rcases change.told with he | he
    · exact h.congr (by rw [same]) (by rw [same]) he
    · have hempty : AtRest { s with outbox := [] } := Host.atRest_emptied h
      exact hempty.congr (by rw [same]) (by rw [same]) he
  | shared shares ns held => exact h.congr rfl rfl rfl

theorem Alters.balanced {sharing : Bool} {defined : List (Deed Value)}
    (alters : Session.Alters sharing s defined t) (h : s.AtRest) (once : s.asked id ≤ 1)
    (hb : s.Balanced id) : t.Balanced id ∧ (t.answered id = s.answered id ∨ s.Consumes t id) := by
  have hunasked {t : Session Tree Value (Listener Value)} (ht : Unasked s t []) :
      t.Balanced id ∧ (t.answered id = s.answered id ∨ s.Consumes t id) :=
    ⟨ht.balanced hb, .inl (ht.answered id)⟩
  cases alters with
  | act step => exact step.balanced h once hb
  | listen unit unsettled listener => exact hunasked (unasked_of_history rfl rfl rfl rfl)
  | define free name value => exact hunasked (unasked_of_history rfl rfl rfl rfl)
  | beside change =>
    have hhistory : t.history = s.history := congrArg (·.history) change.same
    exact ⟨hb.beside change, .inl (by rw [answered, answered, hhistory])⟩
  | shared shares ns held => exact hunasked (unasked_of_history rfl rfl rfl rfl)

/-! ### Courses -/

/-- What is known of a session all along its course. -/
structure Accounted (s : Session Tree Value (Listener Value)) : Prop where
  rest : s.AtRest
  tallies : ∀ id, Moment.Tallies ⟨s, [], .nothing⟩ id
  balanced : ∀ id, s.Balanced id

theorem Accounted.once (h : s.Accounted) (id : UnitId) : s.asked id ≤ 1 :=
  (s.asked_le_times id).trans ((h.tallies id).once .asked)

theorem accounted_fresh (tools : Toolchain Tree Value) (baseAddress : String) (sync : Bool)
    (resolver : Resolver) (translate : String → String) {fetcher : Fetcher}
    (empty : fetcher.parked = []) (ns : Namespace Value) :
    Accounted (fresh tools baseAddress sync resolver translate fetcher ns) where
  rest := atRest_fresh ..
  tallies := fun id =>
    { once := fun _ => Nat.zero_le _
      ahead := fun _ _ => rfl
      behind := fun u hu => by simp [fresh, Build.empty, Cache.empty, Cache.get?] at hu
      given := fun u hu => by simp [fresh, Build.empty, Cache.empty, Cache.get?] at hu }
  balanced := fun id => by
    have hheld : (fresh tools baseAddress sync resolver translate fetcher ns :
        Session Tree Value (Listener Value)).fetcher.held id = 0 := by
      simp [fresh, Fetcher.held, empty]
    exact ⟨rfl, hheld.le, Nat.zero_le _, by rw [hheld]; exact Nat.zero_le _⟩

theorem Accounted.alters (h : s.Accounted) {sharing : Bool} {defined : List (Deed Value)}
    (alters : Session.Alters sharing s defined t) : t.Accounted where
  rest := alters.atRest h.rest
  tallies := throughout_tallies.alters h.rest h.tallies alters
  balanced := fun id => (alters.balanced h.rest (h.once id) (h.balanced id)).1

theorem Course.accounted {first : Session Tree Value (Listener Value)} (course : Course first s)
    (h : first.Accounted) : s.Accounted := by
  induction course with
  | start => exact h
  | step _ alters ih => exact ih.alters alters

/-- Whoever waits is being loaded, and there is one answer to come. -/
theorem Accounted.waiting (h : s.Accounted) (hid : id ∈ s.pending) : s.Meets id .waiting := by
  obtain ⟨u, hu⟩ := Cache.get?_of_index_lt (h.rest.sound.known id hid)
  have hloading := ((h.rest.sound.fits id u hu).pending.mp hid).1
  have hcount : s.pending.count id = 1 := List.count_eq_one_of_mem h.rest.sound.nodup hid
  have honce := h.once id
  obtain ⟨hasked, -, hwaits, hanswers⟩ := h.balanced id
  exact ⟨hid, Cache.isIn_iff.mpr ⟨u, hu, hloading⟩, by omega, by omega, by omega⟩

theorem Accounted.calledOff (h : s.Accounted) (hid : id ∉ s.pending) (hc : s.calledOff id = 1) :
    s.Meets id .calledOff := by
  have hcount : s.pending.count id = 0 := List.count_eq_zero_of_not_mem hid
  have honce := h.once id
  obtain ⟨hasked, hheld, -, -⟩ := h.balanced id
  refine ⟨hid, by omega, hc, fun p hp hunit result => ?_, fun channel c hunit => ?_⟩
  · have hnone : s.fetcher.held id = 0 := by omega
    have hp' := List.countP_eq_zero.mp hnone p hp
    have hcancelled : p.cancelled = true := by simpa [hunit] using hp'
    simp [Fetcher.completionOf, hcancelled]
  · exact complete_of_not_pending (s := { s with channel := channel }) (by rwa [hunit])

theorem Accounted.consumed (h : s.Accounted) (hid : id ∉ s.pending) (ha : s.answered id = 1) :
    s.Meets id .consumed := by
  have hcount : s.pending.count id = 0 := List.count_eq_zero_of_not_mem hid
  have honce := h.once id
  obtain ⟨hasked, -, -, hanswers⟩ := h.balanced id
  exact ⟨hid, ha, by omega, by omega⟩

theorem Accounted.exists_fate (h : s.Accounted) (requested : 0 < s.asked id) :
    ∃! fate, s.Meets id fate := by
  by_cases hid : id ∈ s.pending
  · refine ⟨.waiting, h.waiting hid, fun fate hfate => ?_⟩
    cases fate with
    | waiting => rfl
    | consumed => exact absurd hid hfate.1
    | calledOff => exact absurd hid hfate.1
  · have hcount : s.pending.count id = 0 := List.count_eq_zero_of_not_mem hid
    have honce := h.once id
    have hasked := (h.balanced id).asked
    by_cases ha : s.answered id = 1
    · refine ⟨.consumed, h.consumed hid ha, fun fate hfate => ?_⟩
      cases fate with
      | waiting => exact absurd hfate.1 hid
      | consumed => rfl
      | calledOff => cases ha.symm.trans hfate.2.1
    · refine ⟨.calledOff, h.calledOff hid (by omega), fun fate hfate => ?_⟩
      cases fate with
      | waiting => exact absurd hfate.1 hid
      | consumed => exact absurd hfate.2.1 ha
      | calledOff => rfl

/-- What is over with a request stays as it is. -/
theorem Accounted.keeps_fate (h : s.Accounted) {sharing : Bool} {defined : List (Deed Value)}
    (alters : Session.Alters sharing s defined t) {fate : Fate} (ended : fate ≠ .waiting)
    (hs : s.Meets id fate) : t.Meets id fate := by
  have ht := h.alters alters
  obtain ⟨events, hhistory⟩ := alters.history h.rest
  have hanswered : s.answered id ≤ t.answered id := by
    rw [answered, answered, hhistory, List.countP_append]
    omega
  have hcalled : s.calledOff id ≤ t.calledOff id := by
    rw [Session.calledOff, Session.calledOff, hhistory, List.countP_append]
    omega
  have honce := ht.once id
  have hasked := (ht.balanced id).asked
  have hpending (hone : 1 ≤ t.answered id + t.calledOff id) : id ∉ t.pending := fun hp => by
    have := List.one_le_count_iff.mpr hp
    omega
  cases fate with
  | waiting => exact absurd rfl ended
  | consumed =>
    have := hs.2.1
    exact ht.consumed (hpending (by omega)) (by omega)
  | calledOff =>
    have := hs.2.2.1
    exact ht.calledOff (hpending (by omega)) (by omega)

/-- Waiting for answers is not in vain: if none has arrived, the fetcher has one to give. -/
theorem Accounted.exists_held (h : s.Accounted) (nothing : s.receive? = none)
    (busy : s.isIdle = false) :
    ∃ p ∈ s.fetcher.parked, p.cancelled = false ∧ s.Meets p.unit .waiting := by
  have hchannel : s.channel = [] := by
    cases hc : s.channel with
    | nil => rfl
    | cons c others => simp [receive?, hc] at nothing
  obtain ⟨id, hid⟩ : ∃ id, id ∈ s.pending :=
    List.exists_mem_of_ne_nil _ fun he => by simp [isIdle, he] at busy
  have hwaiting := h.waiting hid
  have hqueued : s.queued id = 0 := by simp [queued, hchannel]
  have hheld : 0 < s.fetcher.held id := by
    have := hwaiting.2.2.2.2
    omega
  obtain ⟨p, hp, hunit⟩ := List.countP_pos_iff.mp hheld
  simp only [Bool.and_eq_true, decide_eq_true_eq, Bool.not_eq_true'] at hunit
  exact ⟨p, hp, hunit.2, hunit.1 ▸ hwaiting⟩

end Session

/-- The course of a loader in a host. -/
theorem Host.Run.course {ledger : List Registration} {h : Host Tree Value} (run : Run ledger h)
    {loader : Nat} {s : Session Tree Value (Listener Value)} (hs : h.session? loader = some s) :
    ∃ (setup : Setup Tree Value) (ns : Namespace Value), Session.Course (opened setup ns) s := by
  obtain ⟨deeds, c⟩ := run.chronicle loader
  obtain ⟨seat, hseat, rfl⟩ := seat_of_session? hs
  refine (c.induct (P := fun _ _ s => ∃ (setup : Setup Tree Value) (ns : Namespace Value),
    Session.Course (opened setup ns) s) (fun setup _ ns _ => ⟨setup, _, .start⟩) ?_).2 seat hseat
  rintro sharing deeds s defined t new - ⟨setup, ns, hcourse⟩ halters -
  exact ⟨setup, ns, hcourse.step halters⟩

namespace Session

variable {tools : Toolchain Tree Value} {baseAddress : String} {sync : Bool} {resolver : Resolver}
  {translate : String → String} {fetcher : Fetcher} {ns : Namespace Value}
  {s : Session Tree Value (Listener Value)}

/-- On every course of a session, a unit is asked for once, and it waits for its answer, or
the answer was taken, or the request was called off. What is over stays so, and an answer is
only taken of a unit that waits, from the head of the channel. Where nothing has arrived for
those that wait, the fetcher has a request that was not called off. -/
theorem Course.fates
    (course : Course (fresh tools baseAddress sync resolver translate fetcher ns) s)
    (empty : fetcher.parked = []) :
    (∀ id address, .requested id address ∈ s.history → s.asked id = 1 ∧
      ∃! fate, s.Meets id fate) ∧
    (∀ sharing defined t, Session.Alters sharing s defined t → ∀ id,
      (∀ fate, fate ≠ .waiting → s.Meets id fate → t.Meets id fate) ∧
      (t.answered id ≠ s.answered id → s.Meets id .waiting ∧ t.Meets id .consumed ∧
        ∃ c others, s.channel = c :: others ∧ c.unit = id ∧
          t = ({ s with channel := others } : Session Tree Value (Listener Value)).complete c)) ∧
    (s.receive? = none → s.isIdle = false →
      ∃ p ∈ s.fetcher.parked, p.cancelled = false ∧ s.Meets p.unit .waiting) := by
  have hs := course.accounted (accounted_fresh tools baseAddress sync resolver translate empty ns)
  refine ⟨fun id address hmem => ?_, fun sharing defined t halters id => ⟨?_, fun hne => ?_⟩,
    hs.exists_held⟩
  · have hpos : 0 < s.asked id := List.countP_pos_iff.mpr ⟨_, hmem, by simp [Event.asksFor]⟩
    have honce := hs.once id
    exact ⟨by omega, hs.exists_fate hpos⟩
  · exact fun fate ended => hs.keeps_fate halters ended
  · obtain ⟨-, hsame | ⟨c, others, hc, hunit, hid, ht⟩⟩ :=
      halters.balanced hs.rest (hs.once id) (hs.balanced id)
    · exact absurd hsame hne
    · have hwaiting := hs.waiting hid
      have hlater := hs.alters halters
      have honce := hlater.once id
      have hasked := (hlater.balanced id).asked
      have hnone : s.answered id = 0 := hwaiting.2.2.1
      have hpending : id ∉ t.pending := fun hp => by
        have := (hlater.waiting hp).2.2.1
        omega
      exact ⟨hwaiting, hlater.consumed hpending (by omega), c, others, hc, hunit, ht⟩

variable {first : Session Tree Value (Listener Value)}

theorem Course.act (course : Course first s) {t : Session Tree Value (Listener Value)}
    (act : Act s t) : Course first t :=
  course.step (show Session.Alters false s [] t from .act act)

theorem Course.respond (course : Course first s) (address : String)
    (result : Except FetchError String) : Course first (s.respond address result).2 :=
  course.step (show Session.Alters false s [] _ from .beside (Host.beside_respond s address result))

theorem Course.receive (course : Course first s) : Course first (s.receive?.getD s) := by
  cases hr : s.receive? with
  | none => exact course
  | some t => exact course.act (.receive s hr)

/-- Three requests. One is refused, and when that comes to light the answer to another has
arrived already, and the third is still parked. -/
def torn (first : Session Program UnitLoader.Value (Listener UnitLoader.Value)) :
    Session Program UnitLoader.Value (Listener UnitLoader.Value) :=
  let one := (first.load "/a" .module).session
  let two := (one.load "/b" .module).session
  let three := (two.load "/c" .module).session
  let refused := (three.respond "/b" (.error (.notFound "/b"))).2
  let answered := (refused.respond "/a" (.ok "export a = 1")).2
  answered.receive?.getD answered

theorem course_torn (first : Session Program UnitLoader.Value (Listener UnitLoader.Value)) :
    Course first (torn first) := by
  have one := (Course.start : Course first first).act (.load first "/a" .module)
  have three := (one.act (.load _ "/b" .module)).act (.load _ "/c" .module)
  have refused := three.respond "/b" (.error (.notFound "/b"))
  exact (refused.respond "/a" (.ok "export a = 1")).receive

theorem Course.fates_torn :
    ∃ s : Session Program UnitLoader.Value (Listener UnitLoader.Value),
      s.Meets ⟨0⟩ .calledOff ∧ s.queued ⟨0⟩ = 1 ∧ s.Meets ⟨1⟩ .consumed ∧ s.Meets ⟨2⟩ .calledOff ∧
        s.fetcher.parked.map (·.cancelled) = [true] := by
  obtain ⟨s, hs⟩ : ∃ s, torn (fresh Lang.toolchain "/" false Address.resolve id
    (.ofList [] false) .empty) = s := ⟨_, rfl⟩
  have course : Course (fresh Lang.toolchain "/" false Address.resolve id (.ofList [] false) .empty)
      s := by
    rw [← hs]
    exact course_torn _
  obtain ⟨hfates, -, -⟩ := course.fates rfl
  have hcounts : [0, 1, 2].map (fun i => (s.asked ⟨i⟩, s.answered ⟨i⟩, s.calledOff ⟨i⟩)) =
      [(1, 0, 1), (1, 1, 0), (1, 0, 1)] := by
    rw [← hs]
    decide +kernel
  simp only [List.map_cons, List.map_nil, List.cons.injEq, Prod.mk.injEq, and_true] at hcounts
  obtain ⟨⟨h0, a0, c0⟩, ⟨h1, a1, c1⟩, h2, a2, c2⟩ := hcounts
  have hfate (i : Nat) (hi : s.asked ⟨i⟩ = 1) : ∃ fate, s.Meets ⟨i⟩ fate := by
    obtain ⟨e, he, hasks⟩ := List.countP_pos_iff.mp (hi ▸ Nat.one_pos : 0 < s.asked ⟨i⟩)
    cases e with
    | requested j address =>
      obtain rfl : j = ⟨i⟩ := by simpa [Event.asksFor] using hasks
      exact (hfates _ _ he).2.exists
    | _ => cases hasks
  have hcalled (i : Nat) (hi : s.asked ⟨i⟩ = 1) (hc : s.calledOff ⟨i⟩ = 1) :
      s.Meets ⟨i⟩ .calledOff := by
    obtain ⟨fate, hm⟩ := hfate i hi
    cases fate with
    | waiting => cases hc.symm.trans hm.2.2.2.1
    | consumed => cases hc.symm.trans hm.2.2.1
    | calledOff => exact hm
  have hconsumed : s.Meets ⟨1⟩ .consumed := by
    obtain ⟨fate, hm⟩ := hfate 1 h1
    cases fate with
    | waiting => cases a1.symm.trans hm.2.2.1
    | consumed => exact hm
    | calledOff => cases a1.symm.trans hm.2.1
  refine ⟨s, hcalled 0 h0 c0, ?_, hconsumed, hcalled 2 h2 c2, ?_⟩
  all_goals
    rw [← hs]
    decide +kernel

end Session

end UnitLoader
