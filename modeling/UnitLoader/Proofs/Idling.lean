import UnitLoader.Proofs.Arrivals
import UnitLoader.Proofs.Balance

/-! Waiting until nothing is under way. A fetcher that answers at once has an answer in the
channel for every request that waits, so a session that takes all answers has none left to
wait for; and no more rounds of answers are needed than there are texts to be had. -/

namespace UnitLoader

variable {Tree Value Listener : Type}

namespace Session

variable {sources : Sources} {s t : Session Tree Value Listener} {id : UnitId}
  {cs : List Completion} {c : Completion}

/-- A session before and after the answers that wait were taken one by one, until none
waited. -/
structure PollsTo (s t : Session Tree Value Listener) : Prop where
  taken : Relation.ReflTransGen (fun a b => a.receive? = some b) s t
  nothing : t.receive? = none

/-- How a session comes to wait for nothing: it takes answers in rounds, or one by one. -/
inductive IdlesTo (s : Session Tree Value Listener) : Session Tree Value Listener → Prop
  | rounds : IdlesTo s s.runUntilIdle
  | polls {t : Session Tree Value Listener} (polls : PollsTo s t) : IdlesTo s t

/-! ### Answers at once -/

/-- A session whose fetcher answers out of the sources at once. Some answers may be in its
hands, the others are in the channel. -/
structure Served (sources : Sources) (cs : List Completion) (t : Session Tree Value Listener) :
    Prop where
  answer : t.fetcher.answer = sources
  prompt : t.fetcher.prompt = true
  faithful : ∀ c ∈ cs ++ t.channel, ∃ u, t.cache.get? c.unit = some u ∧ c.result = sources u.address
  supplied : ∀ id ∈ t.pending, ∃ c ∈ cs ++ t.channel, c.unit = id

theorem foldl_cancel_eq (ids : List UnitId) (f : Fetcher) :
    ids.foldl Fetcher.cancel f = { f with parked := (ids.foldl Fetcher.cancel f).parked } := by
  induction ids generalizing f with
  | nil => rfl
  | cons id ids ih =>
    rw [List.foldl_cons, ih]
    rfl

theorem request_of_prompt (h : s.fetcher.prompt = true) (id : UnitId) :
    (s.request id).fetcher = s.fetcher.note (s.cache.addressOf id) ∧
      (s.request id).channel = s.channel ++
        [⟨id, s.cache.addressOf id, s.fetcher.answer (s.cache.addressOf id)⟩] := by
  have hnoted : (s.fetcher.note (s.cache.addressOf id)).prompt = true := h
  simp only [request, hnoted, if_true]
  exact ⟨trivial, rfl⟩

theorem Served.keeps (h : Served sources cs s) (keeps : s.cache.Keeps t.cache)
    (answer : t.fetcher.answer = s.fetcher.answer) (prompt : t.fetcher.prompt = s.fetcher.prompt)
    (channel : t.channel = s.channel) (pending : ∀ id ∈ t.pending, id ∈ s.pending) :
    Served sources cs t where
  answer := answer.trans h.answer
  prompt := prompt.trans h.prompt
  faithful := by
    intro c hc
    obtain ⟨u, hu, hr⟩ := h.faithful c (channel ▸ hc)
    obtain ⟨v, hv, ha, -⟩ := keeps c.unit u hu
    exact ⟨v, hv, by rw [hr, ha]⟩
  supplied := by
    intro id hid
    rw [channel]
    exact h.supplied id (pending id hid)

theorem Served.request (h : Served sources cs s) (new : s.cache.isIn .notStarted id = true)
    (keeps : s.cache.Keeps ((s.started id).request id).cache) :
    Served sources cs ((s.started id).request id) := by
  obtain ⟨u, hu, -⟩ := Cache.isIn_iff.mp new
  obtain ⟨v, hv, ha, -⟩ := keeps id u hu
  have haddress : (s.started id).cache.addressOf id = u.address := by
    obtain ⟨v, hv, ha, -⟩ := (develops_started new rfl rfl ⟨rfl, rfl, rfl, rfl, rfl⟩
      ⟨[], (List.append_nil _).symm, by simp⟩ : Develops s (s.started id)).keeps id u hu
    rw [Cache.addressOf_eq hv, ha]
  obtain ⟨hfetcher, hchannel⟩ := request_of_prompt (s := s.started id) h.prompt id
  have hanswer : (s.started id).fetcher.answer = sources := h.answer
  rw [haddress, hanswer] at hchannel
  have hlast : (⟨id, u.address, sources u.address⟩ : Completion) ∈
      cs ++ ((s.started id).request id).channel := by
    rw [hchannel]
    simp
  have hmem {c : Completion} (hc : c ∈ cs ++ s.channel) :
      c ∈ cs ++ ((s.started id).request id).channel := by
    rw [hchannel, ← List.append_assoc]
    exact List.mem_append_left _ hc
  refine ⟨?_, ?_, fun c hc => ?_, fun j hj => ?_⟩
  · rw [hfetcher]
    exact h.answer
  · rw [hfetcher]
    exact h.prompt
  · rw [hchannel, ← List.append_assoc] at hc
    rcases List.mem_append.mp hc with hc | hc
    · obtain ⟨w, hw, hr⟩ := h.faithful c hc
      obtain ⟨x, hx, hx', -⟩ := keeps c.unit w hw
      exact ⟨x, hx, by rw [hr, hx']⟩
    · obtain rfl := List.mem_singleton.mp hc
      exact ⟨v, hv, by rw [ha]⟩
  · rw [pending_request] at hj
    rcases List.mem_append.mp hj with hj | hj
    · obtain ⟨c, hc, hunit⟩ := h.supplied j hj
      exact ⟨c, hmem hc, hunit⟩
    · exact ⟨_, hlast, (List.mem_singleton.mp hj).symm⟩

/-- What the session does by itself leaves no request without its answer. -/
theorem Served.work {m n : Moment Tree Value Listener} (h : Served sources cs m.session)
    (work : Work m n) (hm : m.Sound) : Served sources cs n.session := by
  have hkeeps := (work.move.develops hm).keeps
  have heffect := work.effect hm
  generalize n.session = t at hkeeps heffect ⊢
  cases heffect with
  | unasked same =>
    exact h.keeps hkeeps (by rw [same.fetcher]) (by rw [same.fetcher]) same.channel
      fun id hid => same.pending ▸ hid
  | asks new => exact h.request new hkeeps
  | callsOff quiet calls =>
    refine h.keeps hkeeps ?_ ?_ calls.channel fun id hid => ?_
    · rw [calls.fetcher, foldl_cancel_eq]
    · rw [calls.fetcher, foldl_cancel_eq]
    · simp [calls.pending] at hid

theorem Served.works {m n : Moment Tree Value Listener} (h : Served sources cs m.session)
    (works : Works m n) (hm : m.Sound) : Served sources cs n.session := by
  suffices hall : n.Sound ∧ Served sources cs n.session from hall.2
  induction works with
  | refl => exact ⟨hm, h⟩
  | tail _ work ih => exact ⟨work.move.sound ih.1, ih.2.work work ih.1⟩

theorem Served.complete (h : Served sources (c :: cs) t) (rest : t.AtRest) :
    Served sources cs (t.complete c) := by
  by_cases hc : c.unit ∈ t.pending
  · obtain ⟨heq, hl⟩ := rest.complete_of_pending hc
    have hreceive : Move ⟨t, [], .nothing⟩ ⟨t.received c, [], .answer c.unit c.result⟩ :=
      .receive hc hl
    have hsound := hreceive.sound rest.sound
    have hkeeps := (hreceive.develops rest.sound).keeps
    have hreceived : Served sources cs (t.received c) := by
      refine ⟨h.answer, h.prompt, fun d hd => ?_, fun id hid => ?_⟩
      · obtain ⟨u, hu, hr⟩ := h.faithful d (List.mem_cons_of_mem c hd)
        obtain ⟨v, hv, ha, -⟩ := hkeeps d.unit u hu
        exact ⟨v, hv, by rw [hr, ha]⟩
      · obtain ⟨hne, hid⟩ := rest.sound.nodup.mem_erase_iff.mp hid
        obtain ⟨d, hd, hunit⟩ := h.supplied id hid
        refine ⟨d, (List.mem_cons.mp hd).resolve_left ?_, hunit⟩
        rintro rfl
        exact hne hunit.symm
    rw [heq]
    exact hreceived.works
      (works_handleFetched (loadsByWorks_loadUnit (t.received c).depth) hsound).1 hsound
  · rw [complete_of_not_pending hc]
    refine ⟨h.answer, h.prompt, fun d hd => h.faithful d (List.mem_cons_of_mem c hd),
      fun id hid => ?_⟩
    obtain ⟨d, hd, hunit⟩ := h.supplied id hid
    refine ⟨d, (List.mem_cons.mp hd).resolve_left ?_, hunit⟩
    rintro rfl
    exact hc (hunit ▸ hid)

/-! ### Progress -/

/-- An answer that is waited for is a text that gets read, or else the batch is over. -/
theorem AtRest.progress (h : t.AtRest) (sync : t.sync = false) (hc : c.unit ∈ t.pending) :
    (t.complete c).pending = [] ∨ t.parsedIds.length < (t.complete c).parsedIds.length := by
  obtain ⟨u, hu⟩ := Cache.get?_of_index_lt (h.sound.known _ hc)
  have hs : u.state = .loading := ((h.sound.fits _ u hu).pending.mp hc).1
  by_cases hgood : ∃ text, c.result = .ok text ∧ t.Welcomes u text
  · obtain ⟨text, hr, hw⟩ := hgood
    obtain ⟨m, imports, htakes, hsound, hcomplete⟩ := h.takes sync hc hu hr hw
    rw [hcomplete]
    cases hb : m.barrierReached with
    | true => exact .inl (calm_checkBarrier hsound hb).pending
    | false =>
      rw [checkBarrier_of_closed hb]
      exact .inr (htakes.parsedIds_lt (by simp [Cache.isIn_eq hu, hs]))
  · exact .inl (h.collapses hc hu fun text hr hw => hgood ⟨text, hr, hw⟩).pending

/-- A session whose fetches do not block, with answers in its hands. -/
structure Waiting (sources : Sources) (s : Session Tree Value Listener) (cs : List Completion)
    (t : Session Tree Value Listener) : Prop where
  rest : t.AtRest
  sync : t.sync = false
  answered : Answered sources s [] t
  served : Served sources cs t

theorem Waiting.inHand {later : List Completion} (h : Waiting sources s [] t)
    (channel : t.channel = cs ++ later) : Waiting sources s cs { t with channel := later } where
  rest := h.rest.congr rfl rfl rfl
  sync := h.sync
  answered := h.answered.outside t.sync t.fetcher later
  served :=
    { answer := h.served.answer
      prompt := h.served.prompt
      faithful := by simpa [channel] using h.served.faithful
      supplied := by simpa [channel] using h.served.supplied }

theorem Waiting.complete (h : Waiting sources s (c :: cs) t) (outbox : s.outbox = []) :
    Waiting sources s cs (t.complete c) where
  rest := h.rest.advance (.complete t c)
  sync := ((h.rest.moves_complete c).1.develops h.rest.sound).setting.sync.trans h.sync
  answered := by
    refine h.answered.complete h.rest h.sync outbox fun hc => ?_
    obtain ⟨u, hu, hr⟩ := h.served.faithful c (by simp)
    rw [hr, Cache.addressOf_eq hu]
  served := h.served.complete h.rest

theorem foldl_complete_of_idle (cs : List Completion) (h : t.pending = []) :
    cs.foldl complete t = t := by
  induction cs with
  | nil => rfl
  | cons c cs ih => rw [List.foldl_cons, complete_of_not_pending (by simp [h]), ih]

theorem Waiting.foldl (h : Waiting sources s cs t) (outbox : s.outbox = []) :
    Waiting sources s [] (cs.foldl Session.complete t) ∧
      ((cs.foldl Session.complete t).pending = [] ∨
        t.parsedIds.length ≤ (cs.foldl Session.complete t).parsedIds.length ∧
          ((∃ c ∈ cs, c.unit ∈ t.pending) →
            t.parsedIds.length < (cs.foldl Session.complete t).parsedIds.length)) := by
  induction cs generalizing t with
  | nil => exact ⟨h, .inr ⟨Nat.le_refl _, by simp⟩⟩
  | cons c cs ih =>
    have hnext := h.complete outbox
    obtain ⟨hlast, hprogress⟩ := ih hnext
    refine ⟨hlast, ?_⟩
    rw [List.foldl_cons]
    by_cases hc : c.unit ∈ t.pending
    · rcases h.rest.progress h.sync hc with hidle | hlt
      · rw [foldl_complete_of_idle cs hidle]
        exact .inl hidle
      · refine hprogress.imp_right fun hp => ?_
        have := hp.1
        exact ⟨by omega, fun _ => by omega⟩
    · rw [complete_of_not_pending hc] at hprogress ⊢
      refine hprogress.imp_right fun hp => ⟨hp.1, ?_⟩
      rintro ⟨d, hd, hunit⟩
      rcases List.mem_cons.mp hd with rfl | hd
      · exact absurd hunit hc
      · exact hp.2 ⟨d, hd, hunit⟩

/-! ### Rounds -/

theorem Waiting.takeAnswers (h : Waiting sources s [] t) (outbox : s.outbox = []) :
    Waiting sources s [] t.takeAnswers ∧ (t.takeAnswers.pending = [] ∨
      t.pending ≠ [] ∧ t.parsedIds.length < t.takeAnswers.parsedIds.length) := by
  obtain ⟨hlast, hprogress⟩ := (h.inHand (List.append_nil _).symm).foldl outbox
  refine ⟨hlast, ?_⟩
  by_cases hidle : t.pending = []
  · rw [Session.takeAnswers, foldl_complete_of_idle (t := { t with channel := [] }) _ hidle]
    exact .inl hidle
  · obtain ⟨id, hid⟩ := List.exists_mem_of_ne_nil _ hidle
    obtain ⟨c, hc, hunit⟩ := h.served.supplied id hid
    exact hprogress.imp_right fun hp => ⟨hidle, hp.2 ⟨c, by simpa using hc, hunit ▸ hid⟩⟩

theorem Waiting.pending_of_channel (h : Waiting sources s [] t) (empty : t.channel = []) :
    t.pending = [] := by
  refine List.eq_nil_iff_forall_not_mem.mpr fun id hid => ?_
  obtain ⟨c, hc, -⟩ := h.served.supplied id hid
  simp [empty] at hc

/-- With each round that leaves something to wait for, a further text has been read. -/
theorem Waiting.takeRounds {bound : Nat} (outbox : s.outbox = [])
    (bounded : ∀ t, Grown sources s t → t.parsedIds.length ≤ bound) (rounds : Nat)
    (h : Waiting sources s [] t) (enough : t.pending ≠ [] → bound < rounds + t.parsedIds.length) :
    Waiting sources s [] (takeRounds rounds t) ∧ (takeRounds rounds t).pending = [] := by
  induction rounds generalizing t with
  | zero =>
    refine ⟨h, ?_⟩
    by_contra hbusy
    have := enough hbusy
    have := bounded t (h.answered.grown_of_pending outbox hbusy).2
    omega
  | succ rounds ih =>
    cases hc : t.channel with
    | nil =>
      have hsame : Session.takeRounds (rounds + 1) t = t := by simp [Session.takeRounds, hc]
      rw [hsame]
      exact ⟨h, h.pending_of_channel hc⟩
    | cons c others =>
      have hround : Session.takeRounds (rounds + 1) t =
          Session.takeRounds rounds t.takeAnswers := by
        simp [Session.takeRounds, hc]
      rw [hround]
      obtain ⟨hnext, hprogress⟩ := h.takeAnswers outbox
      refine ih hnext fun hbusy => ?_
      obtain ⟨hstart, hlt⟩ := hprogress.resolve_left hbusy
      have := enough hstart
      omega

/-! ### One by one -/

theorem receive?_of_channel {others : List Completion} (h : t.channel = c :: others) :
    t.receive? = some (({ t with channel := others } : Session Tree Value Listener).complete c) := by
  simp only [receive?, h]

theorem channel_of_receive? (h : t.receive? = none) : t.channel = [] := by
  cases hc : t.channel with
  | nil => rfl
  | cons c others => simp [receive?_of_channel hc] at h

theorem Waiting.receive {r : Session Tree Value Listener} (h : Waiting sources s [] t)
    (outbox : s.outbox = []) (hr : t.receive? = some r) : Waiting sources s [] r := by
  cases hc : t.channel with
  | nil => simp [receive?, hc] at hr
  | cons c others =>
    obtain rfl := Option.some.inj ((receive?_of_channel hc).symm.trans hr)
    have holdest : Waiting sources s [c] { t with channel := others } := h.inHand hc
    exact holdest.complete outbox

theorem Waiting.polls {r : Session Tree Value Listener} (h : Waiting sources s [] t)
    (outbox : s.outbox = []) (polls : PollsTo t r) :
    Waiting sources s [] r ∧ r.pending = [] := by
  obtain ⟨taken, nothing⟩ := polls
  suffices hlast : Waiting sources s [] r from
    ⟨hlast, hlast.pending_of_channel (channel_of_receive? nothing)⟩
  clear nothing
  induction taken with
  | refl => exact h
  | tail _ hr ih => exact ih.receive outbox hr

/-- Where nothing is under way, answers are thrown away. -/
theorem complete_oldest_of_idle {others : List Completion} (idle : t.pending = []) :
    ({ t with channel := others } : Session Tree Value Listener).complete c =
      { t with channel := others } :=
  complete_of_not_pending (s := { t with channel := others }) (by simp [idle])

theorem exists_pollsTo_of_idle (idle : t.pending = []) : ∃ r, PollsTo t r := by
  induction hc : t.channel generalizing t with
  | nil => exact ⟨t, .refl, by simp [receive?, hc]⟩
  | cons c others ih =>
    have hr := receive?_of_channel hc
    rw [complete_oldest_of_idle idle] at hr
    obtain ⟨r, taken, nothing⟩ := ih (t := { t with channel := others }) idle rfl
    exact ⟨r, .head hr taken, nothing⟩

/-- Taking answers one by one comes to an end: with each, a further text is read, or else
there is one answer less. -/
theorem Waiting.exists_pollsTo {bound : Nat} (outbox : s.outbox = [])
    (bounded : ∀ t, Grown sources s t → t.parsedIds.length ≤ bound) (h : Waiting sources s [] t) :
    ∃ r, PollsTo t r := by
  obtain ⟨texts, htexts⟩ : ∃ texts, bound < texts + t.parsedIds.length := ⟨bound + 1, by omega⟩
  induction texts generalizing t with
  | zero =>
    refine exists_pollsTo_of_idle ?_
    by_contra hbusy
    have := bounded t (h.answered.grown_of_pending outbox hbusy).2
    omega
  | succ texts ih =>
    induction hc : t.channel generalizing t with
    | nil => exact ⟨t, .refl, by simp [receive?, hc]⟩
    | cons c others ihc =>
      have hr := receive?_of_channel hc
      have hnext := h.receive outbox hr
      have holdest : Waiting sources s [c] { t with channel := others } := h.inHand hc
      by_cases hp : c.unit ∈ t.pending
      · obtain ⟨r, taken, nothing⟩ : ∃ r, PollsTo _ r := by
          rcases holdest.rest.progress holdest.sync hp with hidle | hlt
          · exact exists_pollsTo_of_idle hidle
          · have hsame : parsedIds ({ t with channel := others } : Session Tree Value Listener) =
                t.parsedIds := rfl
            rw [hsame] at hlt
            exact ih hnext (by omega)
        exact ⟨r, .head hr taken, nothing⟩
      · rw [complete_of_not_pending (s := { t with channel := others }) hp] at hr hnext
        obtain ⟨r, taken, nothing⟩ := ihc hnext htexts rfl
        exact ⟨r, .head hr taken, nothing⟩

/-! ### Either way -/

/-- Whatever way the answers are taken, in the end nothing is under way. -/
theorem Waiting.idles {bound : Nat} {r : Session Tree Value Listener}
    (h : Waiting sources s [] t) (outbox : s.outbox = [])
    (bounded : ∀ t, Grown sources s t → t.parsedIds.length ≤ bound)
    (deep : bound < t.depth) (idles : IdlesTo t r) :
    Waiting sources s [] r ∧ r.pending = [] := by
  cases idles with
  | rounds => exact h.takeRounds outbox bounded t.depth fun _ => by omega
  | polls polls => exact h.polls outbox polls

theorem IdlesTo.of_idle {r : Session Tree Value Listener} (idles : IdlesTo t r)
    (idle : t.pending = []) : ∃ channel, r = { t with channel := channel } := by
  cases idles with
  | rounds =>
    suffices hall : ∀ (rounds : Nat) (before : List Completion), ∃ channel,
        takeRounds rounds { t with channel := before } = { t with channel := channel } from
      hall t.depth t.channel
    intro rounds
    induction rounds with
    | zero => exact fun before => ⟨before, rfl⟩
    | succ rounds ih =>
      intro before
      cases before with
      | nil => exact ⟨[], rfl⟩
      | cons c others =>
        have hround : takeAnswers { t with channel := c :: others } = { t with channel := [] } :=
          foldl_complete_of_idle (t := { t with channel := [] }) (c :: others) idle
        simp only [takeRounds, List.isEmpty_cons, Bool.false_eq_true, if_false, hround]
        exact ih []
  | polls polls =>
    obtain ⟨taken, -⟩ := polls
    induction taken with
    | refl => exact ⟨t.channel, rfl⟩
    | @tail p r _ hr ih =>
      obtain ⟨channel, rfl⟩ := ih
      cases channel with
      | nil => cases hr
      | cons c others =>
        obtain rfl := Option.some.inj hr
        exact ⟨others, complete_oldest_of_idle idle⟩

end Session

end UnitLoader
