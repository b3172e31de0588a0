import Mathlib.Data.Finset.Card
import UnitLoader.Proofs.CallingOff
import UnitLoader.Proofs.Descent
import UnitLoader.Proofs.Returns
import UnitLoader.Text.Unicode

/-! What a call costs whose fetches block. However deep imports lead, the descent ends: every
text on the way but the first is that of a module at an address of its own, so there are no more
of them than there are texts to be had, and an answer that is no good ends the batch. -/

namespace UnitLoader

variable {Tree Value Listener : Type}

namespace Session

/-- Units are loaded one after the other, and what a unit imports is loaded in the same way while
its answer is worked on, however deep that leads. -/
inductive Loads : Session Tree Value Listener → List UnitId → Session Tree Value Listener → Prop
  | done (s : Session Tree Value Listener) : Loads s [] s
  | old {s t : Session Tree Value Listener} {id : UnitId} {ids : List UnitId}
      (old : s.cache.isIn .notStarted id = false) (rest : Loads s ids t) : Loads s (id :: ids) t
  | ask {s t : Session Tree Value Listener} {id : UnitId} {ids : List UnitId}
      (new : s.cache.isIn .notStarted id = true) (sync : s.sync = false)
      (rest : Loads ((s.started id).request id) ids t) : Loads s (id :: ids) t
  | fetch {s n m t : Session Tree Value Listener} {id : UnitId} {ids : List UnitId}
      (imports : List UnitId)
      (finish : Session Tree Value Listener → Session Tree Value Listener)
      (new : s.cache.isIn .notStarted id = true) (sync : s.sync = true)
      (works : ∀ load, handleFetched load ((s.started id).fetched id) id
        (s.fetcher.answer ((s.started id).cache.addressOf id)) = finish (imports.foldl load n))
      (deeper : Loads n imports m) (rest : Loads (finish m) ids t) : Loads s (id :: ids) t

variable {sources : Sources} {s t m r : Session Tree Value Listener} {ids more ahead : List UnitId}
  {id : UnitId} {u : SourceUnit Tree Value Listener} {log : List String} {bound least : Nat}

/-- What is loaded in the end is what is loaded with any depth that is enough. -/
theorem Loads.exists_depth (h : Loads s ids t) :
    ∃ enough, ∀ depth, enough ≤ depth → ids.foldl (loadUnit depth) s = t := by
  induction h with
  | done => exact ⟨0, fun _ _ => rfl⟩
  | old hold _ ih =>
    obtain ⟨enough, he⟩ := ih
    refine ⟨enough, fun depth hle => ?_⟩
    rw [List.foldl_cons, loadUnit_of_old hold, he depth hle]
  | ask new sync _ ih =>
    obtain ⟨enough, he⟩ := ih
    refine ⟨enough, fun depth hle => ?_⟩
    rw [List.foldl_cons, loadUnit_of_new new sync, he depth hle]
  | fetch _ _ new sync works _ _ ihdeeper ihrest =>
    obtain ⟨deep, hd⟩ := ihdeeper
    obtain ⟨enough, he⟩ := ihrest
    refine ⟨max (deep + 1) enough, fun depth hle => ?_⟩
    obtain ⟨depth, rfl⟩ : ∃ d, depth = d + 1 := ⟨depth - 1, by omega⟩
    rw [List.foldl_cons, loadUnit_succ new sync, works, hd depth (by omega), he _ (by omega)]

theorem Loads.unique (h : Loads s ids t) (h' : Loads s ids r) : t = r := by
  obtain ⟨enough, he⟩ := h.exists_depth
  obtain ⟨enough', he'⟩ := h'.exists_depth
  rw [← he _ (Nat.le_max_left enough enough'), he' _ (Nat.le_max_right enough enough')]

theorem Loads.append (h : Loads s ids t) (h' : Loads t more r) : Loads s (ids ++ more) r := by
  induction h with
  | done => exact h'
  | old hold _ ih => exact .old hold (ih h')
  | ask new sync _ ih => exact .ask new sync (ih h')
  | fetch imports finish new sync works deeper _ _ ih =>
    exact .fetch imports finish new sync works deeper (ih h')

/-! ### What is asked for -/

/-- At most so many addresses have been asked for since the log was as given. -/
def Asked (log : List String) (t : Session Tree Value Listener) (most : Nat) : Prop :=
  ∃ asked, t.fetcher.log = log ++ asked ∧ asked.length ≤ most

theorem Asked.mono {most least : Nat} (h : Asked log t least) (le : least ≤ most) :
    Asked log t most := by
  obtain ⟨asked, hlog, hle⟩ := h
  exact ⟨asked, hlog, Nat.le_trans hle le⟩

theorem Asked.of_fetcher {most : Nat} (h : Asked log s most) (fetcher : t.fetcher = s.fetcher) :
    Asked log t most := by
  rwa [Asked, fetcher]

theorem Asked.fetched {most : Nat} (h : Asked log t most) (id : UnitId) :
    Asked log ((t.started id).fetched id) (most + 1) := by
  obtain ⟨asked, hlog, hle⟩ := h
  refine ⟨asked ++ [(t.started id).cache.addressOf id], ?_, by simpa using hle⟩
  show t.fetcher.log ++ _ = _
  rw [hlog, List.append_assoc]

theorem CallsOff.fetcher_of_idle {events : List (Event Value)} (h : CallsOff s events t)
    (idle : s.pending = []) : t.fetcher = s.fetcher := by
  rw [h.fetcher, idle, List.foldl_nil]

end Session

open Session

/-- With nothing under way there is no fetch to be called off, so only a fetch changes the
fetcher. -/
theorem Move.fetcher_eq {m n : Moment Tree Value Listener} (hmove : Move m n) (h : m.Sound)
    (sync : m.session.sync = true) (idle : m.session.pending = []) (hand : n.hand = .nothing) :
    n.session.fetcher = m.session.fetcher := by
  cases hmove with
  | skip => rfl
  | ask _ hsync => cases sync.symm.trans hsync
  | fetch | giveUp | receive | take => cases hand
  | refuse => exact (h.callsOff_refused rfl _).fetcher_of_idle idle
  | misread unit sound => exact (h.callsOff_misread unit sound).fetcher_of_idle idle
  | read unit sound =>
    obtain ⟨imports, hr⟩ := h.reads unit sound
    exact congrArg (·.fetcher) hr.same
  | reject unit sound => exact (h.callsOff_rejected unit sound _).fetcher_of_idle idle
  | pass reached =>
    obtain ⟨events, -, hc⟩ := (h.ready reached).writes reached
    exact hc.fetcher_of_idle idle

namespace Session

variable {sources : Sources} {s t m r : Session Tree Value Listener} {ids more ahead : List UnitId}
  {id : UnitId} {u : SourceUnit Tree Value Listener} {log : List String} {bound least : Nat}

/-- A session on the descent has asked for no more addresses than it has read texts. Once its
batch is over, one answer more may have come back, the one that was no good. -/
inductive Spends (sources : Sources) (s : Session Tree Value Listener) (log : List String)
    (bound : Nat) (ahead : List UnitId) (least : Nat) (t : Session Tree Value Listener) : Prop
  | going (underway : Descending sources s ahead least t)
      (asked : Asked log t t.awaiting.parsedIds.length) : Spends sources s log bound ahead least t
  | ended (calm : t.Calm) (asked : Asked log t (bound + 1)) :
      Spends sources s log bound ahead least t

/-- There are no more texts to be read. -/
def Bounded (sources : Sources) (s : Session Tree Value Listener) (bound : Nat) : Prop :=
  ∀ t, Grown sources s t → t.parsedIds.length ≤ bound

theorem Spends.mono (h : Spends sources s log bound ahead least t) {fewer : Nat}
    (le : fewer ≤ least) : Spends sources s log bound ahead fewer t := by
  cases h with
  | going underway asked =>
    exact .going { underway with arrived := Nat.le_trans le underway.arrived } asked
  | ended calm asked => exact .ended calm asked

theorem Spends.idle (h : Spends sources s log bound ahead least t) : t.pending = [] := by
  cases h with
  | going underway asked => exact underway.pending
  | ended calm asked => exact calm.pending

theorem Spends.asked (h : Spends sources s log bound ahead least t)
    (bounded : Bounded sources s bound) : Asked log t (bound + 1) := by
  cases h with
  | going underway asked => exact asked.mono (Nat.le_succ_of_le (bounded _ underway.grown))
  | ended calm asked => exact asked

theorem Spends.checkBarrier (h : Spends sources s log bound ahead least t)
    (bounded : Bounded sources s bound) :
    Spends sources s log bound ahead least t.checkBarrier := by
  have hasked := h.asked bounded
  cases h with
  | ended calm asked =>
    rw [checkBarrier_of_closed calm.barrierReached]
    exact .ended calm asked
  | going underway asked =>
    cases hb : t.barrierReached with
    | false =>
      rw [checkBarrier_of_closed hb]
      exact .going underway asked
    | true =>
      have hpass : Move ⟨t, ahead, .nothing⟩ ⟨t.checkBarrier, ahead, .nothing⟩ := .pass hb
      exact .ended (calm_checkBarrier underway.sound hb)
        (hasked.of_fetcher (hpass.fetcher_eq underway.sound underway.sync underway.pending rfl))

/-! ### The recursion -/

/-- What it takes to load a unit that is ahead on the descent, and to load it to its end. -/
def Spending (sources : Sources) (s : Session Tree Value Listener) (log : List String)
    (bound least : Nat)
    (load : Session Tree Value Listener → UnitId → Session Tree Value Listener) : Prop :=
  ∀ ahead id t, Spends sources s log bound (id :: ahead) least t →
    Spends sources s log bound ahead least (load t id) ∧ Loads t [id] (load t id)

theorem Spending.foldl {load : Session Tree Value Listener → UnitId → Session Tree Value Listener}
    (hload : Spending sources s log bound least load) (ids : List UnitId)
    (h : Spends sources s log bound (ids ++ ahead) least t) :
    Spends sources s log bound ahead least (ids.foldl load t) ∧ Loads t ids (ids.foldl load t) := by
  induction ids generalizing t with
  | nil => exact ⟨h, .done t⟩
  | cons id ids ih =>
    obtain ⟨hfirst, hloads⟩ := hload (ids ++ ahead) id t h
    obtain ⟨hrest, hmore⟩ := ih hfirst
    exact ⟨hrest, hloads.append hmore⟩

/-- The batch ends without anything else being loaded. -/
theorem Loads.of_end (new : t.cache.isIn .notStarted id = true) (sync : t.sync = true)
    (works : ∀ load, handleFetched load ((t.started id).fetched id) id
      (t.fetcher.answer ((t.started id).cache.addressOf id)) = r) : Loads t [id] r :=
  .fetch [] (fun _ => r) new sync works (.done t) (.done r)

theorem Descending.spends {depth : Nat} (bounded : Bounded sources s bound)
    (hload : Spending sources s log bound (least + 1) (loadUnit depth))
    (h : Descending sources s (id :: ahead) least t)
    (asked : Asked log t t.awaiting.parsedIds.length) (new : t.cache.isIn .notStarted id = true) :
    Spends sources s log bound ahead least (loadUnit (depth + 1) t id) ∧
      Loads t [id] (loadUnit (depth + 1) t id) := by
  obtain ⟨u, hu, hs⟩ := Cache.isIn_iff.mp new
  have hopen : u.state.isSettled = false := by simp [hs, State.isSettled]
  have hstarted : (t.started id).cache.get? id = some { u with state := .loading } := by
    simp [Cache.get?_modify, hu, SourceUnit.advance, hs, State.mayBecome, State.rank]
  have hanswer : t.fetcher.answer ((t.started id).cache.addressOf id) = sources u.address := by
    rw [Cache.addressOf_eq hstarted, h.fetcher]
  have hfetched := asked.fetched id
  have hlast : Asked log ((t.started id).fetched id) (bound + 1) :=
    hfetched.mono (Nat.succ_le_succ (bounded _ h.grown))
  rw [loadUnit_succ new h.sync, hanswer]
  cases ht : sources u.address with
  | error e =>
    have hsound := h.sound.fetch new (.error e)
    have hrefuse : Move ⟨(t.started id).fetched id, ahead, .answer id (.error e)⟩
        ⟨((t.started id).fetched id).refused id e, ahead, .nothing⟩ := .refuse
    have hfetcher := hrefuse.fetcher_eq hsound h.sync h.pending rfl
    refine ⟨.ended (hsound.falls_refused id e).calm (hlast.of_fetcher hfetcher), ?_⟩
    exact .of_end new h.sync fun load => by
      rw [hanswer, ht]
      rfl
  | ok text =>
    have hin := h.inText hu hs text
    rcases handleLoaded_or hin.sound hin.unit with ⟨r, hr, hcalm, hmove⟩ | ⟨hsound, hfine⟩
    · have hfetcher := hmove.fetcher_eq hin.sound h.sync h.pending rfl
      have hworks (load) : handleFetched load ((t.started id).fetched id) id (.ok text) = r :=
        hr load
      rw [hworks]
      refine ⟨.ended hcalm (hlast.of_fetcher hfetcher), .of_end new h.sync fun load => ?_⟩
      rw [hanswer, ht, hworks]
    · -- A text more has been read, as many as there were before and this one.
      have hexact : Descending sources s (id :: ahead) t.awaiting.parsedIds.length t :=
        { h with arrived := Nat.le_refl _ }
      obtain ⟨imports, n, hn, hfetcher, hloaded⟩ :=
        hexact.reads hu hs ht (hin.welcomes hu hopen hsound hfine)
      have hgoing : Spends sources s log bound (imports ++ ahead) (least + 1) n :=
        .going { hn with arrived := Nat.le_trans (Nat.succ_le_succ h.arrived) hn.arrived }
          ((hfetched.of_fetcher hfetcher).mono hn.arrived)
      obtain ⟨hspends, hloads⟩ := hload.foldl imports hgoing
      have hworks (load) : handleFetched load ((t.started id).fetched id) id (.ok text) =
          (imports.foldl load n).checkBarrier := hloaded load
      rw [hworks]
      refine ⟨(hspends.mono (Nat.le_succ least)).checkBarrier bounded,
        .fetch imports Session.checkBarrier new h.sync (fun load => ?_) hloads (.done _)⟩
      rw [hanswer, ht, hworks]

/-- With a depth that the number of texts to be had leaves unused, every unit is loaded to its
end. -/
theorem spending_loadUnit (bounded : Bounded sources s bound) (depth : Nat) {least : Nat}
    (deep : bound < depth + least) :
    Spending sources s log bound least (loadUnit depth) := by
  have hold (depth least : Nat) {ahead id t}
      (h : Spends sources s log bound (id :: ahead) least t)
      (old : t.cache.isIn .notStarted id = false) :
      Spends sources s log bound ahead least (loadUnit depth t id) ∧
        Loads t [id] (loadUnit depth t id) := by
    rw [loadUnit_of_old old]
    refine ⟨?_, .old old (.done t)⟩
    cases h with
    | going underway asked =>
      exact .going { underway with sound := underway.sound.skip old } asked
    | ended calm asked => exact .ended calm asked
  induction depth generalizing least with
  | zero =>
    intro ahead id t h
    cases h with
    | going underway asked =>
      have hle := bounded _ underway.grown
      have harrived := underway.arrived
      omega
    | ended calm asked =>
      exact hold 0 least (.ended calm asked) (Cache.isIn_eq_false_of_settled rfl (calm.settled id))
  | succ depth ih =>
    intro ahead id t h
    cases new : t.cache.isIn .notStarted id with
    | false => exact hold (depth + 1) least h new
    | true =>
      cases h with
      | going underway asked => exact underway.spends bounded (ih (by omega)) asked new
      | ended calm asked =>
        cases new.symm.trans (Cache.isIn_eq_false_of_settled rfl (calm.settled id))

/-! ### A call -/

/-- In a session that waits for nothing, a unit that has not settled is the one just found. -/
theorem AtRest.eq_find_of_open (h : s.AtRest) (idle : s.pending = []) {address : String}
    {kind : Kind} (hu : (s.find address kind).session.cache.get? id = some u)
    (hopen : u.state.isSettled = false) : id = (s.find address kind).id := by
  rcases get?_find_back hu with hold | rfl
  · simp [h.settled_of_pending idle hold] at hopen
  · exact List.mem_singleton.mp (((h.sound_find address kind).fits id _ hu).ahead rfl)

theorem AtRest.bounded_find (h : s.AtRest) (idle : s.pending = []) {f : Fetcher}
    (reaches : f.Reaches) (address : String) (kind : Kind) :
    Bounded f.answer (s.find address kind).session.awaiting (f.reach + 1) := by
  intro t grown
  have hle := grown.parsedIds_le_of_old reaches [(s.find address kind).id]
    fun id hid hlt => by
      obtain ⟨v, hv, hparsed⟩ := Cache.isIn_iff.mp (mem_parsedIds.mp hid)
      obtain ⟨w, hw⟩ := Cache.get?_of_index_lt hlt
      have hunit := hw
      rw [get?_awaiting] at hunit
      obtain ⟨u, hu, he⟩ := Option.map_eq_some_iff.mp hunit
      refine List.mem_singleton.mpr (h.eq_find_of_open idle hu ?_)
      refine Bool.eq_false_iff.mpr fun hs => ?_
      -- A settled unit would still be what it was, and not parsed.
      rw [← SourceUnit.isSettled_awaited, he] at hs
      obtain rfl := Option.some.inj (hv.symm.trans ((grown.sameSettled id w hs).mp hw))
      simp [hparsed, State.isSettled] at hs
  rwa [List.length_singleton, Nat.add_comm] at hle

/-- With fetches that block, a unit is loaded to its end at the cost of as many fetches as there
are texts to be had and two more, and nothing is left open. -/
theorem AtRest.loads_find (h : s.AtRest) (idle : s.pending = []) {n depth : Nat}
    (texts : ({ s.fetcher with reach := n } : Fetcher).Reaches) (deep : n + 1 < depth)
    (address : String) (kind : Kind) :
    let found := { s with sync := true }.find address kind
    let t := loadUnit depth found.session found.id
    Loads found.session [found.id] t ∧ Asked s.fetcher.log t (n + 2) ∧
      ∀ id u, t.cache.get? id = some u → u.state.isSettled = true := by
  intro found t
  have hrest := h.withSync true
  have hsound : Moment.Sound ⟨found.session, [found.id], .nothing⟩ :=
    hrest.sound_find address kind
  have hbounded : Bounded s.fetcher.answer found.session.awaiting (n + 1) :=
    hrest.bounded_find idle texts address kind
  have hstart : Spends s.fetcher.answer found.session.awaiting s.fetcher.log (n + 1) [found.id] 0
      found.session :=
    .going ⟨.refl _ _, hsound, rfl, rfl, idle, Nat.zero_le _⟩
      ⟨[], (List.append_nil _).symm, Nat.zero_le _⟩
  obtain ⟨hspends, hloads⟩ := spending_loadUnit hbounded depth deep [] _ _ hstart
  obtain ⟨hworks, hclosed⟩ := works_loadUnit depth hsound
  have hsteps : Steps s { t with sync := s.sync } [] true ⟨found.session, [found.id], .nothing⟩ t :=
    ⟨.find _ address kind, hworks.moves, hclosed (hrest.closed_find address kind), rfl⟩
  exact ⟨hloads, hspends.asked hbounded,
    fun id u => (h.of_steps hsteps).settled_of_pending hspends.idle⟩

end Session

theorem Fetcher.reaches_card {f : Fetcher} {texts : Finset String}
    (had : ∀ address, (∃ text, f.answer address = .ok text) → address ∈ texts) :
    ({ f with reach := texts.card } : Fetcher).Reaches := by
  intro addresses nodup answered
  rw [← List.toFinset_card_of_nodup nodup]
  exact Finset.card_le_card fun a ha => had a (answered a (List.mem_toFinset.mp ha))

theorem Fetcher.card_le_reach {f : Fetcher} {texts : Finset String} (reaches : f.Reaches)
    (had : ∀ address ∈ texts, ∃ text, f.answer address = .ok text) : texts.card ≤ f.reach := by
  rw [← Finset.length_toList]
  exact reaches texts.toList texts.nodup_toList fun a ha => had a (Finset.mem_toList.mp ha)

namespace Host

variable {ledger : List Registration} {h : Host Tree Value} {loader : Nat}

/-- In a loader that waits for nothing, loading with fetches that block comes to an end, however
deep the imports lead. It asks for no more addresses than there are texts to be had and two more,
one for the text of a script and one for an answer that is no good, and then all units have
settled. The call leaves the session so, if the fetcher reaches as far as it says, and it replies
if no listener keeps it from that. -/
theorem Run.loadSync_ends (run : Run ledger h) {seat : Seat Tree Value}
    (hs : h.seats[loader]? = some seat) (alive : seat.dropped = false)
    (idle : seat.session.pending = []) {texts : Finset String}
    (had : ∀ address, address ∈ texts ↔ ∃ text, seat.session.fetcher.answer address = .ok text)
    {address : String} {kind : Kind} {r : Requested Tree Value (UnitLoader.Listener Value)}
    (call : seat.session.loadSync address kind = r) {rest : List (Task Value)}
    (agenda : h.agenda = .carryOut (.request loader (.loadSync address kind)) :: rest)
    (alone : Mute r.session.outbox) :
    (∃ t, Loads ({ seat.session with sync := true }.find address kind).session [r.id] t ∧
        (∃ asked, t.fetcher.log = seat.session.fetcher.log ++ asked ∧
          asked.length ≤ texts.card + 2) ∧
        (∀ id u, t.cache.get? id = some u → u.state.isSettled = true) ∧
        (seat.session.fetcher.Reaches → r.session = { t with sync := seat.session.sync })) ∧
      ∃ ticks, (h.run ticks).agenda = rest ∧
        (h.run ticks).replies = .value (r.session.settledValue r.id) :: h.replies ∧
        (h.run ticks).session? loader = some { r.session with outbox := [] } := by
  subst call
  have hsession := session?_eq hs
  have hrest := run.orderly.rest loader seat.session hsession
  refine ⟨?_, ?_⟩
  · have htexts : ({ seat.session.fetcher with reach := texts.card } : Fetcher).Reaches :=
      Fetcher.reaches_card fun a ha => (had a).mpr ha
    obtain ⟨hloads, hasked, hsettled⟩ :=
      hrest.loads_find idle htexts (Nat.lt_succ_self (texts.card + 1)) address kind
    refine ⟨_, hloads, hasked, hsettled, fun reaches => ?_⟩
    have hdeep : texts.card + 1 < seat.session.depth :=
      Nat.lt_succ_of_le (Nat.succ_le_succ (Fetcher.card_le_reach reaches fun a ha => (had a).mp ha))
    obtain ⟨hcalled, -⟩ := hrest.loads_find idle htexts hdeep address kind
    rw [hloads.unique hcalled]
    rfl
  · have hcarried := run_call hs alive (.loadSync address kind) agenda
    have hput : (h.run 1).session? loader = some (seat.session.loadSync address kind).session := by
      rw [hcarried]
      exact session?_put_self (h := { h with agenda := rest }) hsession _
    have hflush : (h.run 1).agenda = .flush loader ::
        .settle loader (seat.session.loadSync address kind).id :: rest := by
      rw [hcarried]
      rfl
    obtain ⟨ticks, hagenda, hreplies, hemptied⟩ := run_flush hflush hput alone
    refine ⟨1 + ticks + 1, ?_⟩
    rw [run_add, run_add, run_settle hagenda hemptied]
    refine ⟨rfl, ?_, hemptied⟩
    rw [Host.answer, hreplies, hcarried]
    rfl

/-- Two texts that import each other. -/
def roundTrip : Setup Program UnitLoader.Value :=
  .plain Lang.toolchain .default
    (.ofList [("/a", .ok "import \"./b\""), ("/b", .ok "import \"./a\"")] false)

/-- One of the texts is fetched for a script and again for the module at its address. -/
theorem Run.loadSync_ends_roundTrip :
    ∃ (h : Host Program UnitLoader.Value) (ticks : Nat)
      (s : Session Program UnitLoader.Value (UnitLoader.Listener UnitLoader.Value)),
      Run [] h ∧ (h.run ticks).session? 0 = some s ∧ s.fetcher.log = ["/a", "/b", "/a"] ∧
        ∀ id u, s.cache.get? id = some u → u.state.isSettled = true := by
  have run := (Run.empty.join roundTrip false rfl).ask (.request 0 (.loadSync "a" .script))
  have had (address : String) : address ∈ ({"/a", "/b"} : Finset String) ↔
      ∃ text, roundTrip.fetcher.answer address = .ok text := by
    rw [Finset.mem_insert, Finset.mem_singleton]
    constructor
    · rintro (rfl | rfl) <;> exact ⟨_, rfl⟩
    · rintro ⟨text, ht⟩
      simpa using Fetcher.mem_of_answerFrom ht
  obtain ⟨r, hr⟩ : ∃ r, (opened roundTrip .empty).loadSync "a" .script = r := ⟨_, rfl⟩
  have houtbox : r.session.outbox.isEmpty = true := by
    rw [← hr]
    decide +kernel
  have hlog : r.session.fetcher.log = ["/a", "/b", "/a"] := by
    rw [← hr]
    decide +kernel
  obtain ⟨⟨t, -, -, hsettled, hleaves⟩, ticks, -, -, hs⟩ := Run.loadSync_ends run
    (show _ = some _ from rfl) rfl rfl had hr rfl
    (by rw [List.isEmpty_iff.mp houtbox]; exact fun n hn => absurd hn List.not_mem_nil)
  have hsame := hleaves (Fetcher.reaches_ofList _ false)
  exact ⟨_, ticks, _, run, hs, hlog, fun id u hu => hsettled id u (by rwa [hsame] at hu)⟩

end Host

end UnitLoader
