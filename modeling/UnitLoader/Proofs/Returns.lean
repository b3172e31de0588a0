import UnitLoader.Proofs.Provenance
import UnitLoader.Proofs.Steady
import UnitLoader.Text.Unicode

/-! What a call that waits for a unit returns. It is read off the unit after all listeners
have been called, and it is what the unit has come to: a value, an error, or what the unit
still waits for. Where fetches block, there is nothing to wait for. -/

namespace UnitLoader

variable {Tree Value : Type}

namespace Session

variable {Listener : Type} {s t : Session Tree Value Listener} {id : UnitId}

/-! ### What has become of a unit -/

/-- The addresses of the units that are being fetched, in the order of the cache. -/
def loadingAddresses (s : Session Tree Value Listener) : List String :=
  (s.cache.units.filter (·.state = .loading)).map (·.address)

/-- What there is to return for a unit. -/
structure Returns (s : Session Tree Value Listener) (id : UnitId)
    (result : Except LoaderError Value) : Prop where
  ok : ∀ value, result = .ok value ↔
    ∃ u, s.cache.get? id = some u ∧ u.state = .complete ∧ u.result = some value
  failed : ∀ e, result = .error (.failed e) ↔
    ∃ u, s.cache.get? id = some u ∧ u.state = .error ∧ u.error = some e
  unresolved : ∀ address pending, result = .error (.unresolved address pending) ↔
    ∃ u, s.cache.get? id = some u ∧ u.state.isSettled = false ∧ u.address = address ∧
      s.loadingAddresses = pending
  waits : ∀ address pending, result = .error (.unresolved address pending) → pending ≠ []
  no_other : (∃ value, result = .ok value) ∨ (∃ e, result = .error (.failed e)) ∨
    ∃ address pending, result = .error (.unresolved address pending)

theorem settledValue_of_complete {u : SourceUnit Tree Value Listener} {value : Value}
    (hu : s.cache.get? id = some u) (hs : u.state = .complete) (hr : u.result = some value) :
    s.settledValue id = .ok value := by
  simp [settledValue, hu, hs, hr]

theorem settledValue_of_error {u : SourceUnit Tree Value Listener} {e : LoadError}
    (hu : s.cache.get? id = some u) (hs : u.state = .error) (he : u.error = some e) :
    s.settledValue id = .error (.failed e) := by
  simp [settledValue, hu, hs, he]

theorem settledValue_of_open {u : SourceUnit Tree Value Listener}
    (hu : s.cache.get? id = some u) (hs : u.state.isSettled = false) :
    s.settledValue id = .error (.unresolved u.address s.unresolved) := by
  cases hstate : u.state <;> simp_all [settledValue, State.isSettled]

theorem AtRest.unresolved_eq (h : s.AtRest) : s.unresolved = s.loadingAddresses := by
  refine congrArg (List.map _) (List.filter_congr fun u hu => ?_)
  obtain ⟨i, hi⟩ := List.getElem?_of_mem hu
  rcases h.state ⟨i⟩ hi with hs | hs | hs | hs <;> simp [hs, State.isPastParsing, State.rank]

theorem AtRest.loadingAddresses_ne_nil (h : s.AtRest) {u : SourceUnit Tree Value Listener}
    (hu : s.cache.get? id = some u) (hs : u.state.isSettled = false) :
    s.loadingAddresses ≠ [] := by
  have hloading : s.cache.hasAny (· = .loading) = true := by
    rcases h.state id hu with hstate | hstate | hstate | hstate
    · exact Cache.hasAny_iff.mpr ⟨id, u, hu, by simp [hstate]⟩
    · exact h.loading_of_parsed (Cache.hasAny_iff.mpr ⟨id, u, hu, by simp [hstate]⟩)
    all_goals simp [hstate, State.isSettled] at hs
  obtain ⟨j, v, hv, hstate⟩ := Cache.hasAny_iff.mp hloading
  exact List.ne_nil_of_mem (List.mem_map.mpr
    ⟨v, List.mem_filter.mpr ⟨List.mem_of_getElem? hv, hstate⟩, rfl⟩)

theorem AtRest.returns (h : s.AtRest) (known : id.index < s.cache.size) :
    s.Returns id (s.settledValue id) := by
  obtain ⟨u, hu⟩ := Cache.get?_of_index_lt known
  have hproper := (h.sound.fits id u hu).proper
  cases hs : u.state.isSettled with
  | false =>
    have hcomplete : u.state ≠ .complete := fun hc => by simp [hc, State.isSettled] at hs
    have herror : u.state ≠ .error := fun he => by simp [he, State.isSettled] at hs
    have hwaits := h.loadingAddresses_ne_nil hu hs
    rw [settledValue_of_open hu hs, h.unresolved_eq]
    exact
      { ok := by simp [hu, hcomplete]
        failed := by simp [hu, herror]
        unresolved := by simp [hu, hs]
        waits := by simpa using hwaits
        no_other := by simp }
  | true =>
    cases hstate : u.state with
    | complete =>
      obtain ⟨value, hvalue⟩ := Option.isSome_iff_exists.mp (hproper.result hstate)
      rw [settledValue_of_complete hu hstate hvalue]
      constructor <;> simp [hu, hstate, hvalue, State.isSettled]
    | error =>
      obtain ⟨e, he⟩ := Option.isSome_iff_exists.mp (hproper.error hstate)
      rw [settledValue_of_error hu hstate he]
      constructor <;> simp [hu, hstate, he, State.isSettled]
    | _ => simp [hstate, State.isSettled] at hs

/-- Where nothing is fetched, there is nothing left to wait for. -/
theorem AtRest.settledValue_ne_unresolved (h : s.AtRest) (idle : s.pending = [])
    (address : String) (pending : List String) :
    s.settledValue id ≠ .error (.unresolved address pending) := by
  cases hu : s.cache.get? id with
  | none => simp [settledValue, hu]
  | some u =>
    have hs := h.settled_of_pending idle hu
    cases hstate : u.state <;> simp_all [settledValue, State.isSettled]
    cases u.result <;> simp

/-! ### Fetches that block -/

theorem Enters.pending_sync {registered : List (UnitId × Listener)} {m : Moment Tree Value Listener}
    (h : Enters s registered m) : m.session.pending = s.pending ∧ m.session.sync = s.sync := by
  cases h <;> exact ⟨rfl, rfl⟩

end Session

open Session

theorem Move.idle {Listener : Type} {m n : Moment Tree Value Listener} (hmove : Move m n)
    (h : m.Sound) (sync : m.session.sync = true) (idle : m.session.pending = []) :
    n.session.pending = [] := by
  cases hmove with
  | skip => exact idle
  | ask _ hsync => cases sync.symm.trans hsync
  | fetch => exact idle
  | giveUp => exact idle
  | receive waits =>
    dsimp only at idle
    simp [idle] at waits
  | take => exact idle
  | refuse => exact (h.falls_refused _ _).pending
  | misread unit sound => exact (h.falls_misread unit sound).pending
  | read unit sound =>
    obtain ⟨imports, hr⟩ := h.reads unit sound
    exact (congrArg (·.pending) hr.same).trans idle
  | reject unit sound => exact (h.falls_rejected unit sound).pending
  | pass reached => exact (calm_checkBarrier h reached).pending

theorem Moves.idle {Listener : Type} {m n : Moment Tree Value Listener} (hmoves : Moves m n)
    (h : m.Sound) (sync : m.session.sync = true) (idle : m.session.pending = []) :
    n.session.pending = [] := by
  induction hmoves with
  | refl => exact idle
  | @tail p n hp hmove ih =>
    have hsync : p.session.sync = true := (Moves.develops hp h).setting.sync.trans sync
    exact hmove.idle (Moves.sound hp h) hsync ih

namespace Session

variable {Listener : Type} {s t : Session Tree Value Listener}

/-- A step of a session whose fetches block, with fetches that block. -/
theorem AtRest.steps_blocking (h : s.AtRest) (sync : s.sync = true) (ha : Advance s t) :
    ∃ registered m last, Steps s t registered true m last := by
  have hsame {registered : List (UnitId × Listener)} {m : Moment Tree Value Listener}
      (hsteps : Steps s t registered s.sync m t) :
      ∃ registered m last, Steps s t registered true m last :=
    ⟨registered, m, t, sync ▸ hsteps⟩
  cases ha with
  | load address kind =>
    obtain ⟨m, hm⟩ := h.steps_load address kind
    exact hsame hm
  | loadWith address kind listener =>
    obtain ⟨m, hm⟩ := h.steps_loadWith address kind listener
    exact hsame hm
  | loadSync address kind => exact ⟨[], h.steps_loadSync address kind⟩
  | eval code listener =>
    obtain ⟨m, hm⟩ := h.steps_eval code listener
    exact hsame hm
  | complete c =>
    obtain ⟨m, hm⟩ := h.steps_complete c
    exact hsame hm
  | receive answer =>
    obtain ⟨m, hm⟩ := h.steps_receive answer
    exact hsame hm

theorem AtRest.idle_advance (h : s.AtRest) (sync : s.sync = true) (idle : s.pending = [])
    (ha : Advance s t) : t.pending = [] := by
  obtain ⟨registered, m, last, hsteps⟩ := h.steps_blocking sync ha
  obtain ⟨hpending, hsync⟩ := hsteps.enters.pending_sync
  have hlast := Moves.idle hsteps.moves (hsteps.enters.sound (h.withSync true)) hsync
    (hpending.trans idle)
  rw [hsteps.leaves]
  exact hlast

theorem AtRest.sync_advance (h : s.AtRest) (ha : Advance s t) : t.sync = s.sync := by
  obtain ⟨registered, sync, m, last, hsteps⟩ := h.steps ha
  rw [hsteps.leaves]

end Session

/-! ### Calls -/

namespace Session

variable {Listener : Type} {s t : Session Tree Value Listener}

/-- A request that waits for a unit, and the session as the request leaves it. -/
inductive Calls (s : Session Tree Value Listener) :
    Request Value → Requested Tree Value Listener → Prop
  | loadSync (address : String) (kind : Kind) :
      Calls s (.loadSync address kind) (s.loadSync address kind)
  | eval (code : String) : Calls s (.eval code) (s.eval code none)

/-- A unit is the one that was asked for: it goes by the address and the kind, or it was
added for the code. -/
def AskedFor (s t : Session Tree Value Listener) (id : UnitId) : Request Value → Prop
  | .loadSync address kind => t.cache.lookup (s.resolveAddress address) kind = some id
  | .eval _ => id = ⟨s.cache.size⟩ ∧ ∃ u, t.cache.get? id = some u ∧ u.origin = .eval
  | _ => False

variable {request : Request Value} {r : Requested Tree Value Listener}

theorem Calls.advance (call : s.Calls request r) : Advance s r.session := by
  cases call with
  | loadSync address kind => exact .loadSync s address kind
  | eval code => exact .eval s code none

theorem AtRest.askedFor (h : s.AtRest) (call : s.Calls request r) :
    s.AskedFor r.session r.id request := by
  cases call with
  | loadSync address kind =>
    have hm := (h.withSync true).sound_find address kind
    obtain ⟨hworks, -⟩ := works_loadUnit s.depth hm
    have hkeeps := (Moves.develops hworks.moves hm).keeps
    exact hkeeps.lookup (s.cache.lookup_getOrInsert (s.resolveAddress address) kind)
  | eval code =>
    have hm := h.sound_evaluating code none
    obtain ⟨hworks, -⟩ := works_handleLoaded
      (loadsByWorks_loadUnit (s.evaluating code none).depth) hm
    have hget : (s.evaluating code none).cache.get? ⟨s.cache.size⟩ = _ :=
      (s.get?_evaluating code none ⟨s.cache.size⟩).trans (if_pos rfl)
    obtain ⟨v, hv, hbecomes⟩ := (Moves.develops hworks.moves hm).unit _ _ hget
    exact ⟨rfl, v, hv, hbecomes.origin⟩

theorem AskedFor.index_lt {id : UnitId} (h : s.AskedFor t id request) :
    id.index < t.cache.size := by
  cases request with
  | loadSync address kind =>
    obtain ⟨u, hu, -⟩ := Cache.lookup_eq_some h
    exact Cache.index_lt_of_get? hu
  | eval code =>
    obtain ⟨-, u, hu, -⟩ := h
    exact Cache.index_lt_of_get? hu
  | _ => cases h

end Session

namespace Host

variable {ledger : List Registration} {h : Host Tree Value} {loader : Nat}
  {s : Session Tree Value (UnitLoader.Listener Value)}

/-- A session whose fetches block never waits for an answer. -/
theorem Run.idle_of_sync (run : Run ledger h) (hs : h.session? loader = some s)
    (sync : s.sync = true) : s.pending = [] := by
  obtain ⟨deeds, c⟩ := run.chronicle loader
  obtain ⟨seat, hseat, rfl⟩ := seat_of_session? hs
  refine (c.induct (P := fun _ _ s => s.sync = true → s.pending = []) (fun setup _ ns _ _ => rfl)
    fun _ _ s _ t _ rest hold halters _ hsync => ?_).2 seat hseat sync
  cases halters with
  | act step =>
    have hbefore : s.sync = true := (rest.sync_advance step.advance).symm.trans hsync
    exact rest.idle_advance hbefore (hold hbefore) step.advance
  | listen | define | shared => exact hold hsync
  | beside change =>
    rw [change.same] at hsync ⊢
    exact hold hsync

/-! ### Tasks in a row -/

theorem run_of_isAtRest (rest : h.isAtRest = true) (ticks : Nat) : h.run ticks = h := by
  cases ticks with
  | zero => rfl
  | succ ticks => rw [Host.run, if_pos rest]

theorem run_add (h : Host Tree Value) (ticks more : Nat) :
    h.run (ticks + more) = (h.run ticks).run more := by
  induction ticks generalizing h with
  | zero => rw [Nat.zero_add]; rfl
  | succ ticks ih =>
    rw [Nat.succ_add, Host.run, Host.run]
    by_cases hrest : h.isAtRest = true
    · rw [if_pos hrest, if_pos hrest, run_of_isAtRest hrest]
    · rw [if_neg hrest, if_neg hrest, ih]

theorem run_one {task : Task Value} {rest : List (Task Value)} (agenda : h.agenda = task :: rest) :
    h.run 1 = ({ h with agenda := rest } : Host Tree Value).perform task := by
  have hbusy : ¬ h.isAtRest = true := by simp [isAtRest, agenda]
  rw [Host.run, if_neg hbusy, Host.tick, agenda]
  rfl

/-- None of the listeners that are to be told of something has anything to ask. -/
def Mute (outbox : List (Notification Value (UnitLoader.Listener Value))) : Prop :=
  ∀ n ∈ outbox, ∀ l ∈ n.listeners, l.followUps = []

/-- Listeners that ask nothing of anyone leave the loaders and the replies as they were. -/
theorem run_tells {tasks rest : List (Task Value)} (agenda : h.agenda = tasks ++ rest)
    (tells : ∀ task ∈ tasks, ∃ loader unit listener outcome,
      task = .tell loader unit listener outcome ∧ listener.followUps = []) :
    ∃ log, h.run tasks.length = { h with agenda := rest, log := log } := by
  induction tasks generalizing h with
  | nil =>
    rw [List.nil_append] at agenda
    exact ⟨h.log, by rw [← agenda]; rfl⟩
  | cons task tasks ih =>
    obtain ⟨loader, unit, listener, outcome, rfl, mute⟩ := tells task List.mem_cons_self
    obtain ⟨log, hlog⟩ := ih (h := h.run 1) (by
      rw [run_one agenda]
      simp [Host.perform, Host.tell, Host.first, mute])
      fun task htask => tells task (List.mem_cons_of_mem _ htask)
    refine ⟨log, ?_⟩
    rw [List.length_cons, Nat.add_comm, run_add, hlog, run_one agenda]
    rfl

theorem run_flush_of_empty {rest : List (Task Value)} (agenda : h.agenda = .flush loader :: rest)
    (hs : h.session? loader = some s) (empty : s.outbox = []) :
    h.run 1 = { h with agenda := rest } := by
  have hsame : ({ h with agenda := rest } : Host Tree Value).session? loader = some s := hs
  rw [run_one agenda]
  simp only [Host.perform, hsame, Option.map_some, Option.getD_some, Host.flush, empty]

/-- Flushing ends with all listeners called, if none of them keeps it from that. -/
theorem run_flush {rest : List (Task Value)} (agenda : h.agenda = .flush loader :: rest)
    (hs : h.session? loader = some s) (mute : Mute s.outbox) :
    ∃ ticks, (h.run ticks).agenda = rest ∧ (h.run ticks).replies = h.replies ∧
      (h.run ticks).session? loader = some { s with outbox := [] } := by
  cases hout : s.outbox with
  | nil =>
    have hsame : { s with outbox := [] } = s := by rw [← hout]
    refine ⟨1, ?_⟩
    rw [run_flush_of_empty agenda hs hout, hsame]
    exact ⟨rfl, rfl, hs⟩
  | cons n outbox =>
    obtain ⟨t, ht⟩ : ∃ t, t = { s with outbox := [] } := ⟨_, rfl⟩
    have hfirst : h.run 1 = (({ h with agenda := rest } : Host Tree Value).put loader t).first
        (tells loader s.outbox ++ [.flush loader]) := by
      have hsame : ({ h with agenda := rest } : Host Tree Value).session? loader = some s := hs
      rw [run_one agenda, ht]
      simp only [Host.perform, hsame, Option.map_some, Option.getD_some, Host.flush, hout]
      rfl
    have hagenda : (h.run 1).agenda = tells loader s.outbox ++ .flush loader :: rest := by
      rw [hfirst]
      simp [Host.first, Host.put]
    obtain ⟨log, hlog⟩ := run_tells hagenda fun task htask => by
      obtain ⟨n, hn, hm⟩ := List.mem_flatMap.mp htask
      obtain ⟨l, hl, rfl⟩ := List.mem_map.mp hm
      exact ⟨loader, n.unit, l, n.outcome, rfl, mute n hn l hl⟩
    have hsession : ((h.run 1).run (tells loader s.outbox).length).session? loader = some t := by
      rw [hlog, hfirst]
      exact session?_put_self (h := { h with agenda := rest }) hs t
    have hlast := run_flush_of_empty (by rw [hlog]) hsession (by rw [ht])
    refine ⟨1 + (tells loader s.outbox).length + 1, ?_⟩
    rw [run_add, run_add, hlast, ← ht]
    refine ⟨rfl, ?_, hsession⟩
    rw [hlog, hfirst]
    rfl

/-- A call leaves the loader as the session does, with its listeners to be told and then the
unit to be read. -/
theorem run_call {seat : Seat Tree Value} (hs : h.seats[loader]? = some seat)
    (alive : seat.dropped = false) {request : Request Value}
    {r : Requested Tree Value (UnitLoader.Listener Value)} (call : seat.session.Calls request r)
    {rest : List (Task Value)} (agenda : h.agenda = .carryOut (.request loader request) :: rest) :
    h.run 1 = (({ h with agenda := rest } : Host Tree Value).put loader r.session).first
      [.flush loader, .settle loader r.id] := by
  rw [run_one agenda]
  simp only [Host.perform, Host.carryOut, withLoader, hs, alive]
  cases call with
  | loadSync address kind => rfl
  | eval code => rfl

theorem run_settle {id : UnitId} {rest : List (Task Value)}
    (agenda : h.agenda = .settle loader id :: rest) (hs : h.session? loader = some s) :
    h.run 1 = ({ h with agenda := rest } : Host Tree Value).answer
      (.value (s.settledValue id)) := by
  have hsame : ({ h with agenda := rest } : Host Tree Value).session? loader = some s := hs
  rw [run_one agenda]
  simp only [Host.perform, hsame, Option.map_some, Option.getD_some]

/-- A call that waits for a unit comes to its end, if no listener that is called meanwhile
asks for anything, and it returns what the unit has come to: a value exactly if the unit is
complete with it, an error exactly if the unit has failed with it, and otherwise the addresses
of the units that are still being fetched, of which there is one at least. Where fetches
block, nothing is left open. -/
theorem Run.calls_return (run : Run ledger h) {seat : Seat Tree Value}
    (hs : h.seats[loader]? = some seat) (alive : seat.dropped = false) {request : Request Value}
    {r : Requested Tree Value (UnitLoader.Listener Value)}
    (call : seat.session.Calls request r) {rest : List (Task Value)}
    (agenda : h.agenda = .carryOut (.request loader request) :: rest)
    (alone : Mute r.session.outbox) :
    ∃ ticks result, (h.run ticks).agenda = rest ∧
      (h.run ticks).replies = .value result :: h.replies ∧
      (h.run ticks).session? loader = some { r.session with outbox := [] } ∧
      seat.session.AskedFor r.session r.id request ∧ r.session.Returns r.id result ∧
      (seat.session.sync = true →
        ∀ address pending, result ≠ .error (.unresolved address pending)) := by
  have hsession := session?_eq hs
  have hbefore := run.orderly.rest loader seat.session hsession
  have hadvance := call.advance
  have hrest : r.session.AtRest := hbefore.advance hadvance
  have hasked := hbefore.askedFor call
  have hcarried := run_call hs alive call agenda
  have hput : (h.run 1).session? loader = some r.session := by
    rw [hcarried]
    exact session?_put_self (h := { h with agenda := rest }) hsession r.session
  have hflush : (h.run 1).agenda = .flush loader :: .settle loader r.id :: rest := by
    rw [hcarried]
    rfl
  obtain ⟨ticks, hagenda, hreplies, hemptied⟩ := run_flush hflush hput alone
  have hsettled : h.run (1 + ticks + 1) =
      ({ (h.run 1).run ticks with agenda := rest } : Host Tree Value).answer
        (.value (r.session.settledValue r.id)) := by
    rw [run_add, run_add, run_settle hagenda hemptied]
    rfl
  refine ⟨1 + ticks + 1, r.session.settledValue r.id, ?_⟩
  rw [hsettled]
  refine ⟨rfl, ?_, hemptied, hasked, hrest.returns hasked.index_lt, fun hsync => ?_⟩
  · rw [Host.answer, hreplies, hcarried]
    rfl
  · exact hrest.settledValue_ne_unresolved
      (hbefore.idle_advance hsync (run.idle_of_sync hsession hsync) hadvance)

def oneModule : Setup Program UnitLoader.Value :=
  .plain Lang.toolchain .default (.ofList [("/lib", .ok "export x = 1")] false)

/-- Code that waits for the module that it imports. -/
theorem Run.calls_return_waiting :
    ∃ (h : Host Program UnitLoader.Value) (ticks : Nat), Run [] h ∧ (h.run ticks).replies =
      [.value (.error (.unresolved "/#eval-0" ["/lib"]))] := by
  have run := (Run.empty.join oneModule false rfl).ask (.request 0 (.eval "import \"./lib\"\n1"))
  obtain ⟨r, hr⟩ : ∃ r, (opened oneModule .empty).eval "import \"./lib\"\n1" none = r := ⟨_, rfl⟩
  have call : (opened oneModule .empty).Calls (.eval "import \"./lib\"\n1") r := hr ▸ .eval _
  have houtbox : r.session.outbox.isEmpty = true := by
    rw [← hr]
    decide +kernel
  have hunit : (r.session.cache.get? r.id).map (fun u => (u.state, u.address)) =
      some (.parsed, "/#eval-0") := by
    rw [← hr]
    decide +kernel
  have hloading : r.session.loadingAddresses = ["/lib"] := by
    rw [← hr]
    decide +kernel
  obtain ⟨ticks, result, -, hreplies, -, -, hreturns, -⟩ := Run.calls_return run
    (show _ = some _ from rfl) rfl call rfl
    (by rw [List.isEmpty_iff.mp houtbox]; exact fun n hn => absurd hn List.not_mem_nil)
  obtain ⟨u, hu, he⟩ := Option.map_eq_some_iff.mp hunit
  obtain ⟨hparsed, haddress⟩ := Prod.mk.inj he
  have hresult : result = .error (.unresolved "/#eval-0" ["/lib"]) :=
    (hreturns.unresolved _ _).mpr ⟨u, hu, by rw [hparsed]; rfl, haddress, hloading⟩
  exact ⟨_, ticks, run, hresult ▸ hreplies⟩

end Host

end UnitLoader
