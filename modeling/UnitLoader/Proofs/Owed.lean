import UnitLoader.Proofs.Lasting
import UnitLoader.Proofs.Orderly

/-! What is owed to those who asked for a module. Each is told the address under which it
asked, sooner or later; until then its listener waits with the unit or is about to be called.
Nothing but such a request makes a listener that is owed an address. -/

namespace UnitLoader

variable {Tree Value : Type}

namespace Session

variable {s t : Session Tree Value (Listener Value)} {id : UnitId} {address : String}

/-- A listener that asked for a module at an address waits for a unit. -/
def Owes (s : Session Tree Value (Listener Value)) (id : UnitId) (address : String) : Prop :=
  ∃ l ∈ s.waitingFor id, l.importedFrom = some address

theorem Serves.owes {registered : List (UnitId × Listener Value)} (h : s.Serves t registered)
    (owes : t.Owes id address) :
    s.Owes id address ∨ ∃ l, (id, l) ∈ registered ∧ l.importedFrom = some address := by
  obtain ⟨l, hl, ha⟩ := owes
  rcases List.mem_append.mp ((h.waiting id).mem_iff.mp hl) with hs | hr
  · exact .inl ⟨l, hs, ha⟩
  · obtain ⟨⟨j, l'⟩, hfilter, rfl⟩ := List.mem_map.mp hr
    obtain ⟨hmem, hj⟩ := List.mem_filter.mp hfilter
    obtain rfl : j = id := of_decide_eq_true hj
    exact .inr ⟨l', hmem, ha⟩

theorem Outside.owes (h : Outside s t) : t.Owes id address ↔ s.Owes id address := by
  have hwaiting : t.waitingFor id = s.waitingFor id :=
    waitingFor_eq (listenersOf_of_units (by rw [h]) id) (by rw [h])
  rw [Owes, Owes, hwaiting]

end Session

namespace Host

variable {ledger : List Registration} {h h' : Host Tree Value} {loader other : Nat} {id : UnitId}
  {address : String}

/-- A listener for a module has been told the address, is about to be called, or waits. -/
inductive Owes (h : Host Tree Value) (loader : Nat) (id : UnitId) (address : String) : Prop
  | told {label : String} {value : Value} {exports : List (String × Value)}
      (note : .imported loader id label address value exports ∈ h.log)
  | due {listener : Listener Value} {outcome : Outcome Value}
      (task : .tell loader id listener outcome ∈ h.agenda)
      (asked : listener.importedFrom = some address)
  | waits {s : Session Tree Value (Listener Value)} (session : h.session? loader = some s)
      (owes : s.Owes id address)

/-- The task at hand asks a loader for the module at an address, and the unit is found. -/
def Asks (h : Host Tree Value) (loader : Nat) (id : UnitId) (address : String) : Prop :=
  ∃ s requested listener, h.session? loader = some s ∧ address = s.resolveAddress requested ∧
    (s.loadWith address .module listener).1 = .ok id ∧
    h.tick.session? loader = some (s.loadWith address .module listener).2

theorem Owes.congr (owes : h'.Owes loader id address)
    (session : h'.session? loader = h.session? loader)
    (log : ∀ l i label a value exports, .imported l i label a value exports ∈ h'.log →
      .imported l i label a value exports ∈ h.log)
    (agenda : ∀ l i listener outcome, .tell l i listener outcome ∈ h'.agenda →
      .tell l i listener outcome ∈ h.agenda) : h.Owes loader id address := by
  cases owes with
  | told note => exact .told (log _ _ _ _ _ _ note)
  | due task asked => exact .due (agenda _ _ _ _ task) asked
  | waits hs owes => exact .waits (session ▸ hs) owes

theorem Owes.of_answer {reply : Reply Value} (owes : (h.answer reply).Owes loader id address) :
    h.Owes loader id address :=
  owes.congr rfl (fun _ _ _ _ _ _ hn => hn) fun _ _ _ _ ht => ht

theorem Owes.of_first {tasks : List (Task Value)} (quiet : ∀ task ∈ tasks, task.call? = none)
    (owes : (h.first tasks).Owes loader id address) : h.Owes loader id address := by
  refine owes.congr rfl (fun _ _ _ _ _ _ hn => hn) fun l i listener outcome ht => ?_
  rcases List.mem_append.mp ht with hm | hm
  · cases quiet _ hm
  · exact hm

theorem imported_mem_put {t : Session Tree Value (Listener Value)} {l : Nat} {i : UnitId}
    {label a : String} {value : Value} {exports : List (String × Value)}
    (hn : .imported l i label a value exports ∈ (h.put loader t).log) :
    .imported l i label a value exports ∈ h.log := by
  rcases List.mem_append.mp hn with hn | hn
  · exact hn
  · obtain ⟨event, -, he⟩ := List.mem_map.mp hn
    cases he

/-- A changed session owes no more than before, but for the listeners it registered. -/
theorem Owes.of_put {s t : Session Tree Value (Listener Value)}
    {registered : List (UnitId × Listener Value)} (hs : h.session? loader = some s)
    (hserves : s.Serves t registered) (owes : (h.put loader t).Owes other id address) :
    h.Owes other id address ∨
      other = loader ∧ ∃ l, (id, l) ∈ registered ∧ l.importedFrom = some address := by
  cases owes with
  | told note => exact .inl (.told (imported_mem_put note))
  | due task asked => exact .inl (.due task asked)
  | waits hu howes =>
    rcases session?_put hu with ⟨rfl, rfl⟩ | ⟨-, u, hu', hout⟩
    · exact (hserves.owes howes).imp (.waits hs) fun hr => ⟨rfl, hr⟩
    · exact .inl (.waits hu' (hout.owes.mp howes))

theorem Owes.of_put_quiet {s t : Session Tree Value (Listener Value)}
    (hs : h.session? loader = some s) (hserves : s.Serves t [])
    (owes : (h.put loader t).Owes other id address) : h.Owes other id address :=
  (owes.of_put hs hserves).resolve_right fun ⟨_, _, hl, _⟩ => by cases hl

theorem Owes.of_put_outside {s t : Session Tree Value (Listener Value)}
    (hs : h.session? loader = some s) (rest : s.AtRest) (hout : s.Outside t)
    (owes : (h.put loader t).Owes other id address) : h.Owes other id address :=
  owes.of_put_quiet hs (rest.serves_of_outside hout)

/-! ### Tasks -/

theorem Owes.of_request {s : Session Tree Value (Listener Value)} (hs : h.session? loader = some s)
    (rest : s.AtRest) {r : Request Value} (owes : (h.request loader s r).Owes other id address) :
    h.Owes other id address := by
  cases r with
  | load a kind =>
    obtain ⟨m, hm⟩ := rest.steps_load a kind
    exact (owes.of_first (by simp [Task.call?])).of_put_quiet hs (rest.serves_of_steps hm)
  | loadSync a kind =>
    obtain ⟨m, last, hm⟩ := rest.steps_loadSync a kind
    exact (owes.of_first (by simp [Task.call?])).of_put_quiet hs (rest.serves_of_steps hm)
  | eval code =>
    obtain ⟨m, hm⟩ := rest.steps_eval code none
    exact (owes.of_first (by simp [Task.call?])).of_put_quiet hs (rest.serves_of_steps hm)
  | define name value =>
    simp only [Host.request] at owes
    split at owes
    · exact owes.of_answer
    · next t defined =>
      have hout : s.Outside t := by
        rw [(Session.define_eq_some defined).2]
        rfl
      exact owes.of_answer.of_put_outside hs rest hout
  | tryUntilIdle =>
    simp only [Host.request] at owes
    split at owes
    · exact owes.of_first (by simp [Task.call?])
    · exact owes.of_answer
  | ask question => exact owes.of_answer
  | _ => exact owes.of_first (by simp [Task.call?])

theorem Owes.of_supply {s : Session Tree Value (Listener Value)} (hs : h.session? loader = some s)
    (rest : s.AtRest) {r : Supply} (owes : (h.supply loader s r).Owes other id address) :
    h.Owes other id address := by
  cases r with
  | release a => exact owes.of_answer.of_put_outside hs rest (outside_release s a)
  | releaseAll => exact owes.of_answer.of_put_outside hs (t := s.releaseAll.2) rest rfl
  | insert a text =>
    exact owes.of_answer.of_put_outside hs
      (t := { s with fetcher := s.fetcher.insert a text }) rest rfl
  | respond a result => exact owes.of_answer.of_put_outside hs rest (outside_respond s a result)
  | forget a => exact owes.of_answer.of_put_outside hs rest (outside_respond s a _)
  | fetches a => exact owes.of_answer
  | requests => exact owes.of_answer

/-- Only the listener of a module is owed an address. -/
theorem Owes.of_loadWith {s : Session Tree Value (Listener Value)}
    (hs : h.session? loader = some s) (rest : s.AtRest) {a : String} {kind : Kind}
    {listener : Listener Value}
    (owes : Host.Owes (match s.loadWith a kind listener with
        | (.error e, s) => (h.put loader s).answer (.subscribed (.error e))
        | (.ok id, s) => (h.put loader s).first [.flush loader, .reply (.subscribed (.ok id))])
      other id address) :
    h.Owes other id address ∨
      other = loader ∧ (s.loadWith a kind listener).1 = .ok id ∧
        listener.importedFrom = some address := by
  obtain ⟨m, hm⟩ := rest.steps_loadWith a kind listener
  have hserves := rest.serves_of_steps hm
  generalize s.loadWith a kind listener = r at hserves owes ⊢
  obtain ⟨result, t⟩ := r
  cases result with
  | error e => exact .inl (owes.of_answer.of_put_quiet hs hserves)
  | ok j =>
    refine ((owes.of_first (by simp [Task.call?])).of_put hs hserves).imp_right ?_
    rintro ⟨rfl, l, hl, ha⟩
    obtain ⟨rfl, rfl⟩ := Prod.mk.inj (List.mem_singleton.mp hl)
    exact ⟨rfl, rfl, ha⟩

theorem Owes.of_subscribe {s : Session Tree Value (Listener Value)}
    (hs : h.session? loader = some s) (rest : s.AtRest) {label : String}
    {followUps : List (Step Value)} {subject : Subject}
    (owes : (h.subscribe loader s label followUps subject).Owes other id address) :
    h.Owes other id address ∨
      other = loader ∧ ∃ requested, subject = .module requested ∧
        address = s.resolveAddress requested ∧
        (s.loadWith address .module ⟨label, some address, followUps⟩).1 = .ok id := by
  cases subject with
  | load a kind => exact (owes.of_loadWith hs rest).imp_right fun ⟨_, _, ha⟩ => by cases ha
  | module a =>
    refine (owes.of_loadWith hs rest).imp_right ?_
    rintro ⟨rfl, hid, ha⟩
    obtain rfl := Option.some.inj ha
    exact ⟨rfl, a, rfl, rfl, hid⟩
  | eval code =>
    obtain ⟨m, hm⟩ := rest.steps_eval code (some ⟨label, none, followUps⟩)
    refine .inl (((owes.of_first (by simp [Task.call?])).of_put hs
      (rest.serves_of_steps hm)).resolve_right ?_)
    rintro ⟨-, l, hl, ha⟩
    obtain ⟨-, rfl⟩ := Prod.mk.inj (List.mem_singleton.mp hl)
    cases ha
  | unit j =>
    simp only [Host.subscribe] at owes
    cases ht : s.addListener j ⟨label, none, followUps⟩ with
    | error e =>
      rw [ht] at owes
      exact .inl owes.of_answer
    | ok t =>
      rw [ht] at owes
      refine .inl ((owes.of_answer.of_put hs (rest.serves_of_addListener ht)).resolve_right ?_)
      rintro ⟨-, l, hl, ha⟩
      obtain ⟨-, rfl⟩ := Prod.mk.inj (List.mem_singleton.mp hl)
      cases ha

theorem Owes.of_withLoader {f : Session Tree Value (Listener Value) → Host Tree Value}
    (owes : (h.withLoader loader f).Owes other id address) :
    h.Owes other id address ∨
      ∃ seat, h.seats[loader]? = some seat ∧ seat.dropped = false ∧
        (f seat.session).Owes other id address := by
  simp only [withLoader] at owes
  cases hseat : h.seats[loader]? with
  | none =>
    rw [hseat] at owes
    exact .inl owes.of_answer
  | some seat =>
    rw [hseat] at owes
    cases hd : seat.dropped with
    | true =>
      simp only [hd, if_true] at owes
      exact .inl owes.of_answer
    | false =>
      simp only [hd, Bool.false_eq_true, if_false] at owes
      exact .inr ⟨seat, rfl, hd, owes⟩

theorem session?_loadWith {s : Session Tree Value (Listener Value)}
    (hs : h.session? loader = some s) (a : String) (kind : Kind) (listener : Listener Value) :
    Host.session? (match s.loadWith a kind listener with
        | (.error e, s) => (h.put loader s).answer (.subscribed (.error e))
        | (.ok id, s) => (h.put loader s).first [.flush loader, .reply (.subscribed (.ok id))])
      loader = some (s.loadWith a kind listener).2 := by
  generalize s.loadWith a kind listener = r
  obtain ⟨result, t⟩ := r
  cases result with
  | error e => exact session?_put_self hs t
  | ok id => exact session?_put_self hs t

theorem Owes.of_carryOut (rest : ∀ loader s, h.session? loader = some s → s.AtRest)
    {step : Step Value} (owes : (h.carryOut step).Owes loader id address) :
    h.Owes loader id address ∨
      ∃ s requested listener, h.session? loader = some s ∧ address = s.resolveAddress requested ∧
        (s.loadWith address .module listener).1 = .ok id ∧
        (h.carryOut step).session? loader = some (s.loadWith address .module listener).2 := by
  cases step with
  | request l r =>
    simp only [Host.carryOut] at owes
    rcases owes.of_withLoader with ho | ⟨seat, hseat, -, ho⟩
    · exact .inl ho
    · exact .inl (ho.of_request (session?_eq hseat) (rest l _ (session?_eq hseat)))
  | supply l r =>
    simp only [Host.carryOut] at owes
    cases hs : h.session? l with
    | none =>
      rw [hs] at owes
      exact .inl owes.of_answer
    | some s =>
      rw [hs] at owes
      exact .inl (owes.of_supply hs (rest l s hs))
  | subscribe l subject label followUps =>
    simp only [Host.carryOut] at owes
    rcases owes.of_withLoader with ho | ⟨seat, hseat, hd, ho⟩
    · exact .inl ho
    · have hs := session?_eq hseat
      refine (ho.of_subscribe hs (rest l _ hs)).imp_right ?_
      rintro ⟨rfl, requested, rfl, rfl, hid⟩
      refine ⟨seat.session, requested,
        ⟨label, some (seat.session.resolveAddress requested), followUps⟩, hs, rfl, hid, ?_⟩
      have hcarry : h.carryOut (.subscribe loader (.module requested) label followUps) =
          h.subscribe loader seat.session label followUps (.module requested) := by
        simp [Host.carryOut, withLoader, hseat, hd]
      rw [hcarry]
      exact session?_loadWith hs _ _ _
  | hold l steps =>
    simp only [Host.carryOut] at owes
    rcases owes.of_withLoader with ho | ⟨seat, hseat, -, ho⟩
    · exact .inl ho
    · have hs := session?_eq hseat
      refine .inl ((ho.of_first fun task ht => ?_).of_put_outside hs
        (t := { seat.session with held := true }) (rest l _ hs) rfl)
      rcases List.mem_append.mp ht with ht | ht
      · obtain ⟨step, -, rfl⟩ := List.mem_map.mp ht
        rfl
      · rw [List.mem_singleton.mp ht]
        rfl
  | drop l =>
    refine .inl (owes.of_answer.congr ?_ (fun _ _ _ _ _ _ hn => hn) fun _ _ _ _ ht => ht)
    simp only [session?, List.getElem?_modify]
    cases h.seats[loader]? with
    | none => simp
    | some seat => by_cases hl : l = loader <;> simp [hl]
  | isAlive l => exact .inl owes.of_answer
  | unclear reason => exact .inl owes.of_answer

theorem Owes.of_replies {replies : List (Reply Value)}
    (owes : ({ h with replies := replies } : Host Tree Value).Owes loader id address) :
    h.Owes loader id address :=
  owes.congr rfl (fun _ _ _ _ _ _ hn => hn) fun _ _ _ _ ht => ht

theorem Owes.of_takeCount (owes : h.takeCount.2.Owes loader id address) :
    h.Owes loader id address := by
  simp only [Host.takeCount] at owes
  split at owes
  · exact owes.of_replies
  · exact owes

/-- Telling a listener moves what it is owed from the agenda to the log. -/
theorem Owes.of_tell {unit : UnitId} {listener : Listener Value} {outcome : Outcome Value}
    (owes : (h.tell other unit listener outcome).Owes loader id address) :
    h.Owes loader id address ∨
      loader = other ∧ id = unit ∧ listener.importedFrom = some address := by
  have hquiet : ∀ task ∈ listener.followUps.flatMap fun step => [Task.carryOut step, .note],
      task.call? = none := by
    intro task ht
    obtain ⟨step, -, hm⟩ := List.mem_flatMap.mp ht
    rcases List.mem_cons.mp hm with rfl | hm
    · rfl
    · rw [List.mem_singleton.mp hm]
      rfl
  cases owes.of_first hquiet with
  | told note =>
    rcases List.mem_append.mp note with hn | hn
    · exact .inl (.told hn)
    · have hnote := List.mem_singleton.mp hn
      simp only [noteFor] at hnote
      split at hnote
      · next ha =>
        obtain ⟨rfl, rfl, -, rfl, -, -⟩ := Note.imported.inj hnote
        exact .inr ⟨rfl, rfl, ha⟩
      · cases hnote
  | due task asked => exact .inl (.due task asked)
  | waits hs howes => exact .inl (.waits hs howes)

/-- Flushing moves what the notices in the outbox owe to the agenda. -/
theorem Owes.of_flush {s : Session Tree Value (Listener Value)} (hs : h.session? other = some s)
    (owes : (h.flush other s).Owes loader id address) : h.Owes loader id address := by
  simp only [Host.flush] at owes
  split at owes
  · exact owes
  · cases owes with
    | told note => exact .told (imported_mem_put note)
    | due task asked =>
      rcases List.mem_append.mp task with ht | ht
      · rcases List.mem_append.mp ht with ht | ht
        · obtain ⟨notice, hn, hl⟩ := List.mem_flatMap.mp ht
          obtain ⟨l, hlistener, he⟩ := List.mem_map.mp hl
          obtain ⟨rfl, rfl, rfl, -⟩ := Task.tell.inj he.symm
          refine .waits hs ⟨_, List.mem_append_right _ ?_, asked⟩
          exact List.mem_flatMap.mpr ⟨notice, List.mem_filter.mpr ⟨hn, by simp⟩, hlistener⟩
        · cases List.mem_singleton.mp ht
      · exact .due ht asked
    | waits hu howes =>
      rcases session?_put (t := { s with outbox := [] }) hu with ⟨rfl, rfl⟩ | ⟨-, u, hu', hout⟩
      · obtain ⟨l, hl, ha⟩ := howes
        have hlisteners : l ∈ s.listenersOf id := by
          simpa [Session.waitingFor, Session.queuedFor, Session.listenersOf] using hl
        exact .waits hs ⟨l, List.mem_append_left _ hlisteners, ha⟩
      · exact .waits hu' (hout.owes.mp howes)

/-- What is owed after a task was owed before, or it is what the task asks for. -/
theorem Owes.of_perform (rest : ∀ loader s, h.session? loader = some s → s.AtRest)
    {task : Task Value} (owes : (h.perform task).Owes loader id address) :
    h.Owes loader id address ∨
      (∃ listener outcome, task = .tell loader id listener outcome ∧
        listener.importedFrom = some address) ∨
      ∃ s requested listener, h.session? loader = some s ∧ address = s.resolveAddress requested ∧
        (s.loadWith address .module listener).1 = .ok id ∧
        (h.perform task).session? loader = some (s.loadWith address .module listener).2 := by
  cases task with
  | carryOut step => exact (owes.of_carryOut rest).imp_right .inr
  | flush l =>
    simp only [perform] at owes
    cases hs : h.session? l with
    | none =>
      rw [hs] at owes
      exact .inl owes
    | some s =>
      rw [hs] at owes
      exact .inl (owes.of_flush hs)
  | tell l unit listener outcome =>
    refine owes.of_tell.imp_right ?_
    rintro ⟨rfl, rfl, ha⟩
    exact .inl ⟨listener, outcome, rfl, ha⟩
  | reply reply => exact .inl owes.of_answer
  | settle l j =>
    simp only [perform] at owes
    cases hs : h.session? l with
    | none =>
      rw [hs] at owes
      exact .inl owes
    | some s =>
      rw [hs] at owes
      exact .inl owes.of_answer
  | poll l taken =>
    simp only [perform] at owes
    split at owes
    · exact .inl owes.of_answer
    · next t ht =>
      obtain ⟨s, hs, hreceive⟩ := Option.bind_eq_some_iff.mp ht
      obtain ⟨m, hm⟩ := (rest l s hs).steps_receive hreceive
      exact .inl ((owes.of_first (by simp [Task.call?])).of_put_quiet hs
        ((rest l s hs).serves_of_steps hm))
  | quiet l wait =>
    simp only [perform] at owes
    split at owes
    · exact .inl owes
    · exact .inl owes.of_answer.of_takeCount
  | drain l rounds =>
    simp only [perform] at owes
    split at owes
    · exact .inl owes
    · next s hs =>
      exact .inl ((owes.of_first (by simp [Task.call?])).of_put_outside hs (t := s.releaseAll.2)
        (rest l s hs) rfl)
  | drained l rounds released =>
    simp only [perform] at owes
    have htaken : h.takeCount.2.Owes loader id address := by
      split at owes
      · exact owes.of_answer
      · exact owes.of_first (by simp [Task.call?])
    exact .inl htaken.of_takeCount
  | note =>
    simp only [perform] at owes
    split at owes
    · exact .inl owes
    · refine .inl (owes.congr rfl (fun _ _ _ _ _ _ hn => ?_) fun _ _ _ _ ht => ht)
      rcases List.mem_append.mp hn with hn | hn
      · exact hn
      · cases List.mem_singleton.mp hn
  | letGo l before steps =>
    simp only [perform] at owes
    split at owes
    · exact .inl owes
    · next s hs =>
      exact .inl (owes.of_answer.of_replies.of_put_outside hs (t := { s with held := before })
        (rest l s hs) rfl)

theorem Owes.of_tick (rest : ∀ loader s, h.session? loader = some s → s.AtRest)
    (owes : h.tick.Owes loader id address) :
    h.Owes loader id address ∨ h.Asks loader id address := by
  cases ha : h.agenda with
  | nil =>
    simp only [tick, ha] at owes
    exact .inl owes
  | cons task tasks =>
    have htick : h.tick = ({ h with agenda := tasks } : Host Tree Value).perform task := by
      simp only [tick, ha]
    rw [htick] at owes
    rcases Owes.of_perform (h := { h with agenda := tasks }) rest owes with
      ho | ⟨listener, outcome, rfl, hasked⟩ | hasks
    · refine .inl (ho.congr rfl (fun _ _ _ _ _ _ hn => hn) fun _ _ _ _ ht => ?_)
      rw [ha]
      exact List.mem_cons_of_mem _ ht
    · exact .inl (.due (by rw [ha]; exact List.mem_cons_self) hasked)
    · rw [← htick] at hasks
      exact .inr hasks

/-! ### Runs -/

theorem addLoader_same {setup : Setup Tree Value} {sharing : Bool}
    (joins : h.addLoader setup sharing = .ok h') : h'.agenda = h.agenda ∧ h'.log = h.log := by
  rw [addLoader] at joins
  cases hs : setup.start (if sharing then some h.commonNamespace else none) with
  | error e =>
    rw [hs] at joins
    cases joins
  | ok s =>
    rw [hs] at joins
    obtain rfl := Except.ok.inj joins
    exact ⟨rfl, rfl⟩

theorem Owes.of_join {setup : Setup Tree Value} {sharing : Bool}
    (joins : h.addLoader setup sharing = .ok h') (owes : h'.Owes loader id address) :
    h.Owes loader id address := by
  obtain ⟨hagenda, hlog⟩ := addLoader_same joins
  obtain ⟨ns, -, hseats⟩ := addLoader_eq joins
  cases owes with
  | told note => exact .told (hlog ▸ note)
  | due task asked => exact .due (hagenda ▸ task) asked
  | waits hs howes =>
    rw [session?, hseats] at hs
    rcases session?_reseat hs with ⟨-, rfl⟩ | ⟨hne, u, hu, hout⟩
    · obtain ⟨l, hl, -⟩ := howes
      simp [Session.waitingFor, Session.listenersOf, Session.queuedFor, opened, Session.fresh,
        Build.empty, Cache.empty, Cache.get?] at hl
    · have hold := (List.getElem?_eq_some_iff.mp (Option.map_eq_some_iff.mp hu).choose_spec.1).1
      rw [List.length_append, List.length_singleton] at hold
      rw [List.getElem?_append_left (by omega)] at hu
      exact .waits hu (hout.owes.mp howes)

/-- What holds of a unit and an address once the module at the address was asked for, and lasts,
holds of every address that is told, about to be told, or waited with. -/
theorem Run.owed {P : Session Tree Value (Listener Value) → UnitId → String → Prop}
    (lasting : ∀ id address, Lasting fun s => P s id address)
    (asked : ∀ (s : Session Tree Value (Listener Value)) requested listener id, s.AtRest →
      (s.loadWith (s.resolveAddress requested) .module listener).1 = .ok id →
      P (s.loadWith (s.resolveAddress requested) .module listener).2 id
        (s.resolveAddress requested))
    (run : Run ledger h) (owes : h.Owes loader id address) :
    ∃ s, h.session? loader = some s ∧ P s id address := by
  induction run with
  | empty => cases owes with
    | told note => simp [ofSeats] at note
    | due task _ => simp [ofSeats] at task
    | waits hs _ => simp [ofSeats, session?] at hs
  | @join ledger h h' before setup sharing joins ih =>
    obtain ⟨s, hs, hp⟩ := ih (owes.of_join joins)
    obtain ⟨seat, hseat, rfl⟩ := seat_of_session? hs
    have hlt := (List.getElem?_eq_some_iff.mp hseat).1
    have hlt' : loader < h'.seats.length := by
      rw [length_of_join joins]
      omega
    have hseat' : h'.seats[loader]? = some _ := List.getElem?_eq_getElem hlt'
    rcases seat_of_join joins hseat' with ⟨he, -⟩ | ⟨-, old, hold, -, halters, -⟩
    · omega
    · obtain rfl := Option.some.inj (hseat.symm.trans hold)
      exact ⟨_, session?_eq hseat',
        (lasting id address).alters (before.orderly.rest loader _ hs) hp halters⟩
  | ask _ step ih => exact ih (owes.of_first (by simp [Task.call?]))
  | @tick ledger h before ih =>
    have hrest := before.orderly.rest
    rcases owes.of_tick hrest with ho | ⟨s, requested, listener, hs, rfl, hid, ht⟩
    · obtain ⟨s, hs, hp⟩ := ih ho
      obtain ⟨seat, hseat, rfl⟩ := seat_of_session? hs
      obtain ⟨seat', hseat', -, halters⟩ := h.alters_tick.seat loader seat hseat
      exact ⟨_, session?_eq hseat', (lasting id address).alters (hrest loader _ hs) hp halters⟩
    · exact ⟨_, ht, asked s requested listener id (hrest loader s hs) hid⟩
  | collect _ replies ih => exact ih owes.of_replies

end Host

end UnitLoader
