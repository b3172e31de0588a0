import UnitLoader.Proofs.Concord
import UnitLoader.Proofs.Delivery
import UnitLoader.Text.Unicode

/-! A host that does nothing but poll one loader. Its fetcher answers, the answers are
taken, and the listeners of what has settled are called, until the host is at rest. -/

namespace UnitLoader

variable {Tree Value : Type}

def Request.polls : Request Value → Bool
  | .poll => true
  | .runUntilIdle => true
  | .tryUntilIdle => true
  | .runUntilQuiet => true
  | .countUntilQuiet => true
  | .drain => true
  | _ => false

def Step.polls (loader : Nat) : Step Value → Bool
  | .supply l _ => l = loader
  | .request l r => l = loader && r.polls
  | _ => false

/-- The tasks that such steps lead to, but for the calls of listeners. -/
def Task.polls (loader : Nat) : Task Value → Bool
  | .carryOut step => step.polls loader
  | .flush l => l = loader
  | .poll l _ => l = loader
  | .quiet l _ => l = loader
  | .drain l _ => l = loader
  | .drained l _ _ => l = loader
  | _ => false

def Task.tellsPlainly (loader : Nat) : Task Value → Prop
  | .tell l _ listener _ => l = loader ∧ listener.followUps = []
  | _ => False

namespace Session

/-- No listener has steps of its own. -/
def ListensPlainly (t : Session Tree Value (Listener Value)) : Prop :=
  ∀ u ∈ t.cache.units, ∀ l ∈ u.listeners, l.followUps = []

instance (t : Session Tree Value (Listener Value)) : Decidable t.ListensPlainly :=
  inferInstanceAs (Decidable (∀ u ∈ t.cache.units, ∀ l ∈ u.listeners, l.followUps = []))

def noteFor (t : Session Tree Value (Listener Value)) (loader : Nat) (unit : UnitId)
    (listener : Listener Value) (outcome : Outcome Value) : Note Value :=
  match listener.importedFrom, outcome with
  | some address, .complete value =>
    .imported loader unit listener.label address value (t.exportsOf address)
  | _, _ => .told loader unit listener.label outcome

def note? (t : Session Tree Value (Listener Value)) : Task Value → Option (Note Value)
  | .tell loader unit listener outcome => some (t.noteFor loader unit listener outcome)
  | _ => none

end Session

namespace Host

/-- Every answer that a unit of a loader waits for is that of the sources. -/
def AnswersFrom (sources : Sources) (loader : Nat) (h : Host Tree Value) : Prop :=
  ∀ s ∈ h.session? loader, ∀ c ∈ s.channel, c.unit ∈ s.pending →
    c.result = sources (s.cache.addressOf c.unit)

instance (sources : Sources) (loader : Nat) (h : Host Tree Value) :
    Decidable (h.AnswersFrom sources loader) :=
  inferInstanceAs (Decidable (∀ s ∈ h.session? loader, ∀ c ∈ s.channel, c.unit ∈ s.pending →
    c.result = sources (s.cache.addressOf c.unit)))

/-- A host before and after one loader was polled, with its fetches answered out of the
sources. Whoever polls it waits until the host is at rest. -/
inductive Polls (sources : Sources) (loader : Nat) (h : Host Tree Value) : Host Tree Value → Prop
  | start : Polls sources loader h h
  | ask {k : Host Tree Value} (before : Polls sources loader h k) (rest : k.isAtRest = true)
      {step : Step Value} (polls : step.polls loader = true) :
      Polls sources loader h (k.first [.carryOut step])
  | tick {k : Host Tree Value} (before : Polls sources loader h k)
      (answers : k.AnswersFrom sources loader) : Polls sources loader h k.tick
  | collect {k : Host Tree Value} (before : Polls sources loader h k) {reply : Reply Value}
      {rest : List (Reply Value)} (replies : k.replies = reply :: rest) :
      Polls sources loader h { k with replies := rest }

/-- What listeners got to know, in order. -/
def heard (h : Host Tree Value) : List (Note Value) :=
  h.log.filter fun note => note.call?.isSome

variable {sources : Sources} {loader : Nat} {s t t' : Session Tree Value (Listener Value)}
  {h h' : Host Tree Value} {before : List (Note Value)}

theorem Polls.run {ledger : List Registration} (polls : Polls sources loader h h')
    (run : Run ledger h) : ∃ more, Run (ledger ++ more) h' := by
  induction polls with
  | start => exact ⟨[], by rwa [List.append_nil]⟩
  | ask _ _ _ ih =>
    obtain ⟨more, hm⟩ := ih
    exact ⟨more, hm.ask _⟩
  | tick _ _ ih =>
    obtain ⟨more, hm⟩ := ih
    exact ⟨more ++ _, by rw [← List.append_assoc]; exact hm.tick⟩
  | collect _ replies ih =>
    obtain ⟨more, hm⟩ := ih
    exact ⟨more, hm.collect replies⟩

theorem Polls.step (polls : Polls sources loader h h') (rest : h'.isAtRest = true)
    (step : Step Value) (hs : step.polls loader = true) (ticks : Nat)
    (answers : ∀ n < ticks, ((h'.first [.carryOut step]).run n).AnswersFrom sources loader) :
    Polls sources loader h ((h'.first [.carryOut step]).run ticks) := by
  have hasked := polls.ask rest hs
  generalize h'.first [.carryOut step] = k at hasked answers
  induction ticks generalizing k with
  | zero => exact hasked
  | succ ticks ih =>
    by_cases hk : k.isAtRest = true
    · rwa [Host.run, if_pos hk]
    · rw [Host.run, if_neg hk]
      refine ih k.tick (hasked.tick (answers 0 (by omega))) fun n hn => ?_
      have hnext := answers (n + 1) (by omega)
      rwa [Host.run, if_neg hk] at hnext

theorem heard_put (loader : Nat) (t : Session Tree Value (Listener Value)) :
    (h.put loader t).heard = h.heard := by
  have hnone (events : List (Event Value)) :
      (events.map (Note.worked loader)).filter (fun note => note.call?.isSome) = [] := by
    refine List.filter_eq_nil_iff.mpr fun note hn => ?_
    obtain ⟨event, -, rfl⟩ := List.mem_map.mp hn
    simp [Note.call?]
  simp only [heard, put, List.filter_append, hnone, List.append_nil]

theorem noteFor_eq (hs : h.session? loader = some t) (unit : UnitId) (listener : Listener Value)
    (outcome : Outcome Value) :
    h.noteFor loader unit listener outcome = t.noteFor loader unit listener outcome := by
  cases hi : listener.importedFrom with
  | none => simp only [noteFor, Session.noteFor, hi]
  | some address =>
    cases outcome with
    | complete value =>
      simp only [noteFor, Session.noteFor, hi, hs, Option.map_some, Option.getD_some]
    | failed error => simp only [noteFor, Session.noteFor, hi]

/-- The calls that are due stand before all other tasks, and what was heard and what is
due comes from the notices taken so far. -/
structure Attends (sources : Sources) (loader : Nat) (s : Session Tree Value (Listener Value))
    (before : List (Note Value)) (h : Host Tree Value) (due quiet : List (Task Value))
    (told : List (Notification Value (Listener Value)))
    (t : Session Tree Value (Listener Value)) : Prop where
  session : h.session? loader = some t
  answered : Session.Answered sources s told t
  agenda : h.agenda = due ++ quiet
  calls : ∀ task ∈ due, task.tellsPlainly loader
  polls : ∀ task ∈ quiet, task.polls loader = true
  setting : Session.SameSetting s t
  plain : ∀ id, ∀ l ∈ t.waitingFor id, l.followUps = []
  heard : h.heard ++ due.filterMap t.note? = before ++ (tells loader told).filterMap t.note?

variable {due quiet tasks : List (Task Value)}
  {told : List (Notification Value (Listener Value))}

theorem Attends.congr (a : Attends sources loader s before h due quiet told t)
    (seats : h'.seats = h.seats) (log : h'.log = h.log) (agenda : h'.agenda = due ++ tasks)
    (polls : ∀ task ∈ tasks, task.polls loader = true) :
    Attends sources loader s before h' due tasks told t where
  session := by
    rw [session?, seats]
    exact a.session
  answered := a.answered
  agenda := agenda
  calls := a.calls
  polls := polls
  setting := a.setting
  plain := a.plain
  heard := by
    rw [Host.heard, log]
    exact a.heard

theorem Attends.answer (a : Attends sources loader s before h due quiet told t)
    (reply : Reply Value) : Attends sources loader s before (h.answer reply) due quiet told t :=
  a.congr rfl rfl a.agenda a.polls

theorem Attends.first (a : Attends sources loader s before h [] quiet told t)
    (polls : ∀ task ∈ tasks, task.polls loader = true) :
    Attends sources loader s before (h.first tasks) [] (tasks ++ quiet) told t := by
  refine a.congr rfl rfl ?_ fun task ht => ?_
  · rw [Host.first, a.agenda]
    rfl
  · exact (List.mem_append.mp ht).elim (polls task) (a.polls task)

theorem Attends.takeCount (a : Attends sources loader s before h due quiet told t) :
    Attends sources loader s before h.takeCount.2 due quiet told t := by
  simp only [Host.takeCount]
  split
  · exact a.congr rfl rfl a.agenda a.polls
  · exact a

theorem Attends.put (a : Attends sources loader s before h [] quiet told t)
    (answered : Session.Answered sources s told t') (setting : Session.SameSetting t t')
    (waiting : ∀ id, ∀ l ∈ t'.waitingFor id, l ∈ t.waitingFor id)
    (notes : (tells loader told).filterMap t'.note? =
      (tells loader told).filterMap t.note?) :
    Attends sources loader s before (h.put loader t') [] quiet told t' where
  session := session?_put_self a.session t'
  answered := answered
  agenda := a.agenda
  calls := a.calls
  polls := a.polls
  setting := a.setting.trans setting
  plain := fun id l hl => a.plain id l (waiting id l hl)
  heard := by
    have hheard := a.heard
    rw [heard_put, notes]
    exact hheard

theorem Attends.put_outside (a : Attends sources loader s before h [] quiet told t)
    (fetcher : Fetcher) (channel : List Completion) :
    Attends sources loader s before
      (h.put loader { t with fetcher := fetcher, channel := channel }) [] quiet told
      { t with fetcher := fetcher, channel := channel } :=
  a.put (a.answered.outside t.sync fetcher channel) ⟨rfl, rfl, rfl, rfl, rfl⟩ (fun _ _ hl => hl) rfl

theorem mem_waitingFor_of_outbox {n : Notification Value (Listener Value)} (hn : n ∈ t.outbox)
    {l : Listener Value} (hl : l ∈ n.listeners) : l ∈ t.waitingFor n.unit :=
  List.mem_append_right _
    (List.mem_flatMap.mpr ⟨n, List.mem_filter.mpr ⟨hn, by simp⟩, hl⟩)

theorem Attends.flush (a : Attends sources loader s before h [] quiet told t) :
    ∃ due tasks told' t', Attends sources loader s before (h.flush loader t) due tasks told' t' := by
  cases ho : t.outbox with
  | nil =>
    have hsame : h.flush loader t = h := by simp only [Host.flush, ho]
    exact ⟨_, _, _, _, hsame ▸ a⟩
  | cons n ns =>
    refine ⟨tells loader t.outbox, .flush loader :: quiet, told ++ t.outbox,
      { t with outbox := [] }, ?_⟩
    have hform : h.flush loader t = (h.put loader { t with outbox := [] }).first
        (tells loader t.outbox ++ [.flush loader]) := by
      simp only [Host.flush, ho]
      rfl
    rw [hform]
    exact {
      session := session?_put_self a.session _
      answered := a.answered.flush
      agenda := by
        rw [Host.first, Host.put, a.agenda, List.append_assoc]
        rfl
      calls := by
        intro task ht
        obtain ⟨m, hm, ht⟩ := List.mem_flatMap.mp ht
        obtain ⟨l, hl, rfl⟩ := List.mem_map.mp ht
        exact ⟨rfl, a.plain m.unit l (mem_waitingFor_of_outbox hm hl)⟩
      polls := by
        intro task ht
        rcases List.mem_cons.mp ht with rfl | ht
        · simp [Task.polls]
        · exact a.polls task ht
      setting := a.setting.trans ⟨rfl, rfl, rfl, rfl, rfl⟩
      plain := by
        intro id l hl
        refine a.plain id l ?_
        have hnone : Session.queuedFor { t with outbox := [] } id = [] := rfl
        rw [Session.waitingFor, hnone, List.append_nil] at hl
        exact List.mem_append_left _ hl
      heard := by
        have hheard := a.heard
        rw [List.filterMap_nil, List.append_nil] at hheard
        have hput : ((h.put loader { t with outbox := [] }).first
            (tells loader t.outbox ++ [.flush loader])).heard = h.heard := heard_put loader _
        rw [hput, hheard, tells, tells, tells, List.flatMap_append, List.filterMap_append,
          List.append_assoc]
        rfl }

theorem Attends.tell {task : Task Value}
    (a : Attends sources loader s before h (task :: due) quiet told t) :
    Attends sources loader s before h.tick due quiet told t := by
  obtain ⟨hagenda, hcall⟩ : h.agenda = task :: (due ++ quiet) ∧ task.tellsPlainly loader :=
    ⟨a.agenda, a.calls task List.mem_cons_self⟩
  cases task with
  | tell l unit listener outcome =>
    obtain ⟨rfl, hnone⟩ := hcall
    have htick : h.tick = ({ h with
        agenda := due ++ quiet
        log := h.log ++ [t.noteFor l unit listener outcome] } : Host Tree Value) := by
      have hnote := noteFor_eq (h := { h with agenda := due ++ quiet }) a.session unit listener
        outcome
      simp only [Host.tick, hagenda, Host.perform, Host.tell, hnone, hnote]
      rfl
    have hcalled : (t.noteFor l unit listener outcome).call?.isSome = true := by
      simp only [Session.noteFor]
      split <;> rfl
    rw [htick]
    exact {
      session := a.session
      answered := a.answered
      agenda := rfl
      calls := fun task ht => a.calls task (List.mem_cons_of_mem _ ht)
      polls := a.polls
      setting := a.setting
      plain := a.plain
      heard := by
        have htold : t.note? (.tell l unit listener outcome) =
            some (t.noteFor l unit listener outcome) := rfl
        have hone : [t.noteFor l unit listener outcome].filter (fun note => note.call?.isSome) =
            [t.noteFor l unit listener outcome] := List.filter_cons_of_pos hcalled
        rw [← a.heard, List.filterMap_cons_some htold, Host.heard, Host.heard,
          List.filter_append, hone, List.append_assoc, List.singleton_append] }
  | _ => exact hcall.elim

theorem Attends.receive (a : Attends sources loader s before h [] quiet told t)
    (hr : t.receive? = some t') (rest : t.AtRest) (sync : s.sync = false) (outbox : s.outbox = [])
    (answers : h.AnswersFrom sources loader) :
    Attends sources loader s before (h.put loader t') [] quiet told t' := by
  simp only [Session.receive?] at hr
  cases hc : t.channel with
  | nil => simp [hc] at hr
  | cons c others =>
    obtain rfl : { t with channel := others }.complete c = t' := by simpa [hc] using hr
    have hrest : Session.AtRest { t with channel := others } :=
      (rest.serves_of_outside (t := { t with channel := others }) rfl).rest
    have hdevelops : Session.Develops { t with channel := others }
        ({ t with channel := others }.complete c) :=
      (hrest.moves_complete c).1.develops hrest.sound
    have hanswered : Session.Answered sources s told { t with channel := others } :=
      a.answered.outside t.sync t.fetcher others
    have hsetting : Session.SameSetting t { t with channel := others } := ⟨rfl, rfl, rfl, rfl, rfl⟩
    refine a.put (hanswered.complete hrest (a.setting.sync.trans sync) outbox fun hp => ?_)
      (hsetting.trans hdevelops.setting) (fun id l hl => (hdevelops.waiting id).subset hl) ?_
    · exact answers t a.session c (by rw [hc]; exact List.mem_cons_self) hp
    · by_cases hp : c.unit ∈ t.pending
      · -- Nobody has been told anything yet, so no note can change with the namespace.
        obtain ⟨rfl, -⟩ := a.answered.grown_of_pending outbox (List.ne_nil_of_mem hp)
        rfl
      · rw [Session.complete_of_not_pending (s := { t with channel := others }) hp]
        rfl

theorem Attends.poll (a : Attends sources loader s before h [] quiet told t) (rest : t.AtRest)
    (sync : s.sync = false) (outbox : s.outbox = []) (answers : h.AnswersFrom sources loader)
    (taken : Nat) : ∃ tasks t',
      Attends sources loader s before (h.perform (.poll loader taken)) [] tasks told t' := by
  simp only [Host.perform, a.session, Option.bind_some]
  cases hr : t.receive? with
  | none => exact ⟨_, _, a.answer _⟩
  | some t' =>
    exact ⟨_, _, (a.receive hr rest sync outbox answers).first (by simp [Task.polls])⟩

theorem Attends.respond (a : Attends sources loader s before h [] quiet told t) (address : String)
    (result : Except FetchError String) : ∃ t',
      Attends sources loader s before (h.put loader (t.respond address result).2) [] quiet told
        t' := by
  simp only [Session.respond]
  split
  · exact ⟨_, a.put_outside t.fetcher t.channel⟩
  · exact ⟨_, a.put_outside _ _⟩

theorem Attends.supply (a : Attends sources loader s before h [] quiet told t) (r : Supply) :
    ∃ t', Attends sources loader s before (h.supply loader t r) [] quiet told t' := by
  cases r with
  | release address =>
    rcases hp : t.fetcher.parked.partition (·.address = address) with ⟨now, later⟩
    simp only [Host.supply, Session.release, hp]
    exact ⟨_, (a.put_outside _ _).answer _⟩
  | releaseAll => exact ⟨_, (a.put_outside _ _).answer _⟩
  | insert address text => exact ⟨_, (a.put_outside _ _).answer _⟩
  | respond address result =>
    obtain ⟨t', ht⟩ := a.respond address result
    exact ⟨t', ht.answer _⟩
  | forget address =>
    obtain ⟨t', ht⟩ := a.respond address (.error (.abandoned address))
    exact ⟨t', ht.answer _⟩
  | fetches address => exact ⟨_, a.answer _⟩
  | requests => exact ⟨_, a.answer _⟩

theorem Attends.request (a : Attends sources loader s before h [] quiet told t)
    {r : Request Value} (polls : r.polls = true) :
    ∃ tasks, Attends sources loader s before (h.request loader t r) [] tasks told t := by
  cases r with
  | poll => exact ⟨_, a.first (by simp [Task.polls])⟩
  | runUntilIdle => exact ⟨_, a.first (by simp [Task.polls])⟩
  | tryUntilIdle =>
    simp only [Host.request]
    split
    · exact ⟨_, a.first (by simp [Task.polls])⟩
    · exact ⟨_, a.answer _⟩
  | runUntilQuiet => exact ⟨_, a.first (by simp [Task.polls])⟩
  | countUntilQuiet => exact ⟨_, a.first (by simp [Task.polls])⟩
  | drain => exact ⟨_, a.first (by simp [Task.polls])⟩
  | _ => cases polls

theorem Attends.carryOut (a : Attends sources loader s before h [] quiet told t)
    {step : Step Value} (polls : step.polls loader = true) : ∃ tasks t',
      Attends sources loader s before (h.carryOut step) [] tasks told t' := by
  cases step with
  | supply l r =>
    obtain rfl : l = loader := by simpa [Step.polls] using polls
    simp only [Host.carryOut, a.session]
    exact ⟨_, a.supply r⟩
  | request l r =>
    obtain ⟨rfl, hr⟩ : l = loader ∧ r.polls = true := by simpa [Step.polls] using polls
    obtain ⟨seat, hseat, rfl⟩ := Option.map_eq_some_iff.mp a.session
    simp only [Host.carryOut, withLoader, hseat]
    split
    · exact ⟨_, _, a.answer _⟩
    · obtain ⟨tasks, ht⟩ := a.request hr
      exact ⟨tasks, _, ht⟩
  | _ => cases polls

theorem Attends.perform (a : Attends sources loader s before h [] quiet told t)
    (rest : t.AtRest) (sync : s.sync = false) (outbox : s.outbox = [])
    (answers : h.AnswersFrom sources loader) {task : Task Value}
    (polls : task.polls loader = true) :
    ∃ due tasks told' t', Attends sources loader s before (h.perform task) due tasks told' t' := by
  cases task with
  | carryOut step =>
    obtain ⟨tasks, t', ht⟩ := a.carryOut polls
    exact ⟨[], tasks, told, t', ht⟩
  | flush l =>
    obtain rfl : l = loader := by simpa [Task.polls] using polls
    simp only [Host.perform, a.session, Option.map_some, Option.getD_some]
    exact a.flush
  | poll l taken =>
    obtain rfl : l = loader := by simpa [Task.polls] using polls
    obtain ⟨tasks, t', ht⟩ := a.poll rest sync outbox answers taken
    exact ⟨[], tasks, told, t', ht⟩
  | quiet l wait =>
    obtain rfl : l = loader := by simpa [Task.polls] using polls
    simp only [Host.perform, a.session]
    exact ⟨_, _, _, _, a.takeCount.answer _⟩
  | drain l rounds =>
    obtain rfl : l = loader := by simpa [Task.polls] using polls
    simp only [Host.perform, a.session]
    exact ⟨_, _, _, _, (a.put_outside _ _).first (by simp [Task.polls])⟩
  | drained l rounds released =>
    obtain rfl : l = loader := by simpa [Task.polls] using polls
    simp only [Host.perform]
    split
    · exact ⟨_, _, _, _, a.takeCount.answer _⟩
    · exact ⟨_, _, _, _, a.takeCount.first (by simp [Task.polls])⟩
  | _ => cases polls

theorem Attends.tick {ledger : List Registration}
    (a : Attends sources loader s before h due quiet told t) (run : Run ledger h)
    (sync : s.sync = false) (outbox : s.outbox = []) (answers : h.AnswersFrom sources loader) :
    ∃ due tasks told' t', Attends sources loader s before h.tick due tasks told' t' := by
  cases due with
  | cons task due => exact ⟨_, _, _, _, a.tell⟩
  | nil =>
    have hagenda : h.agenda = quiet := a.agenda
    cases quiet with
    | nil =>
      have hsame : h.tick = h := by simp only [Host.tick, hagenda]
      exact ⟨_, _, _, _, hsame ▸ a⟩
    | cons task quiet =>
      have htick : h.tick = ({ h with agenda := quiet } : Host Tree Value).perform task := by
        simp only [Host.tick, hagenda]
      have hpopped : Attends sources loader s before { h with agenda := quiet } [] quiet told t :=
        a.congr rfl rfl rfl fun other ho => a.polls other (List.mem_cons_of_mem _ ho)
      rw [htick]
      exact hpopped.perform (run.orderly.rest loader t a.session) sync outbox answers
        (a.polls task List.mem_cons_self)

theorem attends_start {ledger : List Registration} (run : Run ledger h) (rest : h.isAtRest = true)
    (session : h.session? loader = some s)
    (plain : s.ListensPlainly) :
    Attends sources loader s h.heard h [] [] [] s where
  session := session
  answered := .start (run.orderly.rest loader s session) sources
  agenda := List.isEmpty_iff.mp rest
  calls := by simp
  polls := by simp
  setting := .refl s
  plain := by
    intro id l hl
    have houtbox : s.outbox = [] :=
      run.orderly.outbox session (isDispatching_of_isAtRest rest loader)
    have hnone : s.queuedFor id = [] := by simp [Session.queuedFor, houtbox]
    rw [Session.waitingFor, hnone, List.append_nil, Session.listenersOf] at hl
    cases hu : s.cache.get? id with
    | none => simp [hu] at hl
    | some u => exact plain u (List.mem_of_getElem? hu) l (by simpa [hu] using hl)
  heard := rfl

theorem Polls.attends {ledger : List Registration} (polls : Polls sources loader h h')
    (run : Run ledger h) (rest : h.isAtRest = true) (session : h.session? loader = some s)
    (sync : s.sync = false)
    (plain : s.ListensPlainly) :
    ∃ due quiet told t, Attends sources loader s h.heard h' due quiet told t := by
  have houtbox : s.outbox = [] :=
    run.orderly.outbox session (isDispatching_of_isAtRest rest loader)
  induction polls with
  | start => exact ⟨_, _, _, _, attends_start run rest session plain⟩
  | @ask k before hrest step hpolls ih =>
    obtain ⟨due, quiet, told, t, a⟩ := ih
    have hnone : due ++ quiet = [] := a.agenda.symm.trans (List.isEmpty_iff.mp hrest)
    obtain ⟨rfl, rfl⟩ := List.append_eq_nil_iff.mp hnone
    exact ⟨_, _, _, _, a.first (by simpa [Task.polls] using hpolls)⟩
  | @tick k before answers ih =>
    obtain ⟨due, quiet, told, t, a⟩ := ih
    obtain ⟨more, hk⟩ := before.run run
    exact a.tick hk sync houtbox answers
  | collect before replies ih =>
    obtain ⟨due, quiet, told, t, a⟩ := ih
    exact ⟨_, _, _, _, a.congr rfl rfl a.agenda a.polls⟩

/-- At the end everything that listeners are to be told has been told. -/
theorem Attends.ends {ledger : List Registration}
    (a : Attends sources loader s before h due quiet told t) (run : Run ledger h)
    (rest : h.isAtRest = true) :
    t.outbox = [] ∧ h.heard = before ++ (tells loader told).filterMap t.note? := by
  have hnone : due ++ quiet = [] := a.agenda.symm.trans (List.isEmpty_iff.mp rest)
  obtain ⟨rfl, rfl⟩ := List.append_eq_nil_iff.mp hnone
  have hheard := a.heard
  rw [List.filterMap_nil, List.append_nil] at hheard
  exact ⟨run.orderly.outbox a.session (isDispatching_of_isAtRest rest loader), hheard⟩

theorem exportsOf_concur (c : Session.Concur s t t') (tools : t'.tools = t.tools)
    (baseAddress : t'.baseAddress = t.baseAddress) (address : String) :
    t'.exportsOf address = t.exportsOf address := by
  simp only [Session.exportsOf, Session.resolveAddress, Project.resolve, Build.moduleExports,
    Project.exportsOf, c.project.resolver, c.project.modules, tools, baseAddress, c.ns]

theorem note?_concur (c : Session.Concur s t t') (tools : t'.tools = t.tools)
    (baseAddress : t'.baseAddress = t.baseAddress) : t'.note? = t.note? := by
  funext task
  cases task with
  | tell loader unit listener outcome =>
    simp only [Session.note?, Session.noteFor, exportsOf_concur c tools baseAddress]
  | _ => rfl

/-- However the fetches of a loader were answered and taken one after another, its units
come to the same, and its listeners hear the same. -/
theorem Run.polls_concur [Text.Xid] {ledger : List Registration} {sources : Sources} {loader : Nat}
    {h k k' : Host Program UnitLoader.Value}
    {s t t' : Session Program UnitLoader.Value (Listener UnitLoader.Value)} (run : Run ledger h)
    (rest : h.isAtRest = true) (session : h.session? loader = some s)
    (tools : s.tools = Lang.toolchain) (sync : s.sync = false)
    (plain : s.ListensPlainly)
    (polls : Polls sources loader h k) (ended : k.isAtRest = true)
    (found : k.session? loader = some t) (pending : t.pending = [])
    (polls' : Polls sources loader h k') (ended' : k'.isAtRest = true)
    (found' : k'.session? loader = some t') (pending' : t'.pending = []) :
    (Session.Concur s t t' ∧ k.heard = k'.heard) ∨
      (Session.EndsIn s t .error ∧ Session.EndsIn s t' .error) := by
  obtain ⟨more, hk⟩ := polls.run run
  obtain ⟨more', hk'⟩ := polls'.run run
  obtain ⟨due, quiet, told, m, a⟩ := polls.attends run rest session sync plain
  obtain ⟨due', quiet', told', m', a'⟩ := polls'.attends run rest session sync plain
  obtain rfl := Option.some.inj (a.session.symm.trans found)
  obtain rfl := Option.some.inj (a'.session.symm.trans found')
  obtain ⟨houtbox, hheard⟩ := a.ends hk ended
  obtain ⟨houtbox', hheard'⟩ := a'.ends hk' ended'
  have hconcur := a.answered.concur a'.answered (run.orderly.rest loader s session) tools pending
    pending'
  rw [houtbox, houtbox', List.append_nil, List.append_nil] at hconcur
  rcases hconcur with ⟨hconcur, htold⟩ | hfailed
  · have hnotes := note?_concur hconcur (a'.setting.tools.trans a.setting.tools.symm)
      (a'.setting.baseAddress.trans a.setting.baseAddress.symm)
    exact .inl ⟨hconcur, by rw [hheard, hheard', htold, hnotes]⟩
  · exact .inr hfailed

/-- One of two modules cannot be fetched. Whether this is known first or last, both fail. -/
theorem Run.polls_concur_failure : ∃ h k k' : Host Program UnitLoader.Value,
    ∃ s t t' : Session Program UnitLoader.Value (Listener UnitLoader.Value),
      Polls (Fetcher.answerFrom [("/a", .ok "")]) 0 h k ∧
        Polls (Fetcher.answerFrom [("/a", .ok "")]) 0 h k' ∧
          k.session? 0 = some t ∧ k'.session? 0 = some t' ∧
            ((Session.Concur s t t' ∧ k.heard = k'.heard) ∨
              (Session.EndsIn s t .error ∧ Session.EndsIn s t' .error)) := by
  have joined := Run.empty.join (.plain Lang.toolchain .default
    (.ofList [("/a", .ok "")] false)) false rfl
  have asked := (joined.ask (.request 0 (.load "/a" .module))).tick.tick.tick
  have run := (asked.ask (.request 0 (.load "/b" .module))).tick.tick.tick
  have start {ledger : List Registration} {h : Host Program UnitLoader.Value}
      (_ : Run ledger h) : Polls (Fetcher.answerFrom [("/a", .ok "")]) 0 h h := .start
  have late := ((((start run).step rfl (.supply 0 (.release "/a")) rfl 1 (by decide +kernel)).step
    rfl (.request 0 .poll) rfl 6 (by decide +kernel)).step (by decide +kernel)
      (.supply 0 (.release "/b")) rfl 1 (by decide +kernel)).step (by decide +kernel)
        (.request 0 .poll) rfl 6 (by decide +kernel)
  have early := ((start run).step rfl (.supply 0 (.release "/b")) rfl 1 (by decide +kernel)).step
    rfl (.request 0 .poll) rfl 6 (by decide +kernel)
  have concur := run.polls_concur rfl rfl rfl rfl (by decide +kernel) late (by decide +kernel)
    (Option.some_get (by decide +kernel)).symm (by decide +kernel) early rfl rfl rfl
  exact ⟨_, _, _, _, _, _, late, early, (Option.some_get _).symm, rfl, concur⟩

end Host

end UnitLoader
