import UnitLoader.Proofs.HostRun

/-! What a host keeps in order between any two tasks. All its sessions are at rest, and
each listener that was accepted was called, or is among the tasks, or waits for its unit;
it is at one of these places only. -/

namespace UnitLoader

variable {Tree Value : Type}

def Note.call? : Note Value → Option (Registration × Outcome Value)
  | .told loader unit label outcome => some (⟨loader, unit, label⟩, outcome)
  | .imported loader unit label _ value _ => some (⟨loader, unit, label⟩, .complete value)
  | _ => none

def Task.call? : Task Value → Option (Registration × Outcome Value)
  | .tell loader unit listener outcome => some (⟨loader, unit, listener.label⟩, outcome)
  | _ => none

/-- The labels registered with a unit, as often as they were. -/
def labelsFor (loader : Nat) (unit : UnitId) (registrations : List Registration) : List String :=
  (registrations.filter fun r => r.loader = loader ∧ r.unit = unit).map (·.label)

@[simp] theorem labelsFor_nil (loader : Nat) (unit : UnitId) : labelsFor loader unit [] = [] := rfl

@[simp] theorem labelsFor_append (loader : Nat) (unit : UnitId) (rs rs' : List Registration) :
    labelsFor loader unit (rs ++ rs') = labelsFor loader unit rs ++ labelsFor loader unit rs' := by
  simp [labelsFor]

namespace Host

def called (h : Host Tree Value) : List (Registration × Outcome Value) :=
  h.log.filterMap Note.call?

def due (h : Host Tree Value) : List (Registration × Outcome Value) :=
  h.agenda.filterMap Task.call?

def waitingLabels (h : Host Tree Value) (loader : Nat) (unit : UnitId) : List String :=
  ((h.session? loader).map fun s => (s.waitingFor unit).map (·.label)).getD []

/-- What holds between any two tasks. -/
structure Orderly (ledger : List Registration) (h : Host Tree Value) : Prop where
  rest : ∀ loader s, h.session? loader = some s → s.AtRest
  shown : ∀ call ∈ h.called ++ h.due, ∃ s, h.session? call.1.loader = some s ∧
    s.Shows call.1.unit call.2
  flush : ∀ loader s, h.session? loader = some s → s.outbox ≠ [] → .flush loader ∈ h.agenda
  ledger : ∀ loader unit, (labelsFor loader unit ledger).Perm
    (labelsFor loader unit (h.called.map (·.1)) ++ labelsFor loader unit (h.due.map (·.1)) ++
      h.waitingLabels loader unit)

variable {ledger : List Registration} {h h' : Host Tree Value}

theorem Orderly.congr (ho : Orderly ledger h)
    (sessions : ∀ loader, h'.session? loader = h.session? loader) (called : h'.called = h.called)
    (due : h'.due = h.due)
    (flush : ∀ loader, .flush loader ∈ h.agenda → .flush loader ∈ h'.agenda) :
    Orderly ledger h' where
  rest := fun loader s hs => ho.rest loader s (sessions loader ▸ hs)
  shown := by
    intro call hc
    rw [called, due] at hc
    simpa only [sessions] using ho.shown call hc
  flush := fun loader s hs hn => flush loader (ho.flush loader s (sessions loader ▸ hs) hn)
  ledger := by
    intro loader unit
    simp only [called, due, waitingLabels, sessions]
    exact ho.ledger loader unit

theorem Orderly.answer (ho : Orderly ledger h) (reply : Reply Value) :
    Orderly ledger (h.answer reply) :=
  ho.congr (fun _ => rfl) rfl rfl fun _ hm => hm

theorem Orderly.first (ho : Orderly ledger h) {tasks : List (Task Value)}
    (quiet : ∀ task ∈ tasks, task.call? = none) : Orderly ledger (h.first tasks) := by
  refine ho.congr (fun _ => rfl) rfl ?_ fun _ hm => List.mem_append_right _ hm
  have hnone : tasks.filterMap Task.call? = [] := List.filterMap_eq_nil_iff.mpr quiet
  simp [due, Host.first, List.filterMap_append, hnone]

theorem Orderly.pop {task : Task Value} {rest : List (Task Value)} (ho : Orderly ledger h)
    (agenda : h.agenda = task :: rest) (quiet : task.call? = none)
    (noFlush : ∀ loader, task ≠ .flush loader) : Orderly ledger { h with agenda := rest } := by
  refine ho.congr (fun _ => rfl) rfl ?_ fun loader hm => ?_
  · simp [due, agenda, quiet]
  · rw [agenda] at hm
    exact (List.mem_cons.mp hm).resolve_left fun he => noFlush loader he.symm

/-! ### Changing a session -/

theorem session?_put_self {loader : Nat} {s : Session Tree Value (Listener Value)}
    (hs : h.session? loader = some s) (t : Session Tree Value (Listener Value)) :
    (h.put loader t).session? loader = some t := by
  obtain ⟨seat, hseat, -⟩ := Option.map_eq_some_iff.mp hs
  simp [session?, put, getElem?_reseat_self hseat]

theorem session?_put {loader other : Nat} {t u : Session Tree Value (Listener Value)}
    (hu : (h.put loader t).session? other = some u) :
    (other = loader ∧ u = t) ∨
      (other ≠ loader ∧ ∃ s, h.session? other = some s ∧ Session.Outside s u) :=
  session?_reseat hu

theorem session?_put_of_session? {loader other : Nat} {s t u : Session Tree Value (Listener Value)}
    (hs : h.session? loader = some s) (hu : h.session? other = some u) :
    ∃ v, (h.put loader t).session? other = some v ∧
      ((other = loader ∧ v = t) ∨ (other ≠ loader ∧ Session.Outside u v)) := by
  by_cases hne : other = loader
  · subst hne
    exact ⟨t, session?_put_self hs t, .inl ⟨rfl, rfl⟩⟩
  · obtain ⟨seat, hseat, rfl⟩ := Option.map_eq_some_iff.mp hu
    rcases getElem?_reseat_of_ne (Ne.symm hne) t with he | he
    · exact ⟨seat.session, session?_eq (he.trans hseat), .inr ⟨hne, rfl⟩⟩
    · refine ⟨(share t seat).session, session?_eq (he.trans ?_), .inr ⟨hne, outside_share t seat⟩⟩
      rw [hseat, Option.map_some]

theorem called_put (loader : Nat) (t : Session Tree Value (Listener Value)) :
    (h.put loader t).called = h.called := by
  have hnone (events : List (Event Value)) :
      (events.map (Note.worked loader)).filterMap Note.call? = [] := by
    refine List.filterMap_eq_nil_iff.mpr fun note hn => ?_
    obtain ⟨event, -, rfl⟩ := List.mem_map.mp hn
    rfl
  simp only [called, put, List.filterMap_append, hnone, List.append_nil]

theorem waitingLabels_eq {loader : Nat} {s : Session Tree Value (Listener Value)}
    (hs : h.session? loader = some s) (unit : UnitId) :
    h.waitingLabels loader unit = (s.waitingFor unit).map (·.label) := by
  simp [waitingLabels, hs]

def registrations (loader : Nat) (registered : List (UnitId × Listener Value)) :
    List Registration :=
  registered.map fun r => ⟨loader, r.1, r.2.label⟩

theorem labelsFor_registrations (loader : Nat) (unit : UnitId)
    (registered : List (UnitId × Listener Value)) :
    labelsFor loader unit (registrations loader registered) =
      (Session.registeredFor registered unit).map (·.label) := by
  simp [labelsFor, registrations, Session.registeredFor, List.filter_map, Function.comp_def]

theorem labelsFor_registrations_of_ne {loader other : Nat} (hne : other ≠ loader) (unit : UnitId)
    (registered : List (UnitId × Listener Value)) :
    labelsFor other unit (registrations loader registered) = [] := by
  simp [labelsFor, registrations, List.filter_map, Function.comp_def, Ne.symm hne]

theorem outbox_of_outside {s t : Session Tree Value (Listener Value)}
    (h : Session.Outside s t) : t.outbox = s.outbox := by
  rw [h]

/-- What a change of a session leaves as it was at every seat. -/
theorem map_session?_put {α : Type} {loader : Nat} {s t : Session Tree Value (Listener Value)}
    (hs : h.session? loader = some s) {f : Session Tree Value (Listener Value) → α}
    (outside : ∀ u v, Session.Outside u v → f v = f u) {other : Nat}
    (same : other = loader → f t = f s) :
    ((h.put loader t).session? other).map f = (h.session? other).map f := by
  cases hu : h.session? other with
  | none =>
    cases hv : (h.put loader t).session? other with
    | none => rfl
    | some v =>
      rcases session?_put hv with ⟨rfl, -⟩ | ⟨-, u, hu', -⟩
      · exact absurd (hs.symm.trans hu) (by simp)
      · exact absurd (hu.symm.trans hu') (by simp)
  | some u =>
    obtain ⟨v, hv, ⟨he, rfl⟩ | ⟨-, hout⟩⟩ := session?_put_of_session? (t := t) hs hu
    · rw [he] at hu
      obtain rfl := Option.some.inj (hs.symm.trans hu)
      simp [hv, same he]
    · simp [hv, outside u v hout]

theorem waitingLabels_put_of_ne {loader other : Nat} {s : Session Tree Value (Listener Value)}
    (hs : h.session? loader = some s) (t : Session Tree Value (Listener Value))
    (hne : other ≠ loader) (unit : UnitId) :
    (h.put loader t).waitingLabels other unit = h.waitingLabels other unit := by
  simp only [waitingLabels]
  rw [map_session?_put hs (fun u v hout => ?_) fun he => absurd he hne]
  rw [Session.waitingFor_eq (Session.listenersOf_of_units (by rw [hout]) unit)
    (outbox_of_outside hout)]

/-- A session is changed, and whatever it has in its outbox is going to be flushed. -/
theorem Orderly.put (ho : Orderly ledger h) {loader : Nat}
    {s t : Session Tree Value (Listener Value)} {registered : List (UnitId × Listener Value)}
    (hs : h.session? loader = some s) (hserves : s.Serves t registered)
    {tasks : List (Task Value)} (quiet : ∀ task ∈ tasks, task.call? = none)
    (flush : t.outbox = s.outbox ∨ .flush loader ∈ tasks) :
    Orderly (ledger ++ registrations loader registered) ((h.put loader t).first tasks) := by
  have hdue : ((h.put loader t).first tasks).due = h.due := by
    have hnone : tasks.filterMap Task.call? = [] := List.filterMap_eq_nil_iff.mpr quiet
    simp only [due, Host.first, Host.put, List.filterMap_append, hnone, List.nil_append]
  have hcalled : ((h.put loader t).first tasks).called = h.called := called_put loader t
  have hserved (other : Nat) (u v : Session Tree Value (Listener Value))
      (hu : h.session? other = some u) (hv : (other = loader ∧ v = t) ∨
        (other ≠ loader ∧ Session.Outside u v)) : ∃ registered, u.Serves v registered := by
    rcases hv with ⟨rfl, rfl⟩ | ⟨-, hout⟩
    · obtain rfl := Option.some.inj (hs.symm.trans hu)
      exact ⟨_, hserves⟩
    · exact ⟨_, (ho.rest other u hu).serves_of_outside hout⟩
  refine ⟨fun other v hv => ?_, fun call hc => ?_, fun other v hv hn => ?_, fun other unit => ?_⟩
  · rcases session?_put hv with ⟨-, rfl⟩ | ⟨hne, u, hu, hout⟩
    · exact hserves.rest
    · exact ((ho.rest other u hu).serves_of_outside hout).rest
  · rw [hcalled, hdue] at hc
    obtain ⟨u, hu, hshow⟩ := ho.shown call hc
    obtain ⟨v, hv, hcases⟩ := session?_put_of_session? (t := t) hs hu
    obtain ⟨_, hsv⟩ := hserved _ u v hu hcases
    exact ⟨v, hv, hsv.shows _ _ hshow⟩
  · rcases session?_put hv with ⟨rfl, rfl⟩ | ⟨hne, u, hu, hout⟩
    · rcases flush with he | hm
      · exact List.mem_append_right _ (ho.flush other s hs (he ▸ hn))
      · exact List.mem_append_left _ hm
    · exact List.mem_append_right _ (ho.flush other u hu (outbox_of_outside hout ▸ hn))
  · have hledger := ho.ledger other unit
    rw [hcalled, hdue, labelsFor_append]
    by_cases hne : other = loader
    · subst hne
      have hwait : (((h.put other t).first tasks).waitingLabels other unit).Perm
          (h.waitingLabels other unit ++ (Session.registeredFor registered unit).map (·.label)) := by
        have hself : ((h.put other t).first tasks).session? other = some t :=
          session?_put_self hs t
        rw [waitingLabels_eq hself, waitingLabels_eq hs, ← List.map_append]
        exact (hserves.waiting unit).map _
      rw [labelsFor_registrations]
      refine ((hledger.append_right _).trans ?_).trans (List.Perm.append_left _ hwait.symm)
      rw [List.append_assoc]
    · have hwait : ((h.put loader t).first tasks).waitingLabels other unit =
          h.waitingLabels other unit := waitingLabels_put_of_ne hs t hne unit
      rw [labelsFor_registrations_of_ne hne, List.append_nil, hwait]
      exact hledger

/-! ### Flushing and telling -/

theorem atRest_emptied {s : Session Tree Value (Listener Value)} (h : s.AtRest) :
    Session.AtRest { s with outbox := [] } where
  sound :=
    { fits := fun id u hu =>
        let hf := h.sound.fits id u hu
        ⟨hf.proper, hf.pending, hf.cancellable, hf.ahead, hf.loaded, hf.loading⟩
      nodup := h.sound.nodup
      known := h.sound.known
      hand := h.sound.hand
      outbox := fun _ hn => by cases hn }
  closed := h.closed
  linked := h.linked

/-- The calls that notices lead to. -/
def tells (loader : Nat) (outbox : List (Notification Value (Listener Value))) :
    List (Task Value) :=
  outbox.flatMap fun n => n.listeners.map fun l => .tell loader n.unit l n.outcome

theorem mem_calls_of_tells {loader : Nat} {outbox : List (Notification Value (Listener Value))}
    {call : Registration × Outcome Value}
    (hc : call ∈ (tells loader outbox).filterMap Task.call?) :
    call.1.loader = loader ∧ ∃ n ∈ outbox, call.1.unit = n.unit ∧ call.2 = n.outcome := by
  obtain ⟨task, ht, hcall⟩ := List.mem_filterMap.mp hc
  obtain ⟨n, hn, hm⟩ := List.mem_flatMap.mp ht
  obtain ⟨l, -, rfl⟩ := List.mem_map.mp hm
  obtain rfl := Option.some.inj hcall
  exact ⟨rfl, n, hn, rfl, rfl⟩

theorem labelsFor_tells (loader : Nat) (unit : UnitId)
    (outbox : List (Notification Value (Listener Value))) :
    labelsFor loader unit (((tells loader outbox).filterMap Task.call?).map (·.1)) =
      ((outbox.filter (·.unit = unit)).flatMap (·.listeners)).map (·.label) := by
  induction outbox with
  | nil => rfl
  | cons n outbox ih =>
    have hhead : labelsFor loader unit
        (((n.listeners.map fun l => Task.tell loader n.unit l n.outcome).filterMap
          Task.call?).map (·.1)) =
        if n.unit = unit then n.listeners.map (·.label) else [] := by
      by_cases hu : n.unit = unit
      · simp [labelsFor, List.filterMap_map, Function.comp_def, Task.call?, hu, List.filter_map]
      · simp [labelsFor, List.filterMap_map, Function.comp_def, Task.call?, hu, List.filter_map]
    simp only [tells, List.flatMap_cons, List.filterMap_append, List.map_append,
      labelsFor_append] at ih ⊢
    rw [hhead, ih]
    by_cases hu : n.unit = unit <;> simp [hu]

theorem labelsFor_tells_of_ne {loader other : Nat} (hne : other ≠ loader) (unit : UnitId)
    (outbox : List (Notification Value (Listener Value))) :
    labelsFor other unit (((tells loader outbox).filterMap Task.call?).map (·.1)) = [] := by
  simp only [labelsFor, List.map_eq_nil_iff, List.filter_eq_nil_iff]
  intro r hr
  obtain ⟨call, hc, rfl⟩ := List.mem_map.mp hr
  simp [(mem_calls_of_tells hc).1, Ne.symm hne]

theorem Orderly.skip_flush {loader : Nat} {rest : List (Task Value)} (ho : Orderly ledger h)
    (agenda : h.agenda = .flush loader :: rest)
    (hs : ∀ s, h.session? loader = some s → s.outbox = []) :
    Orderly ledger { h with agenda := rest } where
  rest := ho.rest
  shown := by
    have hdue : ({ h with agenda := rest } : Host Tree Value).due = h.due := by
      simp only [due, agenda, List.filterMap_cons_none (rfl : Task.call? (.flush loader) = none)]
    rw [hdue]
    exact ho.shown
  flush := by
    intro other s hs' hn
    have hm := ho.flush other s hs' hn
    rw [agenda] at hm
    rcases List.mem_cons.mp hm with he | hm
    · obtain rfl := Task.flush.inj he
      exact absurd (hs s hs') hn
    · exact hm
  ledger := by
    have hdue : ({ h with agenda := rest } : Host Tree Value).due = h.due := by
      simp only [due, agenda, List.filterMap_cons_none (rfl : Task.call? (.flush loader) = none)]
    rw [hdue]
    exact ho.ledger

theorem Orderly.flushed {loader : Nat} (ho : Orderly ledger h) (h' : Host Tree Value)
    (seats : h'.seats = h.seats) (log : h'.log = h.log)
    (agenda : h.agenda = .flush loader :: h'.agenda)
    {s : Session Tree Value (Listener Value)} (hs : h'.session? loader = some s)
    (hn : s.outbox ≠ []) : Orderly ledger (h'.flush loader s) := by
  have hsession (other : Nat) : h.session? other = h'.session? other := by simp [session?, seats]
  obtain ⟨t, ht⟩ : ∃ t, t = { s with outbox := [] } := ⟨_, rfl⟩
  have hform : h'.flush loader s =
      (h'.put loader t).first (tells loader s.outbox ++ [.flush loader]) := by
    obtain ⟨n, ns, hcons⟩ := List.exists_cons_of_ne_nil hn
    simp only [Host.flush, hcons, ht]
    rfl
  have hcalled : ((h'.put loader t).first (tells loader s.outbox ++ [.flush loader])).called =
      h.called := (called_put loader t).trans (by simp [called, log])
  have hdue : ((h'.put loader t).first (tells loader s.outbox ++ [.flush loader])).due =
      (tells loader s.outbox).filterMap Task.call? ++ h.due := by
    simp only [due, Host.first, Host.put, agenda, List.filterMap_append, List.append_assoc,
      List.filterMap_cons_none (rfl : Task.call? (.flush loader) = none), List.filterMap_nil,
      List.nil_append]
  have hrest := ho.rest loader s (hsession loader ▸ hs)
  rw [hform]
  refine ⟨fun other v hv => ?_, fun call hc => ?_, fun other v hv hne => ?_, fun other unit => ?_⟩
  · rcases session?_put hv with ⟨-, rfl⟩ | ⟨-, u, hu, hout⟩
    · exact ht ▸ atRest_emptied hrest
    · exact ((ho.rest other u (hsession other ▸ hu)).serves_of_outside hout).rest
  · have hshown : ∃ u, h'.session? call.1.loader = some u ∧ u.Shows call.1.unit call.2 := by
      simp only [hcalled, hdue, List.mem_append] at hc
      rcases hc with hc | hc | hc
      · simpa only [hsession] using ho.shown call (List.mem_append_left _ hc)
      · obtain ⟨hl, n, hn, hu, hout⟩ := mem_calls_of_tells hc
        rw [hl, hu, hout]
        exact ⟨s, hs, hrest.sound.outbox n hn⟩
      · simpa only [hsession] using ho.shown call (List.mem_append_right _ hc)
    obtain ⟨u, hu, hshow⟩ := hshown
    obtain ⟨v, hv, ⟨hl, rfl⟩ | ⟨-, hout⟩⟩ := session?_put_of_session? (t := t) hs hu
    · rw [hl] at hu
      obtain rfl := Option.some.inj (hs.symm.trans hu)
      exact ⟨v, hv, hshow.of_units (by rw [ht])⟩
    · exact ⟨v, hv, ((ho.rest _ u (hsession _ ▸ hu)).serves_of_outside hout).shows _ _ hshow⟩
  · rcases session?_put hv with ⟨-, rfl⟩ | ⟨hother, u, hu, hout⟩
    · exact absurd (by rw [ht]) hne
    · have hm := ho.flush other u (hsession other ▸ hu) (outbox_of_outside hout ▸ hne)
      rw [agenda] at hm
      rcases List.mem_cons.mp hm with he | hm
      · exact absurd (Task.flush.inj he) hother
      · exact List.mem_append_right _ hm
  · have hledger := ho.ledger other unit
    simp only [hcalled, hdue, List.map_append, labelsFor_append]
    by_cases hne : other = loader
    · subst hne
      have hself : ((h'.put other t).first (tells other s.outbox ++ [.flush other])).session? other =
          some t := session?_put_self hs t
      have hwaiting : t.waitingFor unit = s.listenersOf unit := by
        simp [Session.waitingFor, Session.queuedFor, Session.listenersOf, ht]
      rw [waitingLabels_eq hself, hwaiting, labelsFor_tells]
      rw [waitingLabels_eq ((hsession other).trans hs), Session.waitingFor, List.map_append,
        Session.queuedFor] at hledger
      rw [List.perm_iff_count] at hledger ⊢
      intro label
      have := hledger label
      simp only [List.count_append] at this ⊢
      omega
    · have hwait : ((h'.put loader t).first (tells loader s.outbox ++
          [.flush loader])).waitingLabels other unit = h.waitingLabels other unit :=
        (waitingLabels_put_of_ne hs t hne unit).trans (by simp [waitingLabels, hsession])
      rw [labelsFor_tells_of_ne hne, List.nil_append, hwait]
      exact hledger

theorem Orderly.told {loader : Nat} {unit : UnitId} {listener : Listener Value}
    {outcome : Outcome Value} (ho : Orderly ledger h) (h' : Host Tree Value)
    (seats : h'.seats = h.seats) (log : h'.log = h.log)
    (agenda : h.agenda = .tell loader unit listener outcome :: h'.agenda) :
    Orderly ledger (h'.tell loader unit listener outcome) := by
  have hnote : (h'.noteFor loader unit listener outcome).call? =
      some (⟨loader, unit, listener.label⟩, outcome) := by
    simp only [noteFor]
    split <;> rfl
  have hcalled : (h'.tell loader unit listener outcome).called =
      h.called ++ [(⟨loader, unit, listener.label⟩, outcome)] := by
    simp [called, Host.tell, Host.first, log, List.filterMap_append, hnote]
  have hquiet : (listener.followUps.flatMap fun step => [.carryOut step, .note]).filterMap
      (Task.call? : Task Value → _) = [] := by
    refine List.filterMap_eq_nil_iff.mpr fun task ht => ?_
    obtain ⟨step, -, hm⟩ := List.mem_flatMap.mp ht
    rcases List.mem_cons.mp hm with rfl | hm
    · rfl
    · rw [List.mem_singleton.mp hm]
      rfl
  have hdue : h.due = (⟨loader, unit, listener.label⟩, outcome) ::
      (h'.tell loader unit listener outcome).due := by
    simp only [due, agenda, Host.tell, Host.first, List.filterMap_append, hquiet, List.nil_append]
    rfl
  have hsession (other : Nat) :
      (h'.tell loader unit listener outcome).session? other = h.session? other := by
    simp [session?, Host.tell, Host.first, seats]
  refine ⟨fun other s hs => ho.rest other s (hsession other ▸ hs), fun call hc => ?_,
    fun other s hs hn => ?_, fun other j => ?_⟩
  · rw [hsession]
    refine ho.shown call ?_
    rw [hcalled] at hc
    rw [hdue]
    simpa only [List.append_assoc, List.singleton_append] using hc
  · have hm := ho.flush other s (hsession other ▸ hs) hn
    rw [agenda] at hm
    rcases List.mem_cons.mp hm with he | hm
    · cases he
    · exact List.mem_append_right _ hm
  · have hledger := ho.ledger other j
    have hwait : (h'.tell loader unit listener outcome).waitingLabels other j =
        h.waitingLabels other j := by simp [waitingLabels, hsession]
    rw [hwait, hcalled]
    rw [hdue] at hledger
    simp only [List.map_append, List.map_cons, List.map_nil, labelsFor_append,
      List.append_assoc] at hledger ⊢
    rw [← List.singleton_append, labelsFor_append] at hledger
    simpa only [List.append_assoc] using hledger

/-! ### Carrying out steps -/

theorem Orderly.put_quiet (ho : Orderly ledger h) {loader : Nat}
    {s t : Session Tree Value (Listener Value)} (hs : h.session? loader = some s)
    (hserves : s.Serves t []) {tasks : List (Task Value)}
    (quiet : ∀ task ∈ tasks, task.call? = none)
    (flush : t.outbox = s.outbox ∨ .flush loader ∈ tasks) :
    Orderly ledger ((h.put loader t).first tasks) := by
  simpa [registrations] using ho.put hs hserves quiet flush

theorem Orderly.put_outside (ho : Orderly ledger h) {loader : Nat}
    {s t : Session Tree Value (Listener Value)} (hs : h.session? loader = some s)
    (hout : s.Outside t) {tasks : List (Task Value)} (quiet : ∀ task ∈ tasks, task.call? = none) :
    Orderly ledger ((h.put loader t).first tasks) :=
  ho.put_quiet hs ((ho.rest loader s hs).serves_of_outside hout) quiet
    (.inl (outbox_of_outside hout))

theorem Orderly.put_only (ho : Orderly ledger h) {loader : Nat}
    {s t : Session Tree Value (Listener Value)} (hs : h.session? loader = some s)
    (hout : s.Outside t) : Orderly ledger (h.put loader t) := by
  have hnil : ∀ task ∈ ([] : List (Task Value)), task.call? = none := by simp
  exact ho.put_outside hs hout hnil

theorem Orderly.request (ho : Orderly ledger h) {loader : Nat}
    {s : Session Tree Value (Listener Value)} (hs : h.session? loader = some s)
    (r : Request Value) : Orderly ledger (h.request loader s r) := by
  have hrest := ho.rest loader s hs
  cases r with
  | load address kind =>
    obtain ⟨m, hm⟩ := hrest.steps_load address kind
    exact ho.put_quiet hs (hrest.serves_of_steps hm) (by simp [Task.call?]) (.inr (by simp))
  | loadSync address kind =>
    obtain ⟨m, last, hm⟩ := hrest.steps_loadSync address kind
    exact ho.put_quiet hs (hrest.serves_of_steps hm) (by simp [Task.call?]) (.inr (by simp))
  | eval code =>
    obtain ⟨m, hm⟩ := hrest.steps_eval code none
    exact ho.put_quiet hs (hrest.serves_of_steps hm) (by simp [Task.call?]) (.inr (by simp))
  | define name value =>
    simp only [Host.request]
    split
    · exact ho.answer _
    · next t defined =>
      have hout : s.Outside t := by
        rw [(Session.define_eq_some defined).2]
        rfl
      exact (ho.put_only hs hout).answer _
  | poll => exact ho.first (by simp [Task.call?])
  | runUntilIdle => exact ho.first (by simp [Task.call?])
  | tryUntilIdle =>
    simp only [Host.request]
    split
    · exact ho.first (by simp [Task.call?])
    · exact ho.answer _
  | runUntilQuiet => exact ho.first (by simp [Task.call?])
  | countUntilQuiet => exact ho.first (by simp [Task.call?])
  | drain => exact ho.first (by simp [Task.call?])
  | ask question => exact ho.answer _

theorem outside_release (s : Session Tree Value (Listener Value)) (address : String) :
    s.Outside (s.release address).2 := by
  rcases hp : s.fetcher.parked.partition (·.address = address) with ⟨now, later⟩
  simp only [Session.release, hp]
  rfl

theorem outside_respond (s : Session Tree Value (Listener Value)) (address : String)
    (result : Except FetchError String) : s.Outside (s.respond address result).2 := by
  simp only [Session.respond]
  split <;> rfl

theorem Orderly.supply (ho : Orderly ledger h) {loader : Nat}
    {s : Session Tree Value (Listener Value)} (hs : h.session? loader = some s) (r : Supply) :
    Orderly ledger (h.supply loader s r) := by
  cases r with
  | release address => exact (ho.put_only hs (outside_release s address)).answer _
  | releaseAll => exact (ho.put_only hs (t := s.releaseAll.2) rfl).answer _
  | insert address text =>
    exact (ho.put_only hs (t := { s with fetcher := s.fetcher.insert address text }) rfl).answer _
  | respond address result => exact (ho.put_only hs (outside_respond s address result)).answer _
  | forget address => exact (ho.put_only hs (outside_respond s address _)).answer _
  | fetches address => exact ho.answer _
  | requests => exact ho.answer _

theorem outbox_loadWith_of_error {s : Session Tree Value (Listener Value)} {address : String}
    {kind : Kind} {listener : Listener Value} {e : LoaderError}
    (he : (s.loadWith address kind listener).1 = .error e) :
    (s.loadWith address kind listener).2.outbox = s.outbox := by
  simp only [Session.loadWith] at he ⊢
  cases hok : (s.find address kind).session.addListener (s.find address kind).id listener with
  | error e => rfl
  | ok t => simp [hok] at he

theorem Orderly.loadWith (ho : Orderly ledger h) {loader : Nat}
    {s : Session Tree Value (Listener Value)} (hs : h.session? loader = some s) (address : String)
    (kind : Kind) (listener : Listener Value) :
    Orderly
      (ledger ++ ((s.loadWith address kind listener).1.toOption.map fun id =>
        (⟨loader, id, listener.label⟩ : Registration)).toList)
      (match s.loadWith address kind listener with
        | (.error e, s) => (h.put loader s).answer (.subscribed (.error e))
        | (.ok id, s) => (h.put loader s).first [.flush loader, .reply (.subscribed (.ok id))]) := by
  have hrest := ho.rest loader s hs
  obtain ⟨m, hm⟩ := hrest.steps_loadWith address kind listener
  have hserves := hrest.serves_of_steps hm
  have herror (e : LoaderError) (he : (s.loadWith address kind listener).1 = .error e) :=
    outbox_loadWith_of_error he
  generalize s.loadWith address kind listener = r at hserves herror ⊢
  obtain ⟨result, t⟩ := r
  cases result with
  | error e =>
    have hnil : ∀ task ∈ ([] : List (Task Value)), task.call? = none := by simp
    rw [show ((Except.error e : Except LoaderError UnitId).toOption.map fun id =>
      (⟨loader, id, listener.label⟩ : Registration)).toList = [] from rfl, List.append_nil]
    exact (ho.put_quiet hs hserves hnil (.inl (herror e rfl))).answer _
  | ok id => exact ho.put hs hserves (by simp [Task.call?]) (.inr (by simp))

theorem Orderly.subscribe (ho : Orderly ledger h) {loader : Nat}
    {s : Session Tree Value (Listener Value)} (hs : h.session? loader = some s) (label : String)
    (followUps : List (Step Value)) (subject : Subject) :
    Orderly (ledger ++ ((s.accepts label followUps subject).map fun id =>
      (⟨loader, id, label⟩ : Registration)).toList)
      (h.subscribe loader s label followUps subject) := by
  have hrest := ho.rest loader s hs
  cases subject with
  | load address kind => exact ho.loadWith hs address kind ⟨label, none, followUps⟩
  | module address =>
    exact ho.loadWith hs (s.resolveAddress address) .module
      ⟨label, some (s.resolveAddress address), followUps⟩
  | eval code =>
    obtain ⟨m, hm⟩ := hrest.steps_eval code (some ⟨label, none, followUps⟩)
    exact ho.put hs (hrest.serves_of_steps hm) (by simp [Task.call?]) (.inr (by simp))
  | unit id =>
    simp only [Host.subscribe, Session.accepts]
    cases ht : s.addListener id ⟨label, none, followUps⟩ with
    | error e =>
      rw [show ((Except.error e : Except LoaderError (Session Tree Value
        (Listener Value))).toOption.map fun _ => id) = none from rfl, Option.map_none,
        Option.toList_none, List.append_nil]
      exact ho.answer _
    | ok t =>
      have hout : t.outbox = s.outbox := by
        rcases s.addListener_cases id ⟨label, none, followUps⟩ with ⟨e, he, -⟩ | ⟨u, -, -, hok⟩
        · rw [he] at ht
          cases ht
        · obtain rfl := Except.ok.inj (hok.symm.trans ht)
          rfl
      have hnil : ∀ task ∈ ([] : List (Task Value)), task.call? = none := by simp
      exact (ho.put hs (hrest.serves_of_addListener ht) hnil (.inl hout)).answer _

theorem Orderly.carryOut (ho : Orderly ledger h) (step : Step Value) :
    Orderly (ledger ++ (h.registers step).toList) (h.carryOut step) := by
  have hwith {loader : Nat} {f : Session Tree Value (Listener Value) → Host Tree Value}
      (hf : ∀ s, h.session? loader = some s → Orderly ledger (f s)) :
      Orderly ledger (h.withLoader loader f) := by
    simp only [withLoader]
    cases hseat : h.seats[loader]? with
    | none => exact ho.answer _
    | some seat =>
      cases hd : seat.dropped with
      | true => simpa [hd] using ho.answer .dropped
      | false => simpa [hd] using hf seat.session (session?_eq hseat)
  cases step with
  | request loader r => simpa [registers, Host.carryOut] using hwith fun s hs => ho.request hs r
  | supply loader r =>
    simp only [registers, Host.carryOut, Option.toList_none, List.append_nil]
    cases hs : h.session? loader with
    | none => exact ho.answer _
    | some s => exact ho.supply hs r
  | subscribe loader subject label followUps =>
    simp only [registers, Host.carryOut, withLoader]
    cases hseat : h.seats[loader]? with
    | none => simpa using ho.answer .dropped
    | some seat =>
      cases hd : seat.dropped with
      | true => simpa [hd] using ho.answer .dropped
      | false => simpa [hd] using ho.subscribe (session?_eq hseat) label followUps subject
  | hold loader steps =>
    simp only [registers, Host.carryOut, Option.toList_none, List.append_nil]
    refine hwith fun s hs => ho.put_outside hs (t := { s with held := true }) rfl fun task ht => ?_
    rcases List.mem_append.mp ht with ht | ht
    · obtain ⟨step, -, rfl⟩ := List.mem_map.mp ht
      rfl
    · rw [List.mem_singleton.mp ht]
      rfl
  | drop loader =>
    simp only [registers, Host.carryOut, Option.toList_none, List.append_nil]
    have hgone : Orderly ledger { h with
        seats := h.seats.modify loader fun seat => { seat with dropped := true } } := by
      refine ho.congr (fun other => ?_) rfl rfl fun _ hm => hm
      simp only [session?, List.getElem?_modify]
      cases h.seats[other]? with
      | none => simp
      | some seat => by_cases hl : loader = other <;> simp [hl]
    exact hgone.answer _
  | isAlive loader => simpa [registers, Host.carryOut] using ho.answer _
  | unclear reason => simpa [registers, Host.carryOut] using ho.answer _

/-! ### Tasks -/

theorem Orderly.poll (ho : Orderly ledger h) (loader taken : Nat) :
    Orderly ledger (h.perform (.poll loader taken)) := by
  simp only [perform]
  cases hr : (h.session? loader).bind (·.receive?) with
  | none => exact ho.answer _
  | some t =>
    obtain ⟨s, hs, ht⟩ := Option.bind_eq_some_iff.mp hr
    obtain ⟨m, hm⟩ := (ho.rest loader s hs).steps_receive ht
    exact ho.put_quiet hs ((ho.rest loader s hs).serves_of_steps hm) (by simp [Task.call?])
      (.inr (by simp))

theorem Orderly.replies (ho : Orderly ledger h) (replies : List (Reply Value)) :
    Orderly ledger { h with replies := replies } :=
  ho.congr (fun _ => rfl) rfl rfl fun _ hm => hm

theorem Orderly.takeCount (ho : Orderly ledger h) : Orderly ledger h.takeCount.2 := by
  simp only [Host.takeCount]
  split
  · exact ho.replies _
  · exact ho

/-- Every task but a flush and a call keeps the order of things by itself. -/
theorem Orderly.perform (ho : Orderly ledger h) {task : Task Value} (quiet : task.call? = none)
    (noFlush : ∀ loader, task ≠ .flush loader) :
    Orderly (ledger ++ (h.registeredBy task).toList) (h.perform task) := by
  cases task with
  | carryOut step => exact ho.carryOut step
  | flush loader => exact absurd rfl (noFlush loader)
  | tell loader unit listener outcome => cases quiet
  | reply reply =>
    simp only [registeredBy, Option.toList_none, List.append_nil]
    exact ho.answer reply
  | settle loader id =>
    simp only [registeredBy, Option.toList_none, List.append_nil, Host.perform]
    cases h.session? loader with
    | none => exact ho
    | some s => exact ho.answer _
  | poll loader taken => simpa [registeredBy] using ho.poll loader taken
  | quiet loader wait =>
    simp only [registeredBy, Option.toList_none, List.append_nil, Host.perform]
    cases h.session? loader with
    | none => exact ho
    | some s => exact ho.takeCount.answer _
  | drain loader rounds =>
    simp only [registeredBy, Option.toList_none, List.append_nil, Host.perform]
    cases hs : h.session? loader with
    | none => exact ho
    | some s => exact ho.put_outside hs (t := s.releaseAll.2) rfl (by simp [Task.call?])
  | drained loader rounds released =>
    simp only [registeredBy, Option.toList_none, List.append_nil, Host.perform]
    have htaken := ho.takeCount
    generalize h.takeCount = r at htaken
    obtain ⟨taken, k⟩ := r
    simp only
    split
    · exact htaken.answer _
    · exact htaken.first (by simp [Task.call?])
  | note =>
    simp only [registeredBy, Option.toList_none, List.append_nil, Host.perform]
    cases h.replies with
    | nil => exact ho
    | cons reply rest =>
      refine ho.congr (fun _ => rfl) ?_ rfl fun _ hm => hm
      simp [called, List.filterMap_append, Note.call?]
  | letGo loader before steps =>
    simp only [registeredBy, Option.toList_none, List.append_nil, Host.perform]
    cases hs : h.session? loader with
    | none => exact ho
    | some s =>
      exact ((ho.put_only hs (t := { s with held := before }) rfl).replies _).answer _

theorem Orderly.tick (ho : Orderly ledger h) :
    Orderly (ledger ++ h.registration?.toList) h.tick := by
  cases ha : h.agenda with
  | nil => simpa [Host.tick, registration?, ha] using ho
  | cons task rest =>
    have htick : h.tick = ({ h with agenda := rest } : Host Tree Value).perform task := by
      simp only [Host.tick, ha]
    have hregistration : h.registration? =
        ({ h with agenda := rest } : Host Tree Value).registeredBy task := by
      simp only [registration?, ha, List.head?_cons, Option.bind_some]
      cases task <;> rfl
    rw [htick]
    by_cases hf : ∃ loader, task = .flush loader
    · obtain ⟨loader, rfl⟩ := hf
      rw [hregistration]
      simp only [registeredBy, Option.toList_none, List.append_nil, Host.perform]
      cases hs : ({ h with agenda := rest } : Host Tree Value).session? loader with
      | none => exact ho.skip_flush ha fun s hs' => absurd (hs.symm.trans hs') (by simp)
      | some s =>
        by_cases hn : s.outbox = []
        · have hsame : ({ h with agenda := rest } : Host Tree Value).flush loader s =
              { h with agenda := rest } := by
            simp only [Host.flush, hn]
          simp only [Option.map_some, Option.getD_some, hsame]
          refine ho.skip_flush ha fun t ht => ?_
          obtain rfl := Option.some.inj (hs.symm.trans ht)
          exact hn
        · exact ho.flushed { h with agenda := rest } rfl rfl ha hs hn
    · cases hq : task.call? with
      | none =>
        have hne : ∀ loader, task ≠ .flush loader := fun loader he => hf ⟨loader, he⟩
        rw [hregistration]
        exact (ho.pop ha hq hne).perform hq hne
      | some call =>
        cases task with
        | tell loader unit listener outcome =>
          rw [hregistration]
          simp only [registeredBy, Option.toList_none, List.append_nil]
          exact ho.told { h with agenda := rest } rfl rfl ha
        | _ => cases hq

/-! ### Joining -/

theorem Orderly.seated (ho : Orderly ledger h) {s : Session Tree Value (Listener Value)}
    (rest : s.AtRest) (outbox : s.outbox = []) (noListeners : ∀ unit, s.listenersOf unit = [])
    (sharing : Bool) :
    Orderly ledger { h with seats := h.seats ++ [⟨s, sharing, false⟩] } := by
  have hsession (loader : Nat) :
      ({ h with seats := h.seats ++ [⟨s, sharing, false⟩] } : Host Tree Value).session? loader =
        if loader = h.seats.length then some s else h.session? loader := by
    simp only [session?]
    by_cases he : loader = h.seats.length
    · simp [he]
    · rw [if_neg he]
      rcases Nat.lt_or_gt_of_ne he with hlt | hgt
      · rw [List.getElem?_append_left hlt]
      · have hlen : (h.seats ++ [Seat.mk s sharing false]).length ≤ loader := by
          rw [List.length_append, List.length_singleton]
          omega
        rw [List.getElem?_eq_none hlen, List.getElem?_eq_none (by omega)]
  have hnone : h.session? h.seats.length = none := by simp [session?]
  refine ⟨fun loader t ht => ?_, fun call hc => ?_, fun loader t ht hn => ?_, fun loader unit => ?_⟩
  · rw [hsession] at ht
    split at ht
    · exact Option.some.inj ht ▸ rest
    · exact ho.rest loader t ht
  · obtain ⟨t, ht, hshow⟩ := ho.shown call hc
    refine ⟨t, ?_, hshow⟩
    rw [hsession, if_neg, ht]
    intro he
    rw [he, hnone] at ht
    cases ht
  · rw [hsession] at ht
    split at ht
    · obtain rfl := Option.some.inj ht
      exact absurd outbox hn
    · exact ho.flush loader t ht hn
  · have hwait : ({ h with seats := h.seats ++ [⟨s, sharing, false⟩] } :
        Host Tree Value).waitingLabels loader unit = h.waitingLabels loader unit := by
      simp only [waitingLabels, hsession]
      split
      · rename_i he
        simp [he, hnone, Session.waitingFor, Session.queuedFor, noListeners, outbox]
      · rfl
    rw [hwait]
    exact ho.ledger loader unit

theorem Orderly.joined (ho : Orderly ledger h) {s : Session Tree Value (Listener Value)}
    (rest : s.AtRest) (outbox : s.outbox = []) (noListeners : ∀ unit, s.listenersOf unit = [])
    (sharing : Bool) : Orderly ledger
      { h with seats := reseat (h.seats ++ [⟨s, sharing, false⟩]) h.seats.length s } := by
  have hseated := ho.seated rest outbox noListeners sharing
  have hself : ({ h with seats := h.seats ++ [⟨s, sharing, false⟩] } :
      Host Tree Value).session? h.seats.length = some s := by
    simp [session?]
  have hcalled := called_put (h := { h with seats := h.seats ++ [⟨s, sharing, false⟩] })
    h.seats.length s
  exact (hseated.put_only hself (t := s) rfl).congr (fun _ => rfl) hcalled.symm rfl fun _ hm => hm

theorem Orderly.join (ho : Orderly ledger h) {setup : Setup Tree Value} {sharing : Bool}
    (joins : h.addLoader setup sharing = .ok h') : Orderly ledger h' := by
  simp only [addLoader, Setup.start] at joins
  cases hns : Setup.startNamespace setup.config
      (if sharing then some h.commonNamespace else none) with
  | error e =>
    rw [hns] at joins
    cases joins
  | ok ns =>
    rw [hns] at joins
    simp only [Except.map] at joins
    obtain rfl := Except.ok.inj joins
    exact ho.joined (Session.atRest_fresh ..) rfl (fun _ => rfl) sharing

theorem Run.orderly (run : Run ledger h) : Orderly ledger h := by
  induction run with
  | empty => exact ⟨by simp [session?, ofSeats], by simp [called, due, ofSeats],
      by simp [session?, ofSeats], by simp [called, due, waitingLabels, session?, ofSeats]⟩
  | join _ _ _ joins ih => exact ih.join joins
  | ask _ step ih => exact ih.first (by simp [Task.call?])
  | tick _ ih => exact ih.tick
  | collect _ _ ih => exact ih.replies _

end Host

end UnitLoader
