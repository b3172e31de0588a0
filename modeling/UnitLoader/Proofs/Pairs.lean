import UnitLoader.Proofs.Chronicle
import UnitLoader.Proofs.Matching

/-! Two hosts that are asked for the same, with sources that stand for each other. Task by task
their loaders stay alike, for as long as no analysis and no execution fails in either host. -/

namespace UnitLoader

variable {Tree Value : Type}

/-! ### Steps and tasks -/

/-- Supplies that differ in the texts they bring. -/
inductive Supply.Alike (R : String → String → Prop) : Supply → Supply → Prop
  | release (address : String) : Alike R (.release address) (.release address)
  | releaseAll : Alike R .releaseAll .releaseAll
  | insert (address : String) {text text' : String} (texts : R text text') :
      Alike R (.insert address text) (.insert address text')
  | respond (address : String) {result result' : Except FetchError String}
      (answers : AnswersAlike R result result') :
      Alike R (.respond address result) (.respond address result')
  | forget (address : String) : Alike R (.forget address) (.forget address)
  | fetches (address : Option String) : Alike R (.fetches address) (.fetches address)
  | requests : Alike R .requests .requests

/-- Steps that differ in the texts they supply. -/
inductive Step.Alike (R : String → String → Prop) : Step Value → Step Value → Prop
  | request (loader : Nat) (request : Request Value) :
      Alike R (.request loader request) (.request loader request)
  | supply (loader : Nat) {supply supply' : Supply} (supplies : supply.Alike R supply') :
      Alike R (.supply loader supply) (.supply loader supply')
  | subscribe (loader : Nat) (subject : Subject) (label : String)
      {followUps followUps' : List (Step Value)} (steps : List.Forall₂ (Alike R) followUps followUps') :
      Alike R (.subscribe loader subject label followUps) (.subscribe loader subject label followUps')
  | hold (loader : Nat) {steps steps' : List (Step Value)} (under : List.Forall₂ (Alike R) steps steps') :
      Alike R (.hold loader steps) (.hold loader steps')
  | drop (loader : Nat) : Alike R (.drop loader) (.drop loader)
  | isAlive (loader : Nat) : Alike R (.isAlive loader) (.isAlive loader)
  | unclear (reason : String) : Alike R (.unclear reason) (.unclear reason)

structure Listener.Alike (R : String → String → Prop) (l l' : Listener Value) : Prop where
  label : l.label = l'.label
  importedFrom : l.importedFrom = l'.importedFrom
  followUps : List.Forall₂ (Step.Alike R) l.followUps l'.followUps

/-- The number in a reply, which a drain goes by. -/
def Reply.number? : Reply Value → Option Nat
  | .count number => some number
  | _ => none

inductive Task.Alike (R : String → String → Prop) : Task Value → Task Value → Prop
  | carryOut {step step' : Step Value} (steps : step.Alike R step') :
      Alike R (.carryOut step) (.carryOut step')
  | flush (loader : Nat) : Alike R (.flush loader) (.flush loader)
  | tell (loader : Nat) (unit : UnitId) {l l' : Listener Value} (listeners : l.Alike R l')
      (outcome outcome' : Outcome Value) :
      Alike R (.tell loader unit l outcome) (.tell loader unit l' outcome')
  | reply {reply reply' : Reply Value} (replies : reply.number? = reply'.number?) :
      Alike R (.reply reply) (.reply reply')
  | settle (loader : Nat) (unit : UnitId) : Alike R (.settle loader unit) (.settle loader unit)
  | poll (loader taken : Nat) : Alike R (.poll loader taken) (.poll loader taken)
  | quiet (loader : Nat) (wait : Wait) : Alike R (.quiet loader wait) (.quiet loader wait)
  | drain (loader : Nat) (rounds : List (Nat × Nat)) :
      Alike R (.drain loader rounds) (.drain loader rounds)
  | drained (loader : Nat) (rounds : List (Nat × Nat)) (released : Nat) :
      Alike R (.drained loader rounds released) (.drained loader rounds released)
  | note : Alike R .note .note
  | letGo (loader : Nat) (before : Bool) (steps : Nat) :
      Alike R (.letGo loader before steps) (.letGo loader before steps)

/-! ### Hosts -/

structure Seat.Alike (R : String → String → Prop) (seat seat' : Seat Tree Value) : Prop where
  session : seat.session.Alike R (Listener.Alike R) seat'.session
  sharing : seat.sharing = seat'.sharing
  dropped : seat.dropped = seat'.dropped

namespace Host

/-- Hosts that have the same tasks before them, with loaders that are alike. -/
structure Alike (R : String → String → Prop) (h k : Host Tree Value) : Prop where
  seats : List.Forall₂ (Seat.Alike R) h.seats k.seats
  agenda : List.Forall₂ (Task.Alike R) h.agenda k.agenda
  replies : List.Forall₂ (fun r r' => r.number? = r'.number?) h.replies k.replies

/-- No stage behind parsing has reported an error at any loader. -/
def Untroubled (h : Host Tree Value) : Prop :=
  ∀ seat ∈ h.seats, seat.session.Untroubled

variable {R : String → String → Prop} {h k : Host Tree Value} {loader : Nat}
  {s s' t t' : Session Tree Value (Listener Value)}

theorem Alike.cases (alike : Alike R h k) (loader : Nat) :
    (h.seats[loader]? = none ∧ k.seats[loader]? = none) ∨ ∃ seat seat',
      h.seats[loader]? = some seat ∧ k.seats[loader]? = some seat' ∧ seat.Alike R seat' := by
  have hrel := forall₂_getElem? alike.seats loader
  generalize h.seats[loader]? = x, k.seats[loader]? = y at hrel
  cases hrel with
  | none => exact .inl ⟨rfl, rfl⟩
  | some hseat => exact .inr ⟨_, _, rfl, rfl, hseat⟩

theorem Alike.sessions (alike : Alike R h k) (loader : Nat) :
    (h.session? loader = none ∧ k.session? loader = none) ∨ ∃ s s',
      h.session? loader = some s ∧ k.session? loader = some s' ∧
        s.Alike R (Listener.Alike R) s' := by
  rcases alike.cases loader with ⟨hc, hd⟩ | ⟨seat, seat', hc, hd, hseat⟩
  · exact .inl ⟨by rw [session?, hc]; rfl, by rw [session?, hd]; rfl⟩
  · exact .inr ⟨_, _, session?_eq hc, session?_eq hd, hseat.session⟩

theorem Alike.answer (alike : Alike R h k) {r r' : Reply Value} (same : r.number? = r'.number?) :
    Alike R (h.answer r) (k.answer r') :=
  { alike with replies := .cons same alike.replies }

theorem Alike.first (alike : Alike R h k) {tasks tasks' : List (Task Value)}
    (same : List.Forall₂ (Task.Alike R) tasks tasks') : Alike R (h.first tasks) (k.first tasks') :=
  { alike with agenda := List.rel_append same alike.agenda }

theorem share_alike (hs : s.Alike R (Listener.Alike R) s') {seat seat' : Seat Tree Value}
    (hseat : seat.Alike R seat') : (share s seat).Alike R (share s' seat') := by
  by_cases shares : seat.sharing = true
  · rw [share, share, if_pos shares, if_pos (hseat.sharing.symm.trans shares), hs.held]
    exact { hseat with session := hseat.session.withNamespace s.ns s'.ns s'.held }
  · rw [share, share, if_neg shares, if_neg (hseat.sharing ▸ shares)]
    exact hseat

/-- All seats with a namespace in common see what a loader did to it. -/
theorem Alike.put (alike : Alike R h k) (loader : Nat) (hs : s.Alike R (Listener.Alike R) s') :
    Alike R (h.put loader s) (k.put loader s') where
  seats := by
    simp only [Host.put, reseat]
    rcases alike.cases loader with ⟨hc, hd⟩ | ⟨seat, seat', hc, hd, hseat⟩
    · simpa only [hc, hd] using alike.seats
    · simp only [hc, hd, List.set_eq_modify]
      refine forall₂_modify ?_ loader fun _ _ _ => { hseat with session := hs }
      rw [hseat.sharing]
      split
      · exact List.rel_map (R := Seat.Alike R) (fun _ _ => share_alike hs) alike.seats
      · exact alike.seats
  agenda := alike.agenda
  replies := alike.replies

theorem Untroubled.put (untroubled : (h.put loader t).Untroubled)
    (hs : h.session? loader = some s) : t.Untroubled := by
  obtain ⟨seat, hseat, rfl⟩ := seat_of_session? hs
  exact untroubled _ (List.mem_of_getElem? (getElem?_reseat_self hseat t))

/-! ### Steps -/

theorem Alike.request (alike : Alike R h k) (hs : h.session? loader = some s)
    (hs' : k.session? loader = some s') (both : s.Alike R (Listener.Alike R) s')
    (r : Request Value) (ht : (h.request loader s r).Untroubled)
    (ht' : (k.request loader s' r).Untroubled) :
    Alike R (h.request loader s r) (k.request loader s' r) := by
  cases r with
  | load address kind =>
    have hload := both.load address kind (Untroubled.put ht hs) (Untroubled.put ht' hs')
    exact (alike.put loader hload.2).first (.cons (.flush loader) (.cons (.reply rfl) .nil))
  | loadSync address kind =>
    have hload := both.loadSync address kind (Untroubled.put ht hs) (Untroubled.put ht' hs')
    rw [Host.request, Host.request, hload.1]
    exact (alike.put loader hload.2).first (.cons (.flush loader) (.cons (.settle loader _) .nil))
  | eval code =>
    have heval := both.eval code .nil (Untroubled.put ht hs) (Untroubled.put ht' hs')
    rw [Host.request, Host.request, heval.1]
    exact (alike.put loader heval.2).first (.cons (.flush loader) (.cons (.settle loader _) .nil))
  | define name value =>
    rcases both.define name value with ⟨hnone, hnone'⟩ | ⟨t, t', hsome, hsome', hdefined⟩
    · simp only [Host.request, hnone, hnone']
      exact alike.answer rfl
    · simp only [Host.request, hsome, hsome']
      exact (alike.put loader hdefined).answer rfl
  | poll => exact alike.first (.cons (.poll loader 0) .nil)
  | runUntilIdle => exact alike.first (.cons (.poll loader 0) (.cons (.quiet loader _) .nil))
  | tryUntilIdle =>
    have hidle : s.isIdle = s'.isIdle := by rw [Session.isIdle, both.pending, Session.isIdle]
    rw [Host.request, Host.request, hidle, both.fetcher.prompt]
    split
    · exact alike.first (.cons (.poll loader 0) (.cons (.quiet loader _) .nil))
    · exact alike.answer rfl
  | runUntilQuiet => exact alike.first (.cons (.poll loader 0) (.cons (.quiet loader _) .nil))
  | countUntilQuiet => exact alike.first (.cons (.poll loader 0) (.cons (.quiet loader _) .nil))
  | drain => exact alike.first (.cons (.drain loader []) .nil)
  | ask question => exact alike.answer rfl

theorem Alike.supply (alike : Alike R h k) (both : s.Alike R (Listener.Alike R) s')
    {supply supply' : Supply} (supplies : supply.Alike R supply') :
    Alike R (h.supply loader s supply) (k.supply loader s' supply') := by
  cases supplies with
  | release address =>
    have hrelease := both.release address
    exact (alike.put loader hrelease.2).answer (congrArg some hrelease.1)
  | releaseAll =>
    exact (alike.put loader both.releaseAll.2).answer (congrArg some both.releaseAll.1)
  | insert address texts => exact (alike.put loader (both.insert address texts)).answer rfl
  | respond address answers => exact (alike.put loader (both.respond address answers)).answer rfl
  | forget address => exact (alike.put loader (both.respond address (.failure _ _))).answer rfl
  | fetches address => exact alike.answer rfl
  | requests => exact alike.answer rfl

/-- A host once a loader has taken a listener for a unit to load, or refused it. -/
def asked (h : Host Tree Value) (loader : Nat)
    (r : Except LoaderError UnitId × Session Tree Value (Listener Value)) : Host Tree Value :=
  match r with
  | (.error e, s) => (h.put loader s).answer (.subscribed (.error e))
  | (.ok id, s) => (h.put loader s).first [.flush loader, .reply (.subscribed (.ok id))]

theorem Alike.asked (alike : Alike R h k) (hs : h.session? loader = some s)
    (hs' : k.session? loader = some s') (both : s.Alike R (Listener.Alike R) s')
    (address : String) (kind : Kind) {l l' : Listener Value} (hl : l.Alike R l')
    (ht : (h.asked loader (s.loadWith address kind l)).Untroubled)
    (ht' : (k.asked loader (s'.loadWith address kind l')).Untroubled) :
    Alike R (h.asked loader (s.loadWith address kind l))
      (k.asked loader (s'.loadWith address kind l')) := by
  rcases both.loadWith address kind hl with
    ⟨e, e', t, t', hload, hload', hboth⟩ | ⟨id, t, t', hload, hload', hboth⟩
  · rw [hload, hload']
    exact (alike.put loader hboth).answer rfl
  · rw [hload] at ht ⊢
    rw [hload'] at ht' ⊢
    exact (alike.put loader (hboth (Untroubled.put ht hs) (Untroubled.put ht' hs'))).first
      (.cons (.flush loader) (.cons (.reply rfl) .nil))

theorem Alike.subscribe (alike : Alike R h k) (hs : h.session? loader = some s)
    (hs' : k.session? loader = some s') (both : s.Alike R (Listener.Alike R) s')
    (label : String) {followUps followUps' : List (Step Value)}
    (steps : List.Forall₂ (Step.Alike R) followUps followUps') (subject : Subject)
    (ht : (h.subscribe loader s label followUps subject).Untroubled)
    (ht' : (k.subscribe loader s' label followUps' subject).Untroubled) :
    Alike R (h.subscribe loader s label followUps subject)
      (k.subscribe loader s' label followUps' subject) := by
  have hlistener (importedFrom : Option String) :
      Listener.Alike R ⟨label, importedFrom, followUps⟩ ⟨label, importedFrom, followUps'⟩ :=
    ⟨rfl, rfl, steps⟩
  cases subject with
  | load address kind => exact alike.asked hs hs' both address kind (hlistener none) ht ht'
  | module address =>
    simp only [Host.subscribe, ← both.resolveAddress] at ht ht' ⊢
    exact alike.asked hs hs' both _ .module (hlistener _) ht ht'
  | eval code =>
    have hlisteners : List.Forall₂ (Listener.Alike R)
        (some (⟨label, none, followUps⟩ : Listener Value)).toList
        (some (⟨label, none, followUps'⟩ : Listener Value)).toList := .cons (hlistener none) .nil
    have heval := both.eval code hlisteners (Untroubled.put ht hs) (Untroubled.put ht' hs')
    exact (alike.put loader heval.2).first (.cons (.flush loader) (.cons (.reply rfl) .nil))
  | unit id =>
    simp only [Host.subscribe]
    rcases both.addListener id (hlistener none) with ⟨e, e', he, he'⟩ | ⟨hok, hok', hboth⟩
    · simp only [he, he']
      exact alike.answer rfl
    · simp only [hok, hok']
      exact (alike.put loader hboth).answer rfl

/-- What is done with a loader that was not dropped. -/
theorem Alike.withLoader (alike : Alike R h k) (loader : Nat)
    {f g : Session Tree Value (Listener Value) → Host Tree Value}
    (both : ∀ s s', h.session? loader = some s → k.session? loader = some s' →
      s.Alike R (Listener.Alike R) s' → (f s).Untroubled → (g s').Untroubled →
      Alike R (f s) (g s'))
    (ht : (h.withLoader loader f).Untroubled) (ht' : (k.withLoader loader g).Untroubled) :
    Alike R (h.withLoader loader f) (k.withLoader loader g) := by
  rcases alike.cases loader with ⟨hc, hd⟩ | ⟨seat, seat', hc, hd, hseat⟩
  · simp only [Host.withLoader, hc, hd]
    exact alike.answer rfl
  · simp only [Host.withLoader, hc, hd, ← hseat.dropped] at ht ht' ⊢
    split
    · exact alike.answer rfl
    · next present =>
      rw [if_neg present] at ht ht'
      exact both _ _ (session?_eq hc) (session?_eq hd) hseat.session ht ht'

theorem Alike.carryOut (alike : Alike R h k) {step step' : Step Value} (steps : step.Alike R step')
    (ht : (h.carryOut step).Untroubled) (ht' : (k.carryOut step').Untroubled) :
    Alike R (h.carryOut step) (k.carryOut step') := by
  cases steps with
  | request loader r =>
    exact alike.withLoader loader (fun _ _ hs hs' both => alike.request hs hs' both r) ht ht'
  | supply loader supplies =>
    simp only [Host.carryOut]
    rcases alike.sessions loader with ⟨hc, hd⟩ | ⟨s, s', hc, hd, both⟩
    · simp only [hc, hd]
      exact alike.answer rfl
    · simp only [hc, hd]
      exact alike.supply both supplies
  | subscribe loader subject label steps =>
    exact alike.withLoader loader
      (fun _ _ hs hs' both => alike.subscribe hs hs' both label steps subject) ht ht'
  | hold loader under =>
    refine alike.withLoader loader (fun s s' _ _ both _ _ => ?_) ht ht'
    rw [both.held, under.length_eq]
    have hheld : Session.Alike R (Listener.Alike R) { s with held := true }
        { s' with held := true } := both.withNamespace s.ns s'.ns true
    refine (alike.put loader hheld).first (List.rel_append ?_ (.cons (.letGo loader _ _) .nil))
    exact List.rel_map (R := Step.Alike R) (fun _ _ => Task.Alike.carryOut) under
  | drop loader =>
    have hgone : Alike R
        { h with seats := h.seats.modify loader fun seat => { seat with dropped := true } }
        { k with seats := k.seats.modify loader fun seat => { seat with dropped := true } } :=
      { alike with
        seats := forall₂_modify alike.seats loader fun _ _ hseat => { hseat with dropped := rfl } }
    exact hgone.answer rfl
  | isAlive loader => exact alike.answer rfl
  | unclear reason => exact alike.answer rfl

/-! ### Tasks -/

theorem Alike.flush (alike : Alike R h k) (both : s.Alike R (Listener.Alike R) s') :
    Alike R (h.flush loader s) (k.flush loader s') := by
  have houtbox := both.outbox
  simp only [Host.flush]
  rcases forall₂_cases houtbox with ⟨hc, hd⟩ | ⟨n, rest, n', rest', hc, hd, -⟩
  · rw [hc, hd]
    exact alike
  · rw [hc, hd] at houtbox
    rw [hc, hd]
    refine (alike.put loader both.emptied).first
      (List.rel_append (List.rel_flatMap houtbox ?_) (.cons (.flush loader) .nil))
    intro n n' hn
    dsimp only
    rw [hn.1]
    exact List.rel_map (R := Listener.Alike R) (fun _ _ hl => .tell loader n'.unit hl _ _) hn.2

theorem Alike.tell (alike : Alike R h k) (unit : UnitId) {l l' : Listener Value}
    (hl : l.Alike R l') (outcome outcome' : Outcome Value) :
    Alike R (h.tell loader unit l outcome) (k.tell loader unit l' outcome') := by
  have hsteps : List.Forall₂ (Task.Alike R)
      (l.followUps.flatMap fun step => [.carryOut step, .note])
      (l'.followUps.flatMap fun step => [.carryOut step, .note]) :=
    List.rel_flatMap hl.followUps fun _ _ hstep => .cons (.carryOut hstep) (.cons .note .nil)
  have htold : Alike R { h with log := h.log ++ [h.noteFor loader unit l outcome] }
      { k with log := k.log ++ [k.noteFor loader unit l' outcome'] } := { alike with }
  exact htold.first hsteps

theorem takeCount_eq (h : Host Tree Value) :
    h.takeCount = match h.replies.head?.bind Reply.number? with
      | some number => (number, { h with replies := h.replies.tail })
      | none => (0, h) := by
  rw [Host.takeCount]
  split
  · next replies => rw [replies]; rfl
  · next other =>
    cases hr : h.replies with
    | nil => rfl
    | cons r rest =>
      cases r with
      | count number => exact absurd hr (other number rest)
      | _ => rfl

theorem Alike.takeCount (alike : Alike R h k) :
    h.takeCount.1 = k.takeCount.1 ∧ Alike R h.takeCount.2 k.takeCount.2 := by
  rw [takeCount_eq, takeCount_eq]
  rcases forall₂_cases alike.replies with ⟨hc, hd⟩ | ⟨r, rest, r', rest', hc, hd, hfirst, hrest⟩
  · rw [hc, hd]
    exact ⟨rfl, alike⟩
  · simp only [hc, hd, List.head?_cons, Option.bind_some, hfirst, List.tail_cons]
    split
    · exact ⟨rfl, { alike with replies := hrest }⟩
    · exact ⟨rfl, alike⟩

/-- Both loaders take the answer that has waited longest, or neither has one. -/
theorem Alike.poll (alike : Alike R h k) (loader taken : Nat)
    (ht : (h.perform (.poll loader taken)).Untroubled)
    (ht' : (k.perform (.poll loader taken)).Untroubled) :
    Alike R (h.perform (.poll loader taken)) (k.perform (.poll loader taken)) := by
  simp only [Host.perform] at ht ht' ⊢
  rcases alike.sessions loader with ⟨hc, hd⟩ | ⟨s, s', hc, hd, both⟩
  · simp only [hc, hd, Option.bind_none]
    exact alike.answer rfl
  · simp only [hc, hd, Option.bind_some] at ht ht' ⊢
    rcases both.receive? with ⟨hr, hr'⟩ | ⟨t, t', hr, hr', hboth⟩
    · simp only [hr, hr']
      exact alike.answer rfl
    · simp only [hr, hr'] at ht ht' ⊢
      exact (alike.put loader (hboth (Untroubled.put ht hc) (Untroubled.put ht' hd))).first
        (.cons (.flush loader) (.cons (.poll loader _) .nil))

theorem Alike.letGo (alike : Alike R h k) (loader : Nat) (before : Bool) (steps : Nat) :
    Alike R (h.perform (.letGo loader before steps)) (k.perform (.letGo loader before steps)) := by
  simp only [Host.perform]
  rcases alike.sessions loader with ⟨hc, hd⟩ | ⟨s, s', hc, hd, both⟩
  · simpa only [hc, hd] using alike
  · simp only [hc, hd]
    have hput := alike.put loader (both.withNamespace s.ns s'.ns before)
    have hkept : Alike R
        { h.put loader { s with held := before } with replies := h.replies.drop steps }
        { k.put loader { s' with held := before } with replies := k.replies.drop steps } :=
      { hput with replies := List.forall₂_drop steps alike.replies }
    exact hkept.answer rfl

theorem Alike.perform (alike : Alike R h k) {task task' : Task Value} (tasks : task.Alike R task')
    (ht : (h.perform task).Untroubled) (ht' : (k.perform task').Untroubled) :
    Alike R (h.perform task) (k.perform task') := by
  cases tasks with
  | carryOut steps => exact alike.carryOut steps ht ht'
  | flush loader =>
    rcases alike.sessions loader with ⟨hc, hd⟩ | ⟨s, s', hc, hd, both⟩
    · simpa only [Host.perform, hc, hd, Option.map_none, Option.getD_none] using alike
    · simp only [Host.perform, hc, hd, Option.map_some, Option.getD_some]
      exact alike.flush both
  | tell loader unit listeners outcome outcome' => exact alike.tell unit listeners outcome outcome'
  | reply replies => exact alike.answer replies
  | settle loader unit =>
    rcases alike.sessions loader with ⟨hc, hd⟩ | ⟨s, s', hc, hd, both⟩
    · simpa only [Host.perform, hc, hd, Option.map_none, Option.getD_none] using alike
    · simp only [Host.perform, hc, hd, Option.map_some, Option.getD_some]
      exact alike.answer rfl
  | poll loader taken => exact alike.poll loader taken ht ht'
  | quiet loader wait =>
    simp only [Host.perform]
    rcases alike.sessions loader with ⟨hc, hd⟩ | ⟨s, s', hc, hd, both⟩
    · simpa only [hc, hd] using alike
    · simp only [hc, hd]
      have hidle : s.isIdle = s'.isIdle := by rw [Session.isIdle, both.pending, Session.isIdle]
      refine alike.takeCount.2.answer ?_
      cases wait with
      | untilIdle => rw [Wait.reply, Wait.reply, hidle, alike.takeCount.1]
      | _ => rfl
  | drain loader rounds =>
    simp only [Host.perform]
    rcases alike.sessions loader with ⟨hc, hd⟩ | ⟨s, s', hc, hd, both⟩
    · simpa only [hc, hd] using alike
    · simp only [hc, hd, both.releaseAll.1]
      exact (alike.put loader both.releaseAll.2).first
        (.cons (.poll loader 0) (.cons (.drained loader rounds _) .nil))
  | drained loader rounds released =>
    simp only [Host.perform, alike.takeCount.1]
    split
    · exact alike.takeCount.2.answer rfl
    · exact alike.takeCount.2.first (.cons (.drain loader _) .nil)
  | note =>
    simp only [Host.perform]
    rcases forall₂_cases alike.replies with ⟨hc, hd⟩ | ⟨r, rest, r', rest', hc, hd, -, hrest⟩
    · rw [hc, hd]
      exact alike
    · rw [hc, hd]
      exact { alike with replies := hrest }
  | letGo loader before steps => exact alike.letGo loader before steps

/-- A task keeps hosts alike, unless it brings trouble to one of them. -/
theorem Alike.tick (alike : Alike R h k) (ht : h.tick.Untroubled) (ht' : k.tick.Untroubled) :
    Alike R h.tick k.tick := by
  simp only [Host.tick] at ht ht' ⊢
  rcases forall₂_cases alike.agenda with
    ⟨hc, hd⟩ | ⟨task, rest, task', rest', hc, hd, hfirst, hrest⟩
  · rw [hc, hd]
    exact alike
  · rw [hc] at ht ⊢
    rw [hd] at ht' ⊢
    have hnext : Alike R { h with agenda := rest } { k with agenda := rest' } :=
      { alike with agenda := hrest }
    exact hnext.perform hfirst ht ht'

end Host

end UnitLoader
