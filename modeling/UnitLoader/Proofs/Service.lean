import UnitLoader.Proofs.Requests

/-! What a session does for its listeners. Whatever is asked of it, it keeps those that
wait and adds those that were registered, and it takes nothing back that it has told. -/

namespace UnitLoader

variable {Tree Value Listener : Type}

namespace Session

/-- The listeners that a step registers with a unit. -/
def registeredFor (registered : List (UnitId × Listener)) (id : UnitId) : List Listener :=
  (registered.filter (·.1 = id)).map (·.2)

/-- A session before and after something was asked of it. -/
structure Serves (s t : Session Tree Value Listener) (registered : List (UnitId × Listener)) :
    Prop where
  rest : t.AtRest
  shows : ∀ id outcome, s.Shows id outcome → t.Shows id outcome
  waiting : ∀ id, (t.waitingFor id).Perm (s.waitingFor id ++ registeredFor registered id)

variable {s t : Session Tree Value Listener} {registered : List (UnitId × Listener)}

theorem listenersOf_of_units (h : t.cache.units = s.cache.units) (id : UnitId) :
    t.listenersOf id = s.listenersOf id := by
  simp [listenersOf, Cache.get?, h]

theorem Shows.of_units (h : t.cache.units = s.cache.units) {id : UnitId}
    {outcome : Outcome Value} (hs : s.Shows id outcome) : t.Shows id outcome :=
  hs.mono fun j u hu _ => by rw [Cache.get?, h]; exact hu

/-! ### Beginnings -/

theorem listenersOf_push {w : SourceUnit Tree Value Listener}
    (h : t.cache = s.cache.push w) (hw : w.listeners = []) (id : UnitId) :
    t.listenersOf id = s.listenersOf id := by
  simp only [listenersOf, h, Cache.get?_push]
  split
  · next hid =>
    have hn : s.cache.get? id = none := Cache.get?_eq_none_iff.mpr (by omega)
    simp [hn, hw]
  · rfl

theorem listenersOf_find (s : Session Tree Value Listener) (address : String) (kind : Kind)
    (id : UnitId) : (s.find address kind).session.listenersOf id = s.listenersOf id := by
  rcases s.find_cases address kind with ⟨u, -, hunits⟩ | ⟨-, hcache⟩
  · exact listenersOf_of_units hunits id
  · exact listenersOf_push hcache rfl id

theorem shows_find {address : String} {kind : Kind} {id : UnitId} {outcome : Outcome Value}
    (h : s.Shows id outcome) : (s.find address kind).session.Shows id outcome := by
  rcases s.find_cases address kind with ⟨u, -, hunits⟩ | ⟨-, hcache⟩
  · exact h.of_units hunits
  · exact h.mono fun j u hu _ => by rw [hcache, Cache.get?_push_of_get? hu]

theorem waitingFor_listening {id : UnitId} {u : SourceUnit Tree Value Listener}
    (hu : s.cache.get? id = some u) (listener : Listener) (j : UnitId) :
    ((s.listening id listener).waitingFor j).Perm
      (s.waitingFor j ++ registeredFor [(id, listener)] j) := by
  by_cases hj : id = j
  · subst hj
    have hl : (s.listening id listener).listenersOf id = s.listenersOf id ++ [listener] := by
      simp [listenersOf, Cache.get?_modify, hu]
    simp only [waitingFor, hl, registeredFor, decide_true, List.filter_cons_of_pos,
      List.filter_nil, List.map_cons, List.map_nil, List.append_assoc]
    exact List.Perm.append_left _ List.perm_append_comm
  · have hl : (s.listening id listener).listenersOf j = s.listenersOf j := by
      simp [listenersOf, Cache.get?_modify, hj]
    simp only [waitingFor, hl, registeredFor, hj, decide_false, Bool.false_eq_true,
      not_false_eq_true, List.filter_cons_of_neg, List.filter_nil, List.map_nil, List.append_nil]
    exact .refl _

theorem shows_listening {id : UnitId} {u : SourceUnit Tree Value Listener}
    (hu : s.cache.get? id = some u) (hs : u.state.isSettled = false) {listener : Listener}
    {j : UnitId} {outcome : Outcome Value} (h : s.Shows j outcome) :
    (s.listening id listener).Shows j outcome := by
  refine h.mono fun k v hv hset => ?_
  rw [cache_listening, Cache.get?_modify_of_ne, hv]
  rintro rfl
  obtain rfl := Option.some.inj (hu.symm.trans hv)
  simp [hs] at hset

theorem waitingFor_evaluating (s : Session Tree Value Listener) (code : String)
    (listener : Option Listener) (id : UnitId) :
    ((s.evaluating code listener).waitingFor id).Perm
      (s.waitingFor id ++ registeredFor (listener.toList.map fun l => (⟨s.cache.size⟩, l)) id) := by
  have hqueued : (s.evaluating code listener).queuedFor id = s.queuedFor id := rfl
  have hget := s.get?_evaluating code listener id
  by_cases hid : id.index = s.cache.size
  · obtain rfl : id = ⟨s.cache.size⟩ := UnitId.ext_iff.mpr hid
    have hnone : s.listenersOf ⟨s.cache.size⟩ = [] := by
      simp [listenersOf, Cache.get?_eq_none_iff.mpr]
    have hall : registeredFor (listener.toList.map fun l => ((⟨s.cache.size⟩ : UnitId), l))
        ⟨s.cache.size⟩ = listener.toList := by
      cases listener <;> simp [registeredFor]
    rw [if_pos hid] at hget
    simp only [waitingFor, listenersOf_eq hget, hqueued, hnone, hall, SourceUnit.given]
    exact List.perm_append_comm
  · have hkeep : (s.evaluating code listener).listenersOf id = s.listenersOf id := by
      simp [listenersOf, hget, hid]
    have hne : (⟨s.cache.size⟩ : UnitId) ≠ id := fun he => hid (by rw [← he])
    have hall : registeredFor (listener.toList.map fun l => ((⟨s.cache.size⟩ : UnitId), l)) id =
        [] := by
      cases listener <;> simp [registeredFor, hne]
    simp [waitingFor, hkeep, hqueued, hall]

theorem shows_evaluating {code : String} {listener : Option Listener} {id : UnitId}
    {outcome : Outcome Value} (h : s.Shows id outcome) :
    (s.evaluating code listener).Shows id outcome := by
  refine h.mono fun j u hu _ => ?_
  have hlt : j.index < s.cache.size := Cache.index_lt_of_get? hu
  rw [get?_evaluating, if_neg (by omega), hu]

theorem Enters.shows {m : Moment Tree Value Listener} (h : Enters s registered m) {id : UnitId}
    {outcome : Outcome Value} (hs : s.Shows id outcome) : m.session.Shows id outcome := by
  cases h with
  | find address kind => exact shows_find hs
  | subscribe address kind unit unsettled listener =>
    exact shows_listening unit unsettled (shows_find hs)
  | evaluate code listener => exact shows_evaluating hs
  | receive => exact hs.of_units rfl

theorem Enters.waiting {m : Moment Tree Value Listener} (h : Enters s registered m)
    (id : UnitId) :
    (m.session.waitingFor id).Perm (s.waitingFor id ++ registeredFor registered id) := by
  have hfind (address : String) (kind : Kind) :
      (s.find address kind).session.waitingFor id = s.waitingFor id :=
    waitingFor_eq (listenersOf_find s address kind id) rfl
  cases h with
  | find address kind => simp [hfind, registeredFor]
  | subscribe address kind unit unsettled listener =>
    rw [← hfind address kind]
    exact waitingFor_listening unit listener id
  | evaluate code listener => exact waitingFor_evaluating s code listener id
  | receive => simp [registeredFor, waitingFor, listenersOf, queuedFor]

/-! ### Steps and other changes -/

theorem Develops.shows (h : Develops s t) {id : UnitId} {outcome : Outcome Value}
    (hs : s.Shows id outcome) : t.Shows id outcome := by
  refine hs.mono fun j u hu hset => ?_
  obtain ⟨v, hv, huv⟩ := h.unit j u hu
  rw [hv, huv.settled hset]

theorem AtRest.serves_of_steps (h : s.AtRest) {sync : Bool} {m : Moment Tree Value Listener}
    {last : Session Tree Value Listener} (hs : Steps s t registered sync m last) :
    Serves s t registered := by
  have hdev := Moves.develops hs.moves (hs.enters.sound (h.withSync sync))
  have ht : t = { last with sync := s.sync } := hs.leaves
  refine ⟨h.of_steps hs, fun id outcome hshow => ?_, fun id => ?_⟩
  · have hshow' : ({ s with sync := sync } : Session Tree Value Listener).Shows id outcome :=
      hshow.of_units rfl
    rw [ht]
    exact (hdev.shows (hs.enters.shows hshow')).of_units rfl
  · have hkeep : t.waitingFor id = last.waitingFor id := by
      rw [ht]
      exact waitingFor_eq (listenersOf_of_units rfl id) rfl
    rw [hkeep]
    exact (hdev.waiting id).trans (hs.enters.waiting id)

/-- A change of nothing but what a session has from outside: its namespace, its fetcher
and the answers that wait for it. -/
def Outside (s t : Session Tree Value Listener) : Prop :=
  t = { s with fetcher := t.fetcher, channel := t.channel, ns := t.ns, held := t.held }

theorem AtRest.serves_of_outside (h : s.AtRest) (ho : Outside s t) : Serves s t [] where
  rest := h.congr (by rw [ho]) (by rw [ho]) (by rw [ho])
  shows := fun _ _ hs => hs.of_units (by rw [ho])
  waiting := fun id => by
    simp only [registeredFor, List.filter_nil, List.map_nil, List.append_nil]
    exact .of_eq (waitingFor_eq (listenersOf_of_units (by rw [ho]) id) (by rw [ho]))

theorem AtRest.serves_listening (h : s.AtRest) {id : UnitId} {u : SourceUnit Tree Value Listener}
    (hu : s.cache.get? id = some u) (hs : u.state.isSettled = false) (listener : Listener) :
    Serves s (s.listening id listener) [(id, listener)] where
  rest := ⟨sound_listening h.sound hu hs listener, closed_listening h.closed id listener,
    linked_of_modify h.linked rfl fun _ => rfl⟩
  shows := fun _ _ => shows_listening hu hs
  waiting := fun j => waitingFor_listening hu listener j

theorem AtRest.serves_of_addListener (h : s.AtRest) {id : UnitId} {listener : Listener}
    (ht : s.addListener id listener = .ok t) : Serves s t [(id, listener)] := by
  rcases s.addListener_cases id listener with ⟨e, he, -⟩ | ⟨u, hu, hs, hok⟩
  · rw [he] at ht
    cases ht
  · obtain rfl := Except.ok.inj (hok.symm.trans ht)
    exact h.serves_listening hu hs listener

end Session

end UnitLoader
