import UnitLoader.Proofs.Stages
import UnitLoader.Session

/-! What listeners are told. A listener waits with its unit or in the outbox, and
putting a notice into the outbox moves the listeners of the unit there, so none is
lost and none is doubled. -/

namespace UnitLoader

def SourceUnit.hushed {Tree Value Listener : Type} (u : SourceUnit Tree Value Listener) :
    SourceUnit Tree Value Listener :=
  if u.state = .error then { u with listeners := [] } else u

def SourceUnit.answered {Tree Value Listener : Type} (u : SourceUnit Tree Value Listener) :
    SourceUnit Tree Value Listener :=
  if u.result.isSome then { u with listeners := [] } else u

namespace Session

variable {Tree Value Listener : Type}

/-- A unit has come to what an outcome tells. -/
def Shows (s : Session Tree Value Listener) (id : UnitId) : Outcome Value → Prop
  | .complete value => ∃ u, s.cache.get? id = some u ∧ u.state = .complete ∧ u.result = some value
  | .failed error => ∃ u, s.cache.get? id = some u ∧ u.state = .error ∧ u.error = some error

def listenersOf (s : Session Tree Value Listener) (id : UnitId) : List Listener :=
  ((s.cache.get? id).map (·.listeners)).getD []

/-- The listeners of a unit whose notices are in the outbox. -/
def queuedFor (s : Session Tree Value Listener) (id : UnitId) : List Listener :=
  (s.outbox.filter (·.unit = id)).flatMap (·.listeners)

/-- The listeners of a unit that were not handed over yet. -/
def waitingFor (s : Session Tree Value Listener) (id : UnitId) : List Listener :=
  s.listenersOf id ++ s.queuedFor id

theorem listenersOf_eq {s : Session Tree Value Listener} {id : UnitId}
    {u : SourceUnit Tree Value Listener} (h : s.cache.get? id = some u) :
    s.listenersOf id = u.listeners := by
  simp [listenersOf, h]

theorem waitingFor_eq {s t : Session Tree Value Listener} {id : UnitId}
    (listeners : t.listenersOf id = s.listenersOf id) (outbox : t.outbox = s.outbox) :
    t.waitingFor id = s.waitingFor id := by
  simp [waitingFor, queuedFor, listeners, outbox]

theorem listenersOf_modify {s t : Session Tree Value Listener} {id : UnitId}
    {f : SourceUnit Tree Value Listener → SourceUnit Tree Value Listener}
    (cache : t.cache = s.cache.modify id f) (keeps : ∀ u, (f u).listeners = u.listeners)
    (j : UnitId) : t.listenersOf j = s.listenersOf j := by
  simp only [listenersOf]
  rw [cache, Cache.get?_modify]
  split
  · cases s.cache.get? j with
    | none => rfl
    | some u => simp [keeps]
  · rfl

/-! ### Putting notices into the outbox -/

/-- Telling several units' listeners something, each unit by itself. -/
theorem notify_foldl {step : Session Tree Value Listener → UnitId → Session Tree Value Listener}
    {f : SourceUnit Tree Value Listener → SourceUnit Tree Value Listener}
    {note? : Cache Tree Value Listener → UnitId → Option (Notification Value Listener)}
    (hstep : ∀ s id, step s id =
      { s with
        cache := s.cache.modify id f
        outbox := s.outbox ++ (note? s.cache id).toList })
    (hnote : ∀ c id j, id ≠ j → note? (c.modify id f) j = note? c j) {ids : List UnitId}
    (hn : ids.Nodup) (s : Session Tree Value Listener) :
    ids.foldl step s =
      { s with
        cache := ids.foldl (fun c id => c.modify id f) s.cache
        outbox := s.outbox ++ ids.filterMap (note? s.cache) } := by
  induction ids generalizing s with
  | nil => simp
  | cons id ids ih =>
    have hid := (List.nodup_cons.mp hn).1
    have hrest : ids.filterMap (note? (s.cache.modify id f)) = ids.filterMap (note? s.cache) :=
      List.filterMap_congr fun j hj => hnote _ _ _ fun he => hid (by rwa [he])
    rw [List.foldl_cons, hstep, ih (List.nodup_cons.mp hn).2, hrest, List.filterMap_cons]
    cases note? s.cache id <;> simp

/-- A notice that takes the listeners of its unit along keeps all that wait. -/
theorem waitingFor_notify {s t : Session Tree Value Listener} {id : UnitId}
    {f : SourceUnit Tree Value Listener → SourceUnit Tree Value Listener}
    {note : Option (Notification Value Listener)} (cache : t.cache = s.cache.modify id f)
    (outbox : t.outbox = s.outbox ++ note.toList)
    (none : note = none → ∀ u, s.cache.get? id = some u → (f u).listeners = u.listeners)
    (some : ∀ n, note = some n → ∃ u, s.cache.get? id = some u ∧ n.unit = id ∧
      n.listeners = u.listeners ∧ (f u).listeners = []) (j : UnitId) :
    (t.waitingFor j).Perm (s.waitingFor j) := by
  cases hn : note with
  | none =>
    refine .of_eq (waitingFor_eq ?_ (by simp [outbox, hn]))
    simp only [listenersOf]
    rw [cache, Cache.get?_modify]
    split
    · next hj =>
      subst hj
      cases hu : s.cache.get? id with
      | none => rfl
      | some u => simp [none hn u hu]
    · rfl
  | some n =>
    obtain ⟨u, hu, hid, hl, hf⟩ := some n hn
    by_cases hj : id = j
    · subst hj
      simpa [waitingFor, queuedFor, listenersOf, cache, outbox, hn, Cache.get?_modify, hu, hf, hid,
        hl, List.filter_append] using List.perm_append_comm
    · simp [waitingFor, queuedFor, listenersOf, cache, outbox, hn, Cache.get?_modify, hj, hid,
        List.filter_append]

/-! ### Notices of failures -/

def failureNote? (c : Cache Tree Value Listener) (id : UnitId) :
    Option (Notification Value Listener) :=
  (c.get? id).bind fun u =>
    if u.state = .error ∧ u.listeners ≠ [] then
      some ⟨id, u.listeners, .failed (u.error.getD
        (.aborted u.address (.execution u.address "batch aborted")))⟩
    else none

theorem notifyFailure_eq (s : Session Tree Value Listener) (id : UnitId) :
    s.notifyFailure id =
      { s with
        cache := s.cache.modify id SourceUnit.hushed
        outbox := s.outbox ++ (failureNote? s.cache id).toList } := by
  simp only [notifyFailure, failureNote?]
  cases hu : s.cache.get? id with
  | none =>
    have hsame : s.cache.modify id SourceUnit.hushed = s.cache :=
      Cache.modify_eq_self (by simp [hu])
    simp [hsame]
  | some u =>
    by_cases h : u.state = .error ∧ u.listeners ≠ []
    · have hc : s.cache.modify id (fun v => { v with listeners := [] }) =
          s.cache.modify id SourceUnit.hushed := by
        refine Cache.modify_congr fun w hw => ?_
        obtain rfl := Option.some.inj (hu.symm.trans hw)
        rw [SourceUnit.hushed, if_pos h.1]
      simp [h, modifyUnit, onBuild, Build.modify, hc]
    · have hc : s.cache.modify id SourceUnit.hushed = s.cache := by
        refine Cache.modify_eq_self fun w hw => ?_
        obtain rfl := Option.some.inj (hu.symm.trans hw)
        simp only [SourceUnit.hushed]
        split
        · next he =>
          have hl : u.listeners = [] := by_contra fun hl => h ⟨he, hl⟩
          rw [← hl]
        · rfl
      simp [h, hc]

theorem failureNote?_modify_of_ne {c : Cache Tree Value Listener} {id j : UnitId}
    {f : SourceUnit Tree Value Listener → SourceUnit Tree Value Listener} (h : id ≠ j) :
    failureNote? (c.modify id f) j = failureNote? c j := by
  simp [failureNote?, Cache.get?_modify_of_ne h]

theorem notifyFailures_eq (s : Session Tree Value Listener) :
    s.notifyFailures =
      { s with
        cache := s.cache.ids.foldl (fun c id => c.modify id SourceUnit.hushed) s.cache
        outbox := s.outbox ++ s.cache.ids.filterMap (failureNote? s.cache) } :=
  notify_foldl notifyFailure_eq (fun _ _ _ => failureNote?_modify_of_ne) s.cache.nodup_ids s

theorem waitingFor_notifyFailure (s : Session Tree Value Listener) (id j : UnitId) :
    ((s.notifyFailure id).waitingFor j).Perm (s.waitingFor j) := by
  rw [notifyFailure_eq]
  refine waitingFor_notify (s := s) rfl rfl (fun hn u hu => ?_) (fun n hn => ?_) j
  · simp only [SourceUnit.hushed]
    split
    · next he =>
      by_contra hl
      simp [failureNote?, hu, he, Ne.symm hl] at hn
    · rfl
  · obtain ⟨u, hu, hn⟩ := Option.bind_eq_some_iff.mp hn
    split at hn
    · next he =>
      obtain rfl := Option.some.inj hn
      exact ⟨u, hu, rfl, rfl, by simp [SourceUnit.hushed, he.1]⟩
    · cases hn

theorem waitingFor_notifyFailures (s : Session Tree Value Listener) (j : UnitId) :
    (s.notifyFailures.waitingFor j).Perm (s.waitingFor j) := by
  simp only [notifyFailures]
  generalize s.cache.ids = ids
  induction ids generalizing s with
  | nil => exact .refl _
  | cons id ids ih => exact (ih (s.notifyFailure id)).trans (waitingFor_notifyFailure s id j)

/-! ### Notices of values -/

def successNote? (c : Cache Tree Value Listener) (id : UnitId) :
    Option (Notification Value Listener) :=
  (c.get? id).bind fun u =>
    if u.listeners = [] then none else u.result.map fun value => ⟨id, u.listeners, .complete value⟩

theorem notifySuccess_eq (s : Session Tree Value Listener) (id : UnitId) :
    s.notifySuccess id =
      { s with
        cache := s.cache.modify id SourceUnit.answered
        outbox := s.outbox ++ (successNote? s.cache id).toList } := by
  cases hu : s.cache.get? id with
  | none =>
    have hsame : s.cache.modify id SourceUnit.answered = s.cache :=
      Cache.modify_eq_self (by simp [hu])
    simp [notifySuccess, successNote?, hu, hsame]
  | some u =>
    obtain ⟨hl, hr⟩ | ⟨value, hr, hl⟩ | ⟨hr, hl⟩ :
        (u.listeners = [] ∧ u.result.isSome) ∨
          (∃ value, u.result = some value ∧ u.listeners ≠ []) ∨ u.result = none ∧ True := by
      cases hr : u.result with
      | none => exact .inr (.inr ⟨rfl, trivial⟩)
      | some value =>
        by_cases hl : u.listeners = []
        · exact .inl ⟨hl, rfl⟩
        · exact .inr (.inl ⟨value, rfl, hl⟩)
    · have hsame : s.cache.modify id SourceUnit.answered = s.cache :=
        Cache.modify_eq_self fun w hw => by
          obtain rfl := Option.some.inj (hu.symm.trans hw)
          rw [SourceUnit.answered, if_pos hr, ← hl]
      simp [notifySuccess, successNote?, hu, hl, hsame]
    · obtain ⟨first, others, hcons⟩ := List.exists_cons_of_ne_nil hl
      have hc : s.cache.modify id (fun v => { v with listeners := [] }) =
          s.cache.modify id SourceUnit.answered := by
        refine Cache.modify_congr fun w hw => ?_
        obtain rfl := Option.some.inj (hu.symm.trans hw)
        rw [SourceUnit.answered, if_pos (by simp [hr])]
      simp [notifySuccess, successNote?, hu, hcons, hr, modifyUnit, onBuild, Build.modify, hc]
    · have hsame : s.cache.modify id SourceUnit.answered = s.cache :=
        Cache.modify_eq_self fun w hw => by
          obtain rfl := Option.some.inj (hu.symm.trans hw)
          simp [SourceUnit.answered, hr]
      cases hl : u.listeners <;> simp [notifySuccess, successNote?, hu, hl, hr, hsame]

theorem successNote?_modify_of_ne {c : Cache Tree Value Listener} {id j : UnitId}
    {f : SourceUnit Tree Value Listener → SourceUnit Tree Value Listener} (h : id ≠ j) :
    successNote? (c.modify id f) j = successNote? c j := by
  simp [successNote?, Cache.get?_modify_of_ne h]

theorem notifySuccess_foldl {ids : List UnitId} (hn : ids.Nodup)
    (s : Session Tree Value Listener) :
    ids.foldl notifySuccess s =
      { s with
        cache := ids.foldl (fun c id => c.modify id SourceUnit.answered) s.cache
        outbox := s.outbox ++ ids.filterMap (successNote? s.cache) } :=
  notify_foldl notifySuccess_eq (fun _ _ _ => successNote?_modify_of_ne) hn s

theorem waitingFor_notifySuccess (s : Session Tree Value Listener) (id j : UnitId) :
    ((s.notifySuccess id).waitingFor j).Perm (s.waitingFor j) := by
  rw [notifySuccess_eq]
  refine waitingFor_notify (s := s) rfl rfl (fun hn u hu => ?_) (fun n hn => ?_) j
  · simp only [SourceUnit.answered]
    split
    · next hr =>
      obtain ⟨value, hv⟩ := Option.isSome_iff_exists.mp hr
      by_contra hl
      simp [successNote?, hu, Ne.symm hl, hv] at hn
    · rfl
  · obtain ⟨u, hu, hn⟩ := Option.bind_eq_some_iff.mp hn
    split at hn
    · cases hn
    · obtain ⟨value, hv, rfl⟩ := Option.map_eq_some_iff.mp hn
      exact ⟨u, hu, rfl, rfl, by simp [SourceUnit.answered, hv]⟩

theorem waitingFor_notifySuccess_foldl (ids : List UnitId) (s : Session Tree Value Listener)
    (j : UnitId) : ((ids.foldl notifySuccess s).waitingFor j).Perm (s.waitingFor j) := by
  induction ids generalizing s with
  | nil => exact .refl _
  | cons id ids ih => exact (ih (s.notifySuccess id)).trans (waitingFor_notifySuccess s id j)

end Session

end UnitLoader
