import UnitLoader.Proofs.Throughout

/-! Properties of the substance of a session that last. It is enough that they outlive a
new unit and are kept by each move; if they also hold of a loader that joins, they hold
throughout. -/

namespace UnitLoader

variable {Tree Value : Type}

namespace Session

variable {Listener : Type} {s t : Session Tree Value Listener}

/-- Sessions of the same substance, but for the namespace. -/
def StillApart (s t : Session Tree Value Listener) : Prop :=
  Still s { t with ns := s.ns }

theorem Still.apart (h : Still s t) : StillApart s t :=
  ⟨h.cores, h.deeds, h.modules, h.resolver, rfl, h.tools, h.baseAddress⟩

/-- A session before and after it got a unit. -/
structure Gains (s t : Session Tree Value Listener) (w : SourceUnit Tree Value Listener) :
    Prop where
  cores : t.cache.cores = s.cache.cores ++ [w.core]
  deeds : t.deeds = s.deeds
  modules : t.project.modules = s.project.modules
  resolver : t.project.resolver = s.project.resolver
  ns : t.ns = s.ns
  tools : t.tools = s.tools
  baseAddress : t.baseAddress = s.baseAddress

theorem Gains.still {m : Session Tree Value Listener} {w : SourceUnit Tree Value Listener}
    (h : Gains s t w) (hm : Still t m) : Gains s m w :=
  ⟨hm.cores.trans h.cores, hm.deeds.trans h.deeds, hm.modules.trans h.modules,
    hm.resolver.trans h.resolver, hm.ns.trans h.ns, hm.tools.trans h.tools,
    hm.baseAddress.trans h.baseAddress⟩

theorem gains_push {w : SourceUnit Tree Value Listener} (cache : t.cache = s.cache.push w)
    (same : t = { s with cache := t.cache }) : Gains s t w := by
  refine ⟨?_, ?_, ?_, ?_, ?_, ?_, ?_⟩
  · rw [cache]
    simp [Cache.cores, Cache.push]
  all_goals rw [same]
  rfl

theorem Gains.get?_back {w : SourceUnit Tree Value Listener} (h : Gains s t w) {id : UnitId}
    {v : SourceUnit Tree Value Listener} (hv : t.cache.get? id = some v) :
    (∃ u, s.cache.get? id = some u ∧ v.core = u.core) ∨
      (id = ⟨s.cache.size⟩ ∧ v.core = w.core) := by
  have hcore : (s.cache.cores ++ [w.core])[id.index]? = some v.core := by
    rw [← h.cores, Cache.cores_getElem?, hv, Option.map_some]
  have hlength : s.cache.cores.length = s.cache.size := by simp [Cache.cores, Cache.size]
  rw [List.getElem?_append, hlength] at hcore
  split at hcore
  · rw [Cache.cores_getElem?] at hcore
    obtain ⟨u, hu, he⟩ := Option.map_eq_some_iff.mp hcore
    exact .inl ⟨u, hu, he.symm⟩
  · next hge =>
    obtain ⟨hlt, hw⟩ := List.getElem?_eq_some_iff.mp hcore
    rw [List.length_singleton] at hlt
    refine .inr ⟨UnitId.ext_iff.mpr (show id.index = s.cache.size by omega), ?_⟩
    rw [← hw]
    simp

/-- A unit that has just been found, or made for a given text. -/
inductive IsNew (s : Session Tree Value Listener) : SourceUnit Tree Value Listener → Prop
  | load {address : String} {kind : Kind} (absent : s.cache.lookup address kind = none)
      (asked : ∃ requested, address = s.resolveAddress requested) : IsNew s (.new address kind .load)
  | eval : IsNew s (.new (s.cache.nextEvalAddress s.baseAddress) .script .eval)

theorem find_gains (s : Session Tree Value Listener) (address : String) (kind : Kind) :
    Still s (s.find address kind).session ∨
      ∃ w, Gains s (s.find address kind).session w ∧ IsNew s w := by
  rcases s.cache.getOrInsert_cases (s.resolveAddress address) kind with
    ⟨u, hu, -, -, -, hunits⟩ | ⟨hnone, hid, hcache⟩
  · have hcores : (s.find address kind).session.cache.cores = s.cache.cores := by
      show List.map _ (s.cache.getOrInsert (s.resolveAddress address) kind).cache.units = _
      rw [hunits]
      rfl
    exact .inl ⟨hcores, rfl, rfl, rfl, rfl, rfl, rfl⟩
  · exact .inr ⟨_, gains_push hcache rfl, .load hnone ⟨address, rfl⟩⟩

theorem still_listening (s : Session Tree Value Listener) (id : UnitId) (listener : Listener) :
    Still s (s.listening id listener) :=
  still_modifyUnit (f := fun u => { u with listeners := u.listeners ++ [listener] })
    (fun _ => rfl) s id

variable {registered : List (UnitId × Listener)} {m : Moment Tree Value Listener}

theorem Enters.gains (h : Enters s registered m) :
    Still s m.session ∨ ∃ w, Gains s m.session w ∧ IsNew s w := by
  cases h with
  | find address kind => exact s.find_gains address kind
  | subscribe address kind unit unsettled listener =>
    refine (s.find_gains address kind).imp (fun h => h.trans (still_listening _ _ _)) ?_
    rintro ⟨w, hw, hnew⟩
    exact ⟨w, hw.still (still_listening _ _ _), hnew⟩
  | evaluate code listener =>
    refine .inr ⟨_, ?_, .eval⟩
    refine Gains.still (t := { s with cache := (s.cache.insertEval s.baseAddress .script).cache })
      (gains_push rfl rfl) ?_
    exact still_modifyUnit
      (f := fun u => { u with text := some code, listeners := u.listeners ++ listener.toList })
      (fun _ => rfl) _ ⟨s.cache.size⟩
  | receive => exact .inl ⟨rfl, rfl, rfl, rfl, rfl, rfl, rfl⟩

/-- Units that have settled are left as they are. -/
def KeepsSettled (s t : Session Tree Value Listener) : Prop :=
  ∀ id u, s.cache.get? id = some u → u.state.isSettled = true → t.cache.get? id = some u

/-- Units that have settled are left as they are, and no other unit fails. -/
structure Undisturbed (s t : Session Tree Value Listener) : Prop where
  settled : s.KeepsSettled t
  failed : ∀ id, t.cache.isIn .error id = true → s.cache.isIn .error id = true

theorem undisturbed_of_cache (h : t.cache = s.cache) : s.Undisturbed t where
  settled := by
    intro id u hu _
    rw [h, hu]
  failed := by
    intro id hid
    rwa [h] at hid

theorem Prepares.undisturbed (h : Prepares s t) : s.Undisturbed t :=
  ⟨h.settled, h.unsettled⟩

theorem undisturbed_listening {id : UnitId} {u : SourceUnit Tree Value Listener}
    (hu : s.cache.get? id = some u) (unsettled : u.state.isSettled = false) (listener : Listener) :
    s.Undisturbed (s.listening id listener) := by
  refine (prepares_modify (f := fun u => { u with listeners := u.listeners ++ [listener] })
    (fun v hv => ?_) fun _ => rfl).undisturbed
  rwa [← Option.some.inj (hu.symm.trans hv)]

theorem Develops.keepsSettled (h : Develops s t) : s.KeepsSettled t := by
  intro id u hu hs
  obtain ⟨v, hv, huv⟩ := h.unit id u hu
  rwa [huv.settled hs] at hv

end Session

open Session

/-- A property of sessions that nothing takes away. -/
structure Lasting (P : Session Tree Value (Listener Value) → Prop) : Prop where
  still : ∀ s t, P s → StillApart s t → s.Undisturbed t → P t
  gains : ∀ s t w, s.AtRest → P s → Gains s t w → IsNew s w → s.Undisturbed t → P t
  moves : ∀ m n, m.Sound → P m.session → Move m n → P n.session

namespace Lasting

variable {P : Session Tree Value (Listener Value) → Prop}
  {s t : Session Tree Value (Listener Value)}

theorem beside (h : Lasting P) (hs : P s) (still : StillApart s t) (cache : t.cache = s.cache) :
    P t :=
  h.still s t hs still (undisturbed_of_cache cache)

theorem throughout (h : Lasting P) : Throughout fun m => P m.session where
  apart := by
    intro s t hs happart
    refine h.beside hs ?_ ?_
    all_goals rw [happart]
    exact ⟨rfl, rfl, rfl, rfl, rfl, rfl, rfl⟩
  listens := fun s id u listener unit unsettled hs =>
    h.still _ _ hs (still_listening _ _ _).apart (undisturbed_listening unit unsettled _)
  enters := by
    intro s registered m rest hs henters
    have hundisturbed := henters.prepares.undisturbed
    rcases henters.gains with hstill | ⟨w, hgains, hnew⟩
    · exact h.still _ _ hs hstill.apart hundisturbed
    · exact h.gains _ _ w rest hs hgains hnew hundisturbed
  moves := h.moves

theorem advance (h : Lasting P) (rest : s.AtRest) (hs : P s) (step : Advance s t) : P t :=
  h.throughout.advance rest hs step

theorem alters (h : Lasting P) {sharing : Bool} {defined : List (Deed Value)} (rest : s.AtRest)
    (hs : P s) (halters : Session.Alters sharing s defined t) : P t :=
  h.throughout.alters rest hs halters

/-- What lasts and holds at the start holds of every session in every run. -/
theorem run (h : Lasting P) (start : ∀ setup ns, P (Host.opened setup ns))
    {ledger : List Registration} {host : Host Tree Value} (run : Host.Run ledger host)
    {loader : Nat} (hs : host.session? loader = some s) : P s :=
  h.throughout.run start run hs

end Lasting

/-- A loader that joins has no units. -/
theorem Host.get?_opened (setup : Setup Tree Value) (ns : Namespace Value) (id : UnitId) :
    (opened setup ns).cache.get? id = none :=
  rfl

end UnitLoader
