import UnitLoader.Proofs.Requests

/-! Units that are about to be asked for. A session that loads one import after another
has found units that it has not asked for yet; it is compared with what it will be when it
has asked for them all. -/

namespace UnitLoader

variable {Tree Value Listener : Type}

namespace Cache

variable {c d : Cache Tree Value Listener}

/-- The units of a cache are still there in another, under the same addresses. -/
def Keeps (c d : Cache Tree Value Listener) : Prop :=
  ∀ id u, c.get? id = some u →
    ∃ v, d.get? id = some v ∧ v.address = u.address ∧ v.kind = u.kind ∧ v.origin = u.origin

theorem Keeps.trans {e : Cache Tree Value Listener} (h : c.Keeps d) (h' : d.Keeps e) :
    c.Keeps e := by
  intro id u hu
  obtain ⟨v, hv, ha, hk, ho⟩ := h id u hu
  obtain ⟨w, hw, ha', hk', ho'⟩ := h' id v hv
  exact ⟨w, hw, ha'.trans ha, hk'.trans hk, ho'.trans ho⟩

theorem Keeps.size_le (h : c.Keeps d) : c.size ≤ d.size := by
  by_contra hlt
  have hlt' : (⟨d.size⟩ : UnitId).index < c.size := Nat.lt_of_not_le hlt
  obtain ⟨u, hu⟩ := Cache.get?_of_index_lt hlt'
  obtain ⟨v, hv, -⟩ := h _ u hu
  exact absurd (index_lt_of_get? hv) (Nat.lt_irrefl _)

theorem lookup_eq_some_iff {address : String} {kind : Kind} {id : UnitId} :
    c.lookup address kind = some id ↔
      (∃ u, c.get? id = some u ∧ isAt address kind u = true) ∧
        ∀ j v, j.index < id.index → c.get? j = some v → isAt address kind v = false := by
  obtain ⟨i⟩ := id
  have hindex : c.lookup address kind = some ⟨i⟩ ↔
      c.units.findIdx? (isAt address kind) = some i := by
    simp [lookup]
  rw [hindex, List.findIdx?_eq_some_iff_getElem]
  constructor
  · rintro ⟨hlt, hat, hbefore⟩
    refine ⟨⟨c.units[i], List.getElem?_eq_getElem hlt, hat⟩, fun j v hj hv => ?_⟩
    obtain ⟨hjlt, rfl⟩ := List.getElem?_eq_some_iff.mp hv
    simpa using hbefore j.index hj
  · rintro ⟨⟨u, hu, hat⟩, hbefore⟩
    obtain ⟨hlt, rfl⟩ := List.getElem?_eq_some_iff.mp hu
    refine ⟨hlt, hat, fun j hj => ?_⟩
    have hjlt : j < c.units.length := Nat.lt_trans hj hlt
    simpa using hbefore ⟨j⟩ c.units[j] hj (List.getElem?_eq_getElem hjlt)

theorem Keeps.lookup (h : c.Keeps d) {address : String} {kind : Kind} {id : UnitId}
    (hl : c.lookup address kind = some id) : d.lookup address kind = some id := by
  rw [lookup_eq_some_iff] at hl ⊢
  obtain ⟨⟨u, hu, hat⟩, hbefore⟩ := hl
  obtain ⟨v, hv, ha, hk, ho⟩ := h id u hu
  refine ⟨⟨v, hv, by simpa [isAt, ha, hk, ho] using hat⟩, fun j w hj hw => ?_⟩
  have hlt : j.index < c.size := Nat.lt_trans hj (index_lt_of_get? hu)
  obtain ⟨x, hx⟩ := get?_of_index_lt hlt
  obtain ⟨y, hy, ha, hk, ho⟩ := h j x hx
  obtain rfl := Option.some.inj (hw.symm.trans hy)
  simpa [isAt, ha, hk, ho] using hbefore j x hj hx

theorem Keeps.lookup_old (h : c.Keeps d) {address : String} {kind : Kind} {id : UnitId}
    (hl : d.lookup address kind = some id) (hid : id.index < c.size) :
    c.lookup address kind = some id := by
  rw [lookup_eq_some_iff] at hl ⊢
  obtain ⟨⟨v, hv, hat⟩, hbefore⟩ := hl
  obtain ⟨u, hu⟩ := get?_of_index_lt hid
  obtain ⟨w, hw, ha, hk, ho⟩ := h id u hu
  obtain rfl := Option.some.inj (hv.symm.trans hw)
  refine ⟨⟨u, hu, by simpa [isAt, ha, hk, ho] using hat⟩, fun j x hj hx => ?_⟩
  obtain ⟨y, hy, ha, hk, ho⟩ := h j x hx
  simpa [isAt, ha, hk, ho] using hbefore j y hj hy

end Cache

namespace SourceUnit

def asked (address : String) : SourceUnit Tree Value Listener :=
  { (new address .module .load : SourceUnit Tree Value Listener) with
    state := .loading
    cancellable := true }

/-- A unit that has not been started, as if it had been asked for. -/
def awaited (u : SourceUnit Tree Value Listener) : SourceUnit Tree Value Listener :=
  if u.state = .notStarted then { u with state := .loading, cancellable := true } else u

def readAs (u : SourceUnit Tree Value Listener) (text : String) (tree : Tree)
    (imports : List UnitId) : SourceUnit Tree Value Listener :=
  { u with
    text := some text
    tree := some tree
    state := .parsed
    dependencies := some imports
    cancellable := false }

def withText (u : SourceUnit Tree Value Listener) (text : String) :
    SourceUnit Tree Value Listener :=
  { u with text := some text, state := .loaded, cancellable := false }

theorem awaited_of_ne {u : SourceUnit Tree Value Listener} (h : u.state ≠ .notStarted) :
    u.awaited = u :=
  if_neg h

@[simp] theorem address_awaited (u : SourceUnit Tree Value Listener) :
    u.awaited.address = u.address := by
  unfold awaited
  split <;> rfl

@[simp] theorem kind_awaited (u : SourceUnit Tree Value Listener) : u.awaited.kind = u.kind := by
  unfold awaited
  split <;> rfl

@[simp] theorem origin_awaited (u : SourceUnit Tree Value Listener) :
    u.awaited.origin = u.origin := by
  unfold awaited
  split <;> rfl

theorem isSettled_awaited (u : SourceUnit Tree Value Listener) :
    u.awaited.state.isSettled = u.state.isSettled := by
  by_cases h : u.state = .notStarted
  · simp [awaited, h, State.isSettled]
  · rw [awaited_of_ne h]

theorem readAs_awaited (u : SourceUnit Tree Value Listener) (text : String) (tree : Tree)
    (imports : List UnitId) : u.awaited.readAs text tree imports = u.readAs text tree imports := by
  unfold awaited
  split <;> rfl

end SourceUnit

namespace Session

def reading (s : Session Tree Value Listener) (u : SourceUnit Tree Value Listener)
    (text : String) : Reported Tree :=
  s.tools.parse ⟨u.address, s.translate text⟩ u.kind

def importsIn (s : Session Tree Value Listener) (u : SourceUnit Tree Value Listener)
    (text : String) : List String :=
  importAddresses
    (s.project.resolve · (if u.origin.resolvesAgainstBase then s.baseAddress else u.address))
    ((s.tools.specifiers (s.reading u text).value).mergeSort (· ≤ ·)) []

/-- What the texts of a session are read and run by, however they are fetched. -/
structure SameTerms (s t : Session Tree Value Listener) : Prop where
  tools : t.tools = s.tools
  baseAddress : t.baseAddress = s.baseAddress
  translate : t.translate = s.translate
  held : t.held = s.held

/-- A text that does not fail the batch. -/
structure Welcomes (s : Session Tree Value Listener) (u : SourceUnit Tree Value Listener)
    (text : String) : Prop where
  sound : ∀ d ∈ (s.reading u text).diagnostics, d.isError = false
  imports : ∀ address ∈ s.importsIn u text, ∀ d, s.cache.lookup address .module = some d →
    s.cache.isIn .error d = false

/-- A session before and after a text was read, and its imports were asked for. -/
structure Takes (s t : Session Tree Value Listener) (id : UnitId)
    (u : SourceUnit Tree Value Listener) (text : String) (imports : List UnitId) : Prop where
  unit : t.cache.get? id =
    some (u.readAs (s.translate text) (s.reading u text).value imports)
  other : ∀ j v, id ≠ j → s.cache.get? j = some v → t.cache.get? j = some v
  fresh : ∀ j v, t.cache.get? j = some v → s.cache.get? j = none →
    j ∈ imports ∧ ∃ address, v = .asked address
  found : FoundAt t.cache (s.importsIn u text) imports
  project : t.project =
    ((s.project.addFile ⟨u.address, s.translate text⟩).setParsed u.address).addModule u.address
  ns : t.ns = s.ns
  outbox : t.outbox = s.outbox
  terms : SameTerms s t
  history : ∃ events, t.history = s.history ++ events ∧ ∀ e ∈ events, e.phase? ≠ some .evaluate

/-- Two sessions with the same settled units. -/
def SameSettled (s t : Session Tree Value Listener) : Prop :=
  ∀ id u, u.state.isSettled = true → (s.cache.get? id = some u ↔ t.cache.get? id = some u)

/-- A session before and after its batch fell: what was not settled has failed. -/
structure Collapses (s t : Session Tree Value Listener) : Prop where
  settled : ∀ id u, s.cache.get? id = some u → u.state.isSettled = true →
    t.cache.get? id = some u
  failed : ∀ id v, t.cache.get? id = some v →
    (∀ u, s.cache.get? id = some u → u.state.isSettled = false) → v.state = .error
  pending : t.pending = []

theorem SameTerms.refl (s : Session Tree Value Listener) : SameTerms s s :=
  ⟨rfl, rfl, rfl, rfl⟩

theorem SameTerms.trans {s t w : Session Tree Value Listener} (h : SameTerms s t)
    (h' : SameTerms t w) : SameTerms s w :=
  ⟨h'.tools.trans h.tools, h'.baseAddress.trans h.baseAddress, h'.translate.trans h.translate,
    h'.held.trans h.held⟩

theorem SameSetting.terms {s t : Session Tree Value Listener} (h : SameSetting s t) :
    SameTerms s t :=
  ⟨h.tools, h.baseAddress, h.translate, h.held⟩

/-! ### Units that are about to be asked for -/

/-- A session as if every unit that it has found had been asked for. -/
def awaiting (s : Session Tree Value Listener) : Session Tree Value Listener :=
  { s with cache := { s.cache with units := s.cache.units.map SourceUnit.awaited } }

section Awaiting

variable {s : Session Tree Value Listener}

@[simp] theorem get?_awaiting (s : Session Tree Value Listener) (id : UnitId) :
    s.awaiting.cache.get? id = (s.cache.get? id).map SourceUnit.awaited := by
  simp [awaiting, Cache.get?]

@[simp] theorem lookup_awaiting (s : Session Tree Value Listener) (address : String) (kind : Kind) :
    s.awaiting.cache.lookup address kind = s.cache.lookup address kind := by
  have hat : (Cache.isAt address kind ∘ SourceUnit.awaited) =
      (Cache.isAt address kind : SourceUnit Tree Value Listener → Bool) := by
    funext u
    simp [Cache.isAt]
  simp only [awaiting, Cache.lookup, List.findIdx?_map, hat]

theorem awaiting_eq_self (h : ∀ id u, s.cache.get? id = some u → u.state ≠ .notStarted) :
    s.awaiting = s := by
  have hunits : s.cache.units.map SourceUnit.awaited = s.cache.units := by
    refine (List.map_congr_left fun u hu => ?_).trans (List.map_id _)
    obtain ⟨i, hi⟩ := List.mem_iff_getElem?.mp hu
    exact SourceUnit.awaited_of_ne (h ⟨i⟩ u hi)
  rw [awaiting, hunits]

theorem isIn_error_awaiting (s : Session Tree Value Listener) (id : UnitId) :
    s.awaiting.cache.isIn .error id = s.cache.isIn .error id := by
  cases hu : s.cache.get? id with
  | none => simp [Cache.isIn, Cache.state?, hu]
  | some u =>
    have hget : s.awaiting.cache.get? id = some u.awaited := by rw [get?_awaiting, hu]; rfl
    rw [Cache.isIn_eq hu, Cache.isIn_eq hget]
    by_cases hs : u.state = .notStarted
    · simp [SourceUnit.awaited, hs]
    · rw [SourceUnit.awaited_of_ne hs]

theorem sameSettled_awaiting (s : Session Tree Value Listener) : SameSettled s.awaiting s := by
  intro id u hs
  rw [get?_awaiting, Option.map_eq_some_iff]
  have hne : u.state ≠ .notStarted := fun he => by simp [he, State.isSettled] at hs
  constructor
  · rintro ⟨v, hv, rfl⟩
    rw [SourceUnit.isSettled_awaited] at hs
    have hstarted : v.state ≠ .notStarted := fun he => by simp [he, State.isSettled] at hs
    rwa [SourceUnit.awaited_of_ne hstarted]
  · exact fun hu => ⟨u, hu, SourceUnit.awaited_of_ne hne⟩

theorem reading_awaiting (s : Session Tree Value Listener) (u : SourceUnit Tree Value Listener)
    (text : String) : s.awaiting.reading u.awaited text = s.reading u text := by
  simp [reading, awaiting]

theorem importsIn_awaiting (s : Session Tree Value Listener) (u : SourceUnit Tree Value Listener)
    (text : String) : s.awaiting.importsIn u.awaited text = s.importsIn u text := by
  simp only [importsIn, reading_awaiting, SourceUnit.origin_awaited, SourceUnit.address_awaited]
  rfl

theorem welcomes_awaiting_iff (s : Session Tree Value Listener)
    (u : SourceUnit Tree Value Listener) (text : String) :
    s.awaiting.Welcomes u.awaited text ↔ s.Welcomes u text := by
  constructor
  · rintro ⟨hsound, himports⟩
    rw [reading_awaiting] at hsound
    simp only [importsIn_awaiting, lookup_awaiting, isIn_error_awaiting] at himports
    exact ⟨hsound, himports⟩
  · rintro ⟨hsound, himports⟩
    refine ⟨by rwa [reading_awaiting], ?_⟩
    simpa only [importsIn_awaiting, lookup_awaiting, isIn_error_awaiting] using himports

/-- A session before and after all units that it has found were asked for. -/
structure Awaits (s t : Session Tree Value Listener) : Prop where
  unit : ∀ j, t.cache.get? j = (s.cache.get? j).map SourceUnit.awaited
  project : t.project = s.project
  ns : t.ns = s.ns
  outbox : t.outbox = s.outbox
  terms : SameTerms s t
  history : ∃ events, t.history = s.history ++ events ∧ ∀ e ∈ events, e.phase? ≠ some .evaluate

theorem awaits_awaiting (s : Session Tree Value Listener) : Awaits s s.awaiting :=
  ⟨s.get?_awaiting, rfl, rfl, rfl, ⟨rfl, rfl, rfl, rfl⟩, [], (List.append_nil _).symm, by simp⟩

theorem Awaits.keeps {t : Session Tree Value Listener} (h : Awaits s t) :
    s.cache.Keeps t.cache := by
  intro j v hv
  rw [h.unit, hv]
  exact ⟨v.awaited, rfl, v.address_awaited, v.kind_awaited, v.origin_awaited⟩

end Awaiting

/-! ### Asking for imports -/

/-- A session before and after some units were asked for, as far as they were not before. -/
structure Asks (s t : Session Tree Value Listener) (ids : List UnitId) : Prop where
  unit : ∀ j, t.cache.get? j = (s.cache.get? j).map fun v =>
    if v.state = .notStarted ∧ j ∈ ids then { v with state := .loading, cancellable := true } else v
  project : t.project = s.project
  ns : t.ns = s.ns
  outbox : t.outbox = s.outbox
  setting : SameSetting s t
  history : ∃ events, t.history = s.history ++ events ∧ ∀ e ∈ events, e.phase? ≠ some .evaluate

variable {s t : Session Tree Value Listener}

theorem asks_loadUnit (sync : s.sync = false) (depth : Nat) (id : UnitId) :
    Asks s (loadUnit depth s id) [id] := by
  cases new : s.cache.isIn .notStarted id with
  | false =>
    rw [loadUnit_of_old new]
    refine ⟨fun j => ?_, rfl, rfl, rfl, .refl s, [], by simp, by simp⟩
    cases hv : s.cache.get? j with
    | none => rfl
    | some v =>
      have hold : ¬ (v.state = .notStarted ∧ j ∈ [id]) := by
        rintro ⟨hs, hj⟩
        rw [List.mem_singleton.mp hj] at hv
        simp [Cache.isIn_eq hv, hs] at new
      rw [Option.map_some, if_neg hold]
  | true =>
    obtain ⟨u, hu, hs⟩ := Cache.isIn_iff.mp new
    rw [loadUnit_of_new new sync]
    have hsetting : SameSetting s (s.started id) := ⟨rfl, rfl, rfl, rfl, rfl⟩
    have hsame : ((s.started id).request id).project = s.project ∧
        ((s.started id).request id).ns = s.ns := by
      simp only [Session.request]
      split <;> exact ⟨rfl, rfl⟩
    refine ⟨fun j => ?_, hsame.1, hsame.2, outbox_request _ id,
      hsetting.trans (sameSetting_request _ id), _, history_request _ id, by simp [Event.phase?]⟩
    rw [cache_request_started, Cache.get?_modify]
    by_cases hj : id = j
    · subst hj
      simp [hu, hs, SourceUnit.advance, State.mayBecome, State.rank]
    · simp [hj, Ne.symm hj]

theorem Asks.trans {w : Session Tree Value Listener} {ids ids' : List UnitId} (h : Asks s t ids)
    (h' : Asks t w ids') : Asks s w (ids ++ ids') where
  unit := by
    intro j
    rw [h'.unit, h.unit]
    cases s.cache.get? j with
    | none => rfl
    | some v =>
      by_cases hs : v.state = .notStarted <;> by_cases hj : j ∈ ids <;> simp [hs, hj]
  project := h'.project.trans h.project
  ns := h'.ns.trans h.ns
  outbox := h'.outbox.trans h.outbox
  setting := h.setting.trans h'.setting
  history := by
    obtain ⟨events, he, hp⟩ := h.history
    obtain ⟨events', he', hp'⟩ := h'.history
    refine ⟨events ++ events', by rw [he', he, List.append_assoc], fun e hm => ?_⟩
    exact (List.mem_append.mp hm).elim (hp e) (hp' e)

theorem asks_foldl (sync : s.sync = false) (depth : Nat) (ids : List UnitId) :
    Asks s (ids.foldl (loadUnit depth) s) ids := by
  induction ids generalizing s with
  | nil => exact ⟨fun j => by simp, rfl, rfl, rfl, .refl s, [], by simp, by simp⟩
  | cons id ids ih =>
    have hfirst := asks_loadUnit sync depth id
    exact hfirst.trans (ih (hfirst.setting.sync.trans sync))

theorem Asks.awaits {ids : List UnitId} (h : Asks s t ids)
    (all : ∀ j v, s.cache.get? j = some v → v.state = .notStarted → j ∈ ids) : Awaits s t where
  unit := by
    intro j
    rw [h.unit]
    cases hv : s.cache.get? j with
    | none => rfl
    | some v =>
      by_cases hs : v.state = .notStarted
      · simp [SourceUnit.awaited, hs, all j v hv hs]
      · simp [SourceUnit.awaited, hs]
  project := h.project
  ns := h.ns
  outbox := h.outbox
  terms := h.setting.terms
  history := h.history

end Session

end UnitLoader
