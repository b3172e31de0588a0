import UnitLoader.Proofs.Arrivals

/-! Loading with fetches that block. What a unit imports is fetched and read before anything
else that its referrer imports is looked at. At every point of this descent the session is
one that answers could have brought about, if what it has found and not read counts as asked
for; and the descent goes no deeper than there are texts to be had. -/

namespace UnitLoader

variable {Tree Value Listener : Type}

namespace Session

variable {sources : Sources} {s t : Session Tree Value Listener} {ahead : List UnitId}
  {id : UnitId} {u : SourceUnit Tree Value Listener} {least : Nat}

theorem SameSettled.trans {w : Session Tree Value Listener} (h : SameSettled s t)
    (h' : SameSettled t w) : SameSettled s w :=
  fun id u hs => (h id u hs).trans (h' id u hs)

theorem Calm.loadUnit_eq (h : t.Calm) (depth : Nat) (id : UnitId) : loadUnit depth t id = t := by
  exact loadUnit_of_old (Cache.isIn_eq_false_of_settled rfl (h.settled id)) depth

theorem started_of_barrierReached (h : t.barrierReached = true) :
    ∀ id u, t.cache.get? id = some u → u.state ≠ .notStarted := by
  intro id u hu hs
  simp [barrierReached_eq_false hu (by simp [hs, State.isPastParsing, State.rank])] at h

/-- On the descent no text has failed, and at least some number of them has arrived. -/
structure Descending (sources : Sources) (s : Session Tree Value Listener) (ahead : List UnitId)
    (least : Nat) (t : Session Tree Value Listener) : Prop where
  grown : Grown sources s t.awaiting
  sound : Moment.Sound ⟨t, ahead, .nothing⟩
  sync : t.sync = true
  fetcher : t.fetcher.answer = sources
  pending : t.pending = []
  arrived : least ≤ t.awaiting.parsedIds.length

/-- A session that loads with blocking fetches, with units ahead of it. Either it is still on
the descent, or its batch is over. -/
inductive Descends (sources : Sources) (s : Session Tree Value Listener) (ahead : List UnitId)
    (least : Nat) (t : Session Tree Value Listener) : Prop
  | going (underway : Descending sources s ahead least t) : Descends sources s ahead least t
  | ended (answered : Answered sources s [] t) (calm : t.Calm) : Descends sources s ahead least t

theorem Descends.mono (h : Descends sources s ahead least t) {fewer : Nat} (le : fewer ≤ least) :
    Descends sources s ahead fewer t := by
  cases h with
  | going underway => exact .going { underway with arrived := Nat.le_trans le underway.arrived }
  | ended answered calm => exact .ended answered calm

theorem Descends.checkBarrier (h : Descends sources s ahead least t) :
    Descends sources s ahead least t.checkBarrier := by
  cases h with
  | ended answered calm =>
    rw [checkBarrier_of_closed calm.barrierReached]
    exact .ended answered calm
  | going underway =>
    cases hb : t.barrierReached with
    | false =>
      rw [checkBarrier_of_closed hb]
      exact .going underway
    | true =>
      have hstarted := started_of_barrierReached hb
      have hsound : Moment.Sound ⟨t, [], .nothing⟩ :=
        underway.sound.congr rfl rfl rfl rfl fun id hn _ => by
          obtain ⟨u, hu, hs⟩ := Cache.isIn_iff.mp hn
          exact absurd hs (hstarted id u hu)
      have hgrown := underway.grown
      rw [awaiting_eq_self hstarted] at hgrown
      exact .ended (.going hgrown hsound rfl rfl) (calm_checkBarrier underway.sound hb)

/-- With nothing ahead any more, the session is one whose fetches were all answered. -/
theorem Descends.answered (h : Descends sources s [] least t) (closed : t.barrierReached = false) :
    Answered sources s [] t ∧ t.pending = [] := by
  cases h with
  | ended answered calm => exact ⟨answered, calm.pending⟩
  | going underway =>
    have hstarted : ∀ id u, t.cache.get? id = some u → u.state ≠ .notStarted :=
      fun id u hu hs => by cases (underway.sound.fits id u hu).ahead hs
    have hgrown := underway.grown
    rw [awaiting_eq_self hstarted] at hgrown
    exact ⟨.of_grown hgrown underway.sound closed, underway.pending⟩

/-! ### One unit -/

section Unit

variable (h : Descending sources s (id :: ahead) least t) (hu : t.cache.get? id = some u)
  (hs : u.state = .notStarted)
include h hu hs

theorem Descending.inText (text : String) :
    InText t ahead id u text (((t.started id).fetched id).withText id text) := by
  have hfetched := h.sound.fetch (Cache.isIn_iff.mpr ⟨u, hu, hs⟩) (.ok text)
  have hcancel : u.cancellable = false := (h.sound.notStarted hu hs).2
  refine ⟨hfetched.take, ?_, fun j hj => ?_, rfl, rfl, rfl, ⟨rfl, rfl, rfl, rfl, rfl⟩,
    [.fetched id ((t.started id).cache.addressOf id)], rfl, by simp [Event.phase?]⟩
  · simp [Cache.get?_modify, hu, SourceUnit.advance, hs, State.mayBecome, State.rank,
      SourceUnit.withText, hcancel]
    rfl
  · simp [Cache.get?_modify, hj]

theorem Descending.reads {text : String} (answer : sources u.address = .ok text)
    (hw : t.Welcomes u text) :
    ∃ imports n, Descending sources s (imports ++ ahead) (least + 1) n ∧
      n.fetcher = ((t.started id).fetched id).fetcher ∧
      ∀ load, handleLoaded load (((t.started id).fetched id).withText id text) id =
        (imports.foldl load n).checkBarrier := by
  have hin := h.inText hu hs text
  obtain ⟨imports, hreads, hfound, hsound, hloaded⟩ :=
    hin.welcomed hu (by simp [hs, State.isSettled]) hw
  generalize hm : ((t.started id).fetched id).withText id text = m at *
  have htakes := hin.takes hu hreads hfound (awaits_awaiting (m.understood id))
  have hawaited : u.awaited = { u with state := .loading, cancellable := true } := if_pos hs
  have hd : u.awaited.dependencies = none := by
    rw [hawaited]
    exact (h.sound.fits id u hu).proper.dependencies (by simp [hs, State.isPastParsing, State.rank])
  have hget : t.awaiting.cache.get? id = some u.awaited := by rw [get?_awaiting, hu]; rfl
  have hloading : u.awaited.state = .loading := by rw [hawaited]
  have hfetcher : (m.understood id).fetcher = ((t.started id).fetched id).fetcher := by
    rw [hreads.same, ← hm]
    rfl
  refine ⟨imports, m.understood id, ⟨?_, hsound, ?_, ?_, ?_, ?_⟩, hfetcher, hloaded⟩
  · exact h.grown.takes hd htakes hget hloading (by rw [SourceUnit.address_awaited, answer])
      ((t.welcomes_awaiting_iff u text).mpr hw)
  · rw [hreads.same]
    exact hin.setting.sync.trans h.sync
  · rw [hfetcher, ← h.fetcher]
    rfl
  · rw [hreads.same, ← h.pending, ← hm]
    rfl
  · have hlt := htakes.parsedIds_lt (by simp [Cache.isIn_eq hget, hloading])
    exact Nat.lt_of_le_of_lt h.arrived hlt

theorem Descending.falls {n r : Session Tree Value Listener}
    (unwelcome : ∀ text, sources u.address = .ok text → ¬ t.Welcomes u text)
    (same : SameSettled t n) (hf : Falls n r) : Descends sources s ahead least r := by
  have hget : t.awaiting.cache.get? id = some u.awaited := by rw [get?_awaiting, hu]; rfl
  have hloading : u.awaited.state = .loading := by simp [SourceUnit.awaited, hs]
  have hsame := (h.grown.sameSettled.trans t.sameSettled_awaiting).trans same
  refine .ended (.fallen h.grown hget hloading (fun text answer hw => ?_) (hf.collapses hsame)) hf.calm
  rw [SourceUnit.address_awaited] at answer
  rw [← h.grown.welcomes_iff, welcomes_awaiting_iff] at hw
  exact unwelcome text answer hw

end Unit

/-! ### The recursion -/

/-- What it takes to load a unit that is ahead on the descent. -/
def Descent (sources : Sources) (s : Session Tree Value Listener) (least : Nat)
    (load : Session Tree Value Listener → UnitId → Session Tree Value Listener) : Prop :=
  ∀ ahead id t, Descends sources s (id :: ahead) least t → Descends sources s ahead least (load t id)

theorem Descent.foldl {load : Session Tree Value Listener → UnitId → Session Tree Value Listener}
    (hload : Descent sources s least load) (ids : List UnitId)
    (h : Descends sources s (ids ++ ahead) least t) :
    Descends sources s ahead least (ids.foldl load t) := by
  induction ids generalizing t with
  | nil => exact h
  | cons id ids ih => exact ih (hload (ids ++ ahead) id t h)

theorem Descending.load {depth : Nat} (hload : Descent sources s (least + 1) (loadUnit depth))
    (h : Descending sources s (id :: ahead) least t) (new : t.cache.isIn .notStarted id = true) :
    Descends sources s ahead least (loadUnit (depth + 1) t id) := by
  obtain ⟨u, hu, hs⟩ := Cache.isIn_iff.mp new
  have hopen : u.state.isSettled = false := by simp [hs, State.isSettled]
  have hstarted : (t.started id).cache.get? id = some { u with state := .loading } := by
    simp [Cache.get?_modify, hu, SourceUnit.advance, hs, State.mayBecome, State.rank]
  rw [loadUnit_succ new h.sync, Cache.addressOf_eq hstarted, h.fetcher]
  cases ht : sources u.address with
  | error e =>
    have hfetched := h.sound.fetch new (.error e)
    have hsame : SameSettled t ((t.started id).fetched id) := by
      refine sameSettled_of_other hu hopen hstarted rfl fun j hj w _ => ?_
      simp [Cache.get?_modify, hj]
    exact h.falls hu hs (by simp [ht]) hsame (hfetched.falls_refused id e)
  | ok text =>
    by_cases hw : t.Welcomes u text
    · obtain ⟨imports, n, hn, -, hloaded⟩ := h.reads hu hs ht hw
      have hfold := hload.foldl imports (.going hn)
      have hresult := (hfold.mono (Nat.le_succ least)).checkBarrier
      rwa [← hloaded] at hresult
    · obtain ⟨n, hsame, hfalls⟩ := (h.inText hu hs text).unwelcome hu hopen hw (loadUnit depth)
      refine h.falls hu hs (fun text' ht' => ?_) hsame hfalls
      obtain rfl := Except.ok.inj (ht.symm.trans ht')
      exact hw

/-- With a depth that the number of texts to be had leaves unused, no fetch is given up. -/
theorem descent_loadUnit {bound : Nat}
    (bounded : ∀ t, Grown sources s t → t.parsedIds.length ≤ bound) (depth : Nat) {least : Nat}
    (deep : bound < depth + least) : Descent sources s least (loadUnit depth) := by
  induction depth generalizing least with
  | zero =>
    rintro ahead id t (underway | ⟨answered, calm⟩)
    · have := bounded _ underway.grown
      have := underway.arrived
      omega
    · rw [calm.loadUnit_eq]
      exact .ended answered calm
  | succ depth ih =>
    rintro ahead id t (underway | ⟨answered, calm⟩)
    · cases new : t.cache.isIn .notStarted id with
      | false =>
        rw [loadUnit_of_old new]
        exact .going { underway with sound := underway.sound.skip new }
      | true => exact underway.load (ih (by omega)) new
    · rw [calm.loadUnit_eq]
      exact .ended answered calm

end Session

end UnitLoader
