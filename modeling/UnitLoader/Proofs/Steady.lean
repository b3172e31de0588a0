import UnitLoader.Lang.Toolchain
import UnitLoader.Proofs.Orderly
import UnitLoader.Text.Unicode

/-! What can be relied on whenever a session is at rest, which it is between any two
tasks of its host, so also while one of its listeners is being called. No unit is stuck
behind the barrier: where nothing is fetched, every unit is settled. -/

namespace UnitLoader

variable {Tree Value : Type}

namespace Session

variable {Listener : Type}

/-- The states at rest, and what goes with them. -/
structure Steady (s : Session Tree Value Listener) : Prop where
  state : ∀ id u, s.cache.get? id = some u →
    u.state = .loading ∨ u.state = .parsed ∨ u.state = .complete ∨ u.state = .error
  pending : ∀ id, id ∈ s.pending ↔ s.cache.isIn .loading id = true
  cancellable : ∀ id, id ∈ s.pending ↔ ∃ u, s.cache.get? id = some u ∧ u.cancellable = true
  nodup : s.pending.Nodup
  parsed : s.cache.hasAny (· = .parsed) = true → s.cache.hasAny (· = .loading) = true
  settled : s.pending = [] → ∀ id u, s.cache.get? id = some u → u.state.isSettled = true

variable {s : Session Tree Value Listener}

theorem AtRest.state (h : s.AtRest) (id : UnitId) {u : SourceUnit Tree Value Listener}
    (hu : s.cache.get? id = some u) :
    u.state = .loading ∨ u.state = .parsed ∨ u.state = .complete ∨ u.state = .error := by
  have hf := h.sound.fits id u hu
  cases hs : u.state with
  | notStarted => cases hf.ahead hs
  | loading => exact .inl rfl
  | loaded => cases hf.loaded.mp hs
  | parsed => exact .inr (.inl rfl)
  | transformed => exact absurd hs hf.proper.transformed
  | complete => exact .inr (.inr (.inl rfl))
  | error => exact .inr (.inr (.inr rfl))

theorem AtRest.mem_pending_iff (h : s.AtRest) {id : UnitId} :
    id ∈ s.pending ↔ s.cache.isIn .loading id = true := by
  rw [Cache.isIn_iff]
  constructor
  · intro hp
    obtain ⟨u, hu⟩ := Cache.get?_of_index_lt (h.sound.known id hp)
    exact ⟨u, hu, ((h.sound.fits id u hu).pending.mp hp).1⟩
  · rintro ⟨u, hu, hs⟩
    exact (h.sound.fits id u hu).pending.mpr ⟨hs, fun _ he => by cases he⟩

theorem AtRest.mem_pending_iff_cancellable (h : s.AtRest) {id : UnitId} :
    id ∈ s.pending ↔ ∃ u, s.cache.get? id = some u ∧ u.cancellable = true := by
  constructor
  · intro hp
    obtain ⟨u, hu⟩ := Cache.get?_of_index_lt (h.sound.known id hp)
    exact ⟨u, hu, (h.sound.fits id u hu).cancellable.mpr hp⟩
  · rintro ⟨u, hu, hc⟩
    exact (h.sound.fits id u hu).cancellable.mp hc

/-- A parsed unit waits for one that is being fetched, or the barrier would open. -/
theorem AtRest.loading_of_parsed (h : s.AtRest)
    (hp : s.cache.hasAny (· = .parsed) = true) : s.cache.hasAny (· = .loading) = true := by
  -- Were all units past parsing, the barrier would be reached.
  have hclosed := h.closed
  simp only [Session.barrierReached, hp, Bool.and_true] at hclosed
  obtain ⟨u, hmem, hpast⟩ : ∃ u ∈ s.cache.units, u.state.isPastParsing = false := by
    simpa [Cache.areAll] using hclosed
  obtain ⟨i, hu⟩ := List.getElem?_of_mem hmem
  refine Cache.hasAny_iff.mpr ⟨⟨i⟩, u, hu, ?_⟩
  rcases h.state ⟨i⟩ hu with hs | hs | hs | hs
  · simpa using hs
  all_goals simp [hs, State.isPastParsing, State.rank] at hpast

theorem AtRest.settled_of_pending (h : s.AtRest) (hp : s.pending = []) {id : UnitId}
    {u : SourceUnit Tree Value Listener} (hu : s.cache.get? id = some u) :
    u.state.isSettled = true := by
  have hnone : s.cache.hasAny (· = .loading) = false := by
    refine Bool.eq_false_iff.mpr fun hl => ?_
    obtain ⟨j, v, hv, hs⟩ := Cache.hasAny_iff.mp hl
    have := h.mem_pending_iff.mpr (Cache.isIn_iff.mpr ⟨v, hv, by simpa using hs⟩)
    simp [hp] at this
  rcases h.state id hu with hs | hs | hs | hs
  · have hany : s.cache.hasAny (· = .loading) = true :=
      Cache.hasAny_iff.mpr ⟨id, u, hu, by simpa using hs⟩
    simp [hnone] at hany
  · have := h.loading_of_parsed (Cache.hasAny_iff.mpr ⟨id, u, hu, by simpa using hs⟩)
    simp [hnone] at this
  all_goals simp [hs, State.isSettled]

end Session

namespace Host

/-- Every session is steady between any two tasks. -/
theorem Run.steady {ledger : List Registration} {h : Host Tree Value} (run : Run ledger h)
    (loader : Nat) {s : Session Tree Value (Listener Value)} (hs : h.session? loader = some s) :
    s.Steady where
  state := fun id _ hu => (run.orderly.rest loader s hs).state id hu
  pending := fun _ => (run.orderly.rest loader s hs).mem_pending_iff
  cancellable := fun _ => (run.orderly.rest loader s hs).mem_pending_iff_cancellable
  nodup := (run.orderly.rest loader s hs).sound.nodup
  parsed := (run.orderly.rest loader s hs).loading_of_parsed
  settled := fun hp _ _ hu => (run.orderly.rest loader s hs).settled_of_pending hp hu

/-- A loader with a module that imports from another one. -/
def waiting : Setup Program UnitLoader.Value :=
  .plain Lang.toolchain .default (.ofList
    [("/a", .ok "import y from \"/b\"\ny"), ("/b", .ok "export y = 1")] false)

/-- The text of the module has arrived, and that of its import is on its way. -/
def waitingHost : Host Program UnitLoader.Value :=
  (((ofSeats []).addLoader waiting false).toOption.get rfl).takeAll 9
    [.request 0 (.load "/a" .module), .supply 0 (.release "/a"), .request 0 .poll]

/-- A module that was parsed waits behind the one that is still loading. -/
theorem Run.steady_fetching :
    ∃ (ledger : List Registration)
      (s : Session Program UnitLoader.Value (Listener UnitLoader.Value)),
      Run ledger waitingHost ∧ waitingHost.session? 0 = some s ∧
        s.cache.units.map (·.state) = [.parsed, .loading] ∧ s.pending = [⟨1⟩] ∧ s.Steady := by
  have reached : ∃ ledger, Run ledger waitingHost :=
    (Run.empty.join waiting false rfl).takeAll 9 _
  obtain ⟨ledger, run⟩ := reached
  have hstates : (waitingHost.session? 0).map (fun s =>
      (s.cache.units.map (·.state), s.pending)) = some ([.parsed, .loading], [⟨1⟩]) := by
    decide +kernel
  obtain ⟨s, hs, he⟩ := Option.map_eq_some_iff.mp hstates
  obtain ⟨hstates, hpending⟩ := Prod.mk.inj he
  exact ⟨_, s, run, hs, hstates, hpending, Run.steady run 0 hs⟩

end Host

end UnitLoader
