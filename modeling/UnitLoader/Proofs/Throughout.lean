import UnitLoader.Proofs.Chronicle

/-! Properties of every moment of every run. They may be about all that lasts, and also
about how far the units have got, what is in hand and what the history tells. -/

namespace UnitLoader

variable {Tree Value : Type}

open Session

/-- A change of nothing but what a session has to do with its fetcher, its listeners and
its namespace. -/
def Session.Apart {Listener : Type} (s t : Session Tree Value Listener) : Prop :=
  t = { s with
    sync := t.sync, fetcher := t.fetcher, channel := t.channel, outbox := t.outbox, ns := t.ns,
    held := t.held }

namespace Session

variable {Listener : Type} {s : Session Tree Value Listener}
  {registered : List (UnitId × Listener)} {m : Moment Tree Value Listener} {id : UnitId}

/-- Entering a step, the units that are there get a listener at most. -/
theorem Enters.old (h : Enters s registered m) {u : SourceUnit Tree Value Listener}
    (hu : s.cache.get? id = some u) :
    ∃ listeners, m.session.cache.get? id = some { u with listeners := listeners } ∧
      m.hand.unit? ≠ some id := by
  cases h with
  | find address kind => exact ⟨u.listeners, get?_find hu address kind, by simp [InHand.unit?]⟩
  | subscribe address kind unit unsettled listener =>
    simp only [cache_listening, Cache.get?_modify, get?_find hu]
    split
    · exact ⟨_, rfl, by simp [InHand.unit?]⟩
    · exact ⟨u.listeners, rfl, by simp [InHand.unit?]⟩
  | evaluate code listener =>
    have hlt := Cache.index_lt_of_get? hu
    refine ⟨u.listeners, ?_, ?_⟩
    · rw [get?_evaluating, if_neg (by omega), hu]
    · simp only [InHand.unit?, ne_eq, Option.some.injEq, UnitId.ext_iff]
      omega
  | receive channel => exact ⟨u.listeners, hu, by simp [InHand.unit?]⟩

/-- A unit that a step begins with, if it was not there, is to be started or has its text. -/
theorem Enters.new (h : Enters s registered m) {v : SourceUnit Tree Value Listener}
    (hv : m.session.cache.get? id = some v) (absent : s.cache.get? id = none) :
    v.dependencies = none ∧ (v.origin = .load ∧ v.state = .notStarted ∧ m.hand = .nothing ∨
      v.origin = .eval ∧ v.state = .loaded ∧ m.hand = .text id) := by
  have hfind {address : String} {kind : Kind} {w : SourceUnit Tree Value Listener}
      (hw : (s.find address kind).session.cache.get? id = some w) :
      w = .new (s.resolveAddress address) kind .load :=
    (get?_find_back hw).resolve_left fun hold => by cases absent.symm.trans hold
  cases h with
  | find address kind =>
    obtain rfl := hfind hv
    exact ⟨rfl, .inl ⟨rfl, rfl, rfl⟩⟩
  | subscribe address kind unit unsettled listener =>
    simp only [cache_listening, Cache.get?_modify] at hv
    split at hv
    · obtain ⟨w, hw, rfl⟩ := Option.map_eq_some_iff.mp hv
      obtain rfl := hfind hw
      exact ⟨rfl, .inl ⟨rfl, rfl, rfl⟩⟩
    · obtain rfl := hfind hv
      exact ⟨rfl, .inl ⟨rfl, rfl, rfl⟩⟩
  | evaluate code listener =>
    rw [get?_evaluating] at hv
    split at hv
    · next hid =>
      obtain rfl := Option.some.inj hv
      obtain rfl : id = ⟨s.cache.size⟩ := UnitId.ext_iff.mpr hid
      exact ⟨rfl, .inr ⟨rfl, rfl, rfl⟩⟩
    · cases absent.symm.trans hv
  | receive channel => cases absent.symm.trans hv

end Session

/-- A property of moments that nothing that can happen takes away. -/
structure Throughout (P : Moment Tree Value (Listener Value) → Prop) : Prop where
  apart : ∀ s t, P ⟨s, [], .nothing⟩ → s.Apart t → P ⟨t, [], .nothing⟩
  listens : ∀ s id u listener, s.cache.get? id = some u → u.state.isSettled = false →
    P ⟨s, [], .nothing⟩ → P ⟨s.listening id listener, [], .nothing⟩
  enters : ∀ s registered m, s.AtRest → P ⟨s, [], .nothing⟩ → Enters s registered m → P m
  moves : ∀ m n, m.Sound → P m → Move m n → P n

namespace Throughout

variable {P : Moment Tree Value (Listener Value) → Prop}
  {s t : Session Tree Value (Listener Value)} {m n : Moment Tree Value (Listener Value)}

theorem run_moves (h : Throughout P) (hm : m.Sound) (hp : P m) (moves : Moves m n) : P n := by
  suffices hboth : n.Sound ∧ P n from hboth.2
  induction moves with
  | refl => exact ⟨hm, hp⟩
  | tail _ hmove ih => exact ⟨hmove.sound ih.1, h.moves _ _ ih.1 ih.2 hmove⟩

theorem advance (h : Throughout P) (rest : s.AtRest) (hs : P ⟨s, [], .nothing⟩)
    (step : Advance s t) : P ⟨t, [], .nothing⟩ := by
  obtain ⟨registered, sync, m, last, hsteps⟩ := rest.steps step
  have hsync : P ⟨{ s with sync := sync }, [], .nothing⟩ := h.apart s _ hs rfl
  have hfirst : P m := h.enters _ _ _ (rest.withSync sync) hsync hsteps.enters
  have hlast := h.run_moves (hsteps.enters.sound (rest.withSync sync)) hfirst hsteps.moves
  rw [hsteps.leaves]
  exact h.apart last _ hlast rfl

theorem alters (h : Throughout P) {sharing : Bool} {defined : List (Deed Value)} (rest : s.AtRest)
    (hs : P ⟨s, [], .nothing⟩) (halters : Session.Alters sharing s defined t) :
    P ⟨t, [], .nothing⟩ := by
  cases halters with
  | act step => exact h.advance rest hs step.advance
  | listen unit unsettled listener => exact h.listens _ _ _ listener unit unsettled hs
  | define free name value => exact h.apart s _ hs rfl
  | beside change => exact h.apart s _ hs (by rw [change.same]; rfl)
  | shared shares ns held => exact h.apart s _ hs rfl

/-- What holds throughout and holds at the start holds of every session in every run. -/
theorem run (h : Throughout P) (start : ∀ setup ns, P ⟨Host.opened setup ns, [], .nothing⟩)
    {ledger : List Registration} {host : Host Tree Value} (run : Host.Run ledger host)
    {loader : Nat} (hs : host.session? loader = some s) : P ⟨s, [], .nothing⟩ := by
  obtain ⟨deeds, c⟩ := run.chronicle loader
  obtain ⟨seat, hseat, rfl⟩ := Host.seat_of_session? hs
  exact (c.induct (P := fun _ _ s => P ⟨s, [], .nothing⟩) (fun setup _ ns _ => start setup ns)
    fun _ _ s _ t _ rest hs halters _ => h.alters rest hs halters).2 seat hseat

end Throughout

end UnitLoader
