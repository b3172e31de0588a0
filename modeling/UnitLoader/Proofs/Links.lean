import UnitLoader.Proofs.Progress

/-! What a unit imports is always in the cache with it. -/

namespace UnitLoader

variable {Tree Value Listener : Type}

def Cache.Linked (c : Cache Tree Value Listener) : Prop :=
  ∀ id u, c.get? id = some u → ∀ d ∈ u.dependencyIds, d.index < c.size

namespace Session

variable {s t : Session Tree Value Listener}

theorem linked_of_unit (h : s.cache.Linked) (size : t.cache.size = s.cache.size)
    (unit : ∀ id u, s.cache.get? id = some u →
      ∃ v, t.cache.get? id = some v ∧ v.dependencies = u.dependencies) : t.cache.Linked := by
  intro id v hv d hd
  obtain ⟨u, hu⟩ := Cache.get?_of_index_lt (size ▸ Cache.index_lt_of_get? hv)
  obtain ⟨w, hw, heq⟩ := unit id u hu
  obtain rfl := Option.some.inj (hv.symm.trans hw)
  rw [SourceUnit.dependencyIds, heq] at hd
  rw [size]
  exact h id u hu d hd

theorem linked_of_modify (h : s.cache.Linked) {id : UnitId}
    {f : SourceUnit Tree Value Listener → SourceUnit Tree Value Listener}
    (cache : t.cache = s.cache.modify id f) (keeps : ∀ u, (f u).dependencies = u.dependencies) :
    t.cache.Linked := by
  refine linked_of_unit h (by rw [cache, Cache.size_modify]) fun j u hu => ?_
  rw [cache, Cache.get?_modify]
  split
  · exact ⟨f u, by simp [hu], keeps u⟩
  · exact ⟨u, hu, rfl⟩

theorem linked_of_push (h : s.cache.Linked) {w : SourceUnit Tree Value Listener}
    (cache : t.cache = s.cache.push w) (new : w.dependencies = none) : t.cache.Linked := by
  intro id v hv d hd
  rw [cache, Cache.get?_push] at hv
  rw [cache, Cache.size_push]
  split at hv
  · obtain rfl := Option.some.inj hv
    simp [SourceUnit.dependencyIds, new] at hd
  · exact Nat.lt_succ_of_lt (h id v hv d hd)

theorem Falls.linked (hf : Falls s t) (h : s.cache.Linked) : t.cache.Linked :=
  linked_of_unit h hf.size fun id u hu => by
    obtain ⟨v, hv, huv⟩ := hf.unit id u hu
    exact ⟨v, hv, huv.dependencies⟩

theorem linked_checkBarrier {ahead : List UnitId} (hs : Moment.Sound ⟨s, ahead, .nothing⟩)
    (hb : s.barrierReached = true) (h : s.cache.Linked) : s.checkBarrier.cache.Linked := by
  have hr := hs.ready hb
  by_cases hp : s.Passes
  · have hc := hr.completes hb hp
    refine linked_of_unit h hc.size fun id u hu => ⟨_, hc.unit id u hu, ?_⟩
    split <;> rfl
  · exact (hr.falls hb hp).falls.linked h

theorem FoundAt.index_lt {c : Cache Tree Value Listener} {addresses : List String}
    {ids : List UnitId} (h : FoundAt c addresses ids) : ∀ id ∈ ids, id.index < c.size := by
  induction h with
  | nil => simp
  | cons hl _ ih =>
    intro id hid
    rcases List.mem_cons.mp hid with rfl | hid
    · obtain ⟨u, hu, -⟩ := Cache.lookup_eq_some hl
      exact Cache.index_lt_of_get? hu
    · exact ih id hid

theorem Reads.linked {id : UnitId} {u : SourceUnit Tree Value Listener} {tree : Tree}
    {imports : List UnitId} (hr : Reads s t id u tree imports) (h : s.cache.Linked) :
    t.cache.Linked := by
  have hsize : s.cache.size ≤ t.cache.size := by
    by_contra hlt
    obtain ⟨w, hw⟩ : ∃ w, s.cache.get? ⟨t.cache.size⟩ = some w :=
      Cache.get?_of_index_lt (show t.cache.size < s.cache.size by omega)
    have hout (v : SourceUnit Tree Value Listener) : t.cache.get? ⟨t.cache.size⟩ ≠ some v :=
      fun hv => absurd (Cache.index_lt_of_get? hv) (Nat.lt_irrefl _)
    by_cases hid : id = ⟨t.cache.size⟩
    · subst hid
      exact hout _ hr.unit
    · exact hout w (hr.other _ w hid hw)
  intro j v hv d hd
  by_cases hj : id = j
  · subst hj
    obtain rfl := Option.some.inj (hv.symm.trans hr.unit)
    exact hr.found.index_lt d hd
  · cases hw : s.cache.get? j with
    | some w =>
      obtain rfl := Option.some.inj (hv.symm.trans (hr.other j w hj hw))
      exact Nat.lt_of_lt_of_le (h j v hw d hd) hsize
    | none =>
      obtain ⟨-, address, kind, rfl⟩ := hr.fresh j v hv hw
      simp [SourceUnit.dependencyIds, SourceUnit.new] at hd

end Session

open Session

@[simp] theorem SourceUnit.dependencies_advance (u : SourceUnit Tree Value Listener)
    (state : State) : (u.advance state).dependencies = u.dependencies := by
  simp only [advance]
  split <;> rfl

theorem Move.linked {m n : Moment Tree Value Listener} (hmove : Move m n) (hs : m.Sound)
    (h : m.session.cache.Linked) : n.session.cache.Linked := by
  cases hmove with
  | skip => exact h
  | @ask s id =>
    exact linked_of_modify h (cache_request_started s id) fun u => u.dependencies_advance _
  | fetch => exact linked_of_modify h rfl fun u => u.dependencies_advance _
  | giveUp => exact linked_of_modify h rfl fun u => u.dependencies_advance _
  | receive => exact linked_of_modify h rfl fun _ => rfl
  | take => exact linked_of_modify h rfl fun u => SourceUnit.dependencies_advance _ _
  | @refuse s id ahead e =>
    have hfalls : Falls s (s.refused id e) := hs.falls_refused id e
    dsimp only
    exact hfalls.linked h
  | @misread s id ahead u unit sound =>
    have hfalls : Falls s (s.misread id) := hs.falls_misread unit sound
    dsimp only
    exact hfalls.linked h
  | read unit sound =>
    obtain ⟨imports, hr⟩ := hs.reads unit sound
    exact hr.linked h
  | @reject s id failed ahead u unit sound =>
    obtain ⟨imports, hr⟩ := hs.reads unit sound
    have hfalls : Falls (s.understood id) (s.rejected id failed) := hs.falls_rejected unit sound
    dsimp only
    exact hfalls.linked (hr.linked h)
  | pass reached => exact linked_checkBarrier hs reached h

theorem Moves.linked {m n : Moment Tree Value Listener} (hmoves : Moves m n) (hs : m.Sound)
    (h : m.session.cache.Linked) : n.session.cache.Linked := by
  induction hmoves with
  | refl => exact h
  | tail hbefore hmove ih => exact hmove.linked (Moves.sound hbefore hs) ih

end UnitLoader
