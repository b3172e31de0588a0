import UnitLoader.Proofs.Growth

/-! Two sessions that have grown from one, each in its own order. Units that were there at
the start keep their numbers, and units that were found since correspond by their address.
Where all texts have arrived, each unit of the one has its twin in the other. -/

namespace UnitLoader

variable {Tree Value Listener : Type}

namespace Session

/-- Units of two sessions that have grown from one. -/
inductive Twin (s m m' : Session Tree Value Listener) : UnitId → UnitId → Prop
  | old {id : UnitId} (known : id.index < s.cache.size) : Twin s m m' id id
  | new {i j : UnitId} {address : String} (left : s.cache.size ≤ i.index)
      (right : s.cache.size ≤ j.index) (found : m.cache.lookup address .module = some i)
      (found' : m'.cache.lookup address .module = some j) : Twin s m m' i j

/-- Every text that was asked for has arrived. -/
def Arrived (m : Session Tree Value Listener) : Prop :=
  ∀ id u, m.cache.get? id = some u → u.state ≠ .loading

variable {sources : Sources} {s m m' : Session Tree Value Listener} {i j : UnitId}
  {u v w : SourceUnit Tree Value Listener}

theorem Twin.symm (h : Twin s m m' i j) : Twin s m' m j i := by
  cases h with
  | old known => exact .old known
  | new left right found found' => exact .new right left found' found

theorem Twin.unique (h : Twin s m m' i j) {i' j' : UnitId} (h' : Twin s m m' i' j') :
    i = i' ↔ j = j' := by
  cases h with
  | old known =>
    cases h' with
    | old known' => rfl
    | new left right found found' =>
      refine iff_of_false ?_ ?_
      all_goals
        rintro rfl
        omega
  | new left right found found' =>
    cases h' with
    | old known' =>
      refine iff_of_false ?_ ?_
      all_goals
        rintro rfl
        omega
    | new left' right' found₂ found₂' =>
      constructor
      · rintro rfl
        obtain ⟨u, hu, -, ha, -⟩ := Cache.lookup_eq_some found
        obtain ⟨v, hv, -, hb, -⟩ := Cache.lookup_eq_some found₂
        obtain rfl := Option.some.inj (hu.symm.trans hv)
        obtain rfl := ha.symm.trans hb
        exact Option.some.inj (found'.symm.trans found₂')
      · rintro rfl
        obtain ⟨u, hu, -, ha, -⟩ := Cache.lookup_eq_some found'
        obtain ⟨v, hv, -, hb, -⟩ := Cache.lookup_eq_some found₂'
        obtain rfl := Option.some.inj (hu.symm.trans hv)
        obtain rfl := ha.symm.trans hb
        exact Option.some.inj (found.symm.trans found₂)

theorem Grown.get?_of_twin (g : Grown sources s m) (h : Twin s m m' i j) :
    ∃ u, m.cache.get? i = some u := by
  cases h with
  | old known => exact Cache.get?_of_index_lt (Nat.lt_of_lt_of_le known g.size)
  | new left right found found' =>
    obtain ⟨u, hu, -⟩ := Cache.lookup_eq_some found
    exact ⟨u, hu⟩

theorem Grown.twin_of_lookup (g : Grown sources s m) (g' : Grown sources s m') {address : String}
    (hi : m.cache.lookup address .module = some i)
    (hj : m'.cache.lookup address .module = some j) : Twin s m m' i j := by
  by_cases hold : i.index < s.cache.size
  · have hback := g.keeps.lookup_old hi hold
    have hsame := g'.keeps.lookup hback
    obtain rfl := Option.some.inj (hsame.symm.trans hj)
    exact .old hold
  · refine .new (Nat.le_of_not_lt hold) (Nat.le_of_not_lt fun hold' => hold ?_) hi hj
    have hback := g'.keeps.lookup_old hj hold'
    have hsame := g.keeps.lookup hback
    obtain rfl := Option.some.inj (hsame.symm.trans hi)
    exact hold'

theorem Grown.twin_begins (g : Grown sources s m) (g' : Grown sources s m')
    (h : Twin s m m' i j) (hv : m.cache.get? i = some v) (hw : m'.cache.get? j = some w) :
    (v = w ∧ s.cache.get? i = some v ∧ v.state ≠ .loading) ∨
      ∃ u, Begins s m i u ∧ (v = u ∨ Arrives sources s m u v) ∧
        (w = u ∨ Arrives sources s m' u w) := by
  cases h with
  | old known =>
    obtain ⟨u, hu⟩ := Cache.get?_of_index_lt known
    obtain ⟨v', hv', hcases⟩ := g.old hu
    obtain rfl := Option.some.inj (hv.symm.trans hv')
    obtain ⟨w', hw', hcases'⟩ := g'.old hu
    obtain rfl := Option.some.inj (hw.symm.trans hw')
    by_cases hs : u.state = .loading
    · exact .inr ⟨u, .old hu hs, hcases.imp_right (·.2), hcases'.imp_right (·.2)⟩
    · obtain rfl := hcases.resolve_right fun he => hs he.1
      obtain rfl := hcases'.resolve_right fun he => hs he.1
      exact .inl ⟨rfl, hu, hs⟩
  | new left right found found' =>
    have hnone := Cache.get?_eq_none_iff.mpr left
    obtain ⟨-, hcases⟩ := g.new hv hnone
    obtain ⟨-, hcases'⟩ := g'.new hw (Cache.get?_eq_none_iff.mpr right)
    obtain ⟨x, hx, -, ha, -⟩ := Cache.lookup_eq_some found
    obtain rfl := Option.some.inj (hv.symm.trans hx)
    obtain ⟨y, hy, -, hb, -⟩ := Cache.lookup_eq_some found'
    obtain rfl := Option.some.inj (hw.symm.trans hy)
    rw [ha] at hcases
    rw [hb] at hcases'
    exact .inr ⟨.asked _, .new hnone found, hcases, hcases'⟩

theorem dependencyIds_of_begins (hs : s.AtRest) (h : Begins s m i u) : u.dependencyIds = [] := by
  cases h with
  | old unit loading =>
    have hd := (hs.sound.fits _ u unit).proper.dependencies
      (by simp [loading, State.isPastParsing, State.rank])
    simp [SourceUnit.dependencyIds, hd]
  | new absent found => rfl

theorem Grown.twin_imports (g : Grown sources s m) (g' : Grown sources s m')
    (hv : Arrives sources s m u v) (hw : Arrives sources s m' u w) :
    List.Forall₂ (Twin s m m') v.dependencyIds w.dependencyIds := by
  cases hv with
  | @read text imports answer welcome found =>
    cases hw with
    | @read text' imports' answer' welcome' found' =>
      obtain rfl : text = text' := Except.ok.inj (answer.symm.trans answer')
      have hzip : ∀ {addresses : List String} {is js : List UnitId},
          FoundAt m.cache addresses is → FoundAt m'.cache addresses js →
            List.Forall₂ (Twin s m m') is js := by
        intro addresses is js his hjs
        induction his generalizing js with
        | nil =>
          cases hjs
          exact .nil
        | cons hi _ ih =>
          cases hjs with
          | cons hj hjs => exact .cons (g.twin_of_lookup g' hi hj) (ih hjs)
      exact hzip found found'

/-- Every unit has a twin where all texts have arrived. -/
theorem Grown.exists_twin (g : Grown sources s m) (g' : Grown sources s m') (hs : s.AtRest)
    (arrived : m'.Arrived) (hi : i.index < m.cache.size) : ∃ j, Twin s m m' i j := by
  obtain ⟨n⟩ := i
  -- A later unit was found through the imports of one before it, whose twin was read as well.
  induction n using Nat.strongRecOn with
  | _ n ih =>
    by_cases hold : n < s.cache.size
    · exact ⟨⟨n⟩, .old hold⟩
    · obtain ⟨p, hp, hd⟩ := g.ledTo ⟨n⟩ (Nat.le_of_not_lt hold) hi
      obtain ⟨q, hpq⟩ := ih p.index hp (Nat.lt_trans hp hi)
      obtain ⟨v, hv⟩ := Cache.get?_of_index_lt (Nat.lt_trans hp hi)
      obtain ⟨w, hw⟩ := g'.get?_of_twin hpq.symm
      rw [Cache.dependencyIds_eq hv] at hd
      rcases g.twin_begins g' hpq hv hw with ⟨-, hsv, -⟩ | ⟨u, hbegins, hu, hu'⟩
      · exact absurd (hs.linked p v hsv _ hd) hold
      · have hread : Arrives sources s m u v := by
          refine hu.resolve_left ?_
          rintro rfl
          simp [dependencyIds_of_begins hs hbegins] at hd
        have hread' : Arrives sources s m' u w := by
          refine hu'.resolve_left ?_
          rintro rfl
          exact arrived q w hw hbegins.state
        have htwins := g.twin_imports g' hread hread'
        obtain ⟨k, hk⟩ := List.mem_iff_getElem.mp hd
        obtain ⟨hlt, hget⟩ := hk
        rw [List.forall₂_iff_get] at htwins
        refine ⟨w.dependencyIds.get ⟨k, htwins.1 ▸ hlt⟩, ?_⟩
        rw [← hget]
        exact htwins.2 k hlt (htwins.1 ▸ hlt)

/-- A text that is not welcome to one session has not arrived at any other. -/
theorem Grown.welcome_of_arrived (g : Grown sources s m) (g' : Grown sources s m')
    (hs : s.AtRest) (arrived : m'.Arrived) (hv : m.cache.get? i = some v)
    (loading : v.state = .loading) : ∃ text, sources v.address = .ok text ∧ s.Welcomes v text := by
  obtain ⟨j, hij⟩ := g.exists_twin g' hs arrived (Cache.index_lt_of_get? hv)
  obtain ⟨w, hw⟩ := g'.get?_of_twin hij.symm
  rcases g.twin_begins g' hij hv hw with ⟨-, -, hne⟩ | ⟨u, hbegins, hu, hu'⟩
  · exact absurd loading hne
  · rcases hu with rfl | hread
    · rcases hu' with rfl | hread'
      · exact absurd loading (arrived j w hw)
      · cases hread' with
        | read answer welcome found => exact ⟨_, answer, welcome⟩
    · simp [hread.state] at loading

/-! ### Sessions in which all texts have arrived -/

/-- Twins differ in nothing but the numbers of what they import. -/
theorem Grown.twin_unit (g : Grown sources s m) (g' : Grown sources s m') (arrived : m.Arrived)
    (arrived' : m'.Arrived) (h : Twin s m m' i j) (hv : m.cache.get? i = some v) :
    m'.cache.get? j =
      some { v with dependencies := (m'.cache.get? j).bind (·.dependencies) } := by
  obtain ⟨w, hw⟩ := g'.get?_of_twin h.symm
  rw [hw]
  rcases g.twin_begins g' h hv hw with ⟨rfl, -, -⟩ | ⟨u, hbegins, hu, hu'⟩
  · rfl
  · have hread : Arrives sources s m u v := by
      refine hu.resolve_left ?_
      rintro rfl
      exact arrived i v hv hbegins.state
    have hread' : Arrives sources s m' u w := by
      refine hu'.resolve_left ?_
      rintro rfl
      exact arrived' j w hw hbegins.state
    cases hread with
    | read answer welcome found =>
      cases hread' with
      | read answer' welcome' found' =>
        obtain rfl := Except.ok.inj (answer.symm.trans answer')
        rfl

theorem Grown.twin_dependencies (g : Grown sources s m) (g' : Grown sources s m')
    (hs : s.AtRest) (arrived : m.Arrived) (arrived' : m'.Arrived) (h : Twin s m m' i j) :
    List.Forall₂ (Twin s m m') (m.cache.dependencyIds i) (m'.cache.dependencyIds j) := by
  obtain ⟨v, hv⟩ := g.get?_of_twin h
  obtain ⟨w, hw⟩ := g'.get?_of_twin h.symm
  rw [Cache.dependencyIds_eq hv, Cache.dependencyIds_eq hw]
  rcases g.twin_begins g' h hv hw with ⟨rfl, hsv, -⟩ | ⟨u, hbegins, hu, hu'⟩
  · rw [List.forall₂_same]
    exact fun d hd => .old (hs.linked i v hsv d hd)
  · refine g.twin_imports g' (hu.resolve_left ?_) (hu'.resolve_left ?_)
    · rintro rfl
      exact arrived i v hv hbegins.state
    · rintro rfl
      exact arrived' j w hw hbegins.state

theorem Grown.matching (g : Grown sources s m) (g' : Grown sources s m') (hs : s.AtRest)
    (arrived : m.Arrived) (arrived' : m'.Arrived) :
    Cache.Matching (Twin s m m') m.cache m'.cache where
  left := by
    intro i j h
    obtain ⟨v, hv⟩ := g.get?_of_twin h
    exact Cache.index_lt_of_get? hv
  right := by
    intro i j h
    obtain ⟨w, hw⟩ := g'.get?_of_twin h.symm
    exact Cache.index_lt_of_get? hw
  unique := fun i j i' j' h h' => h.unique h'
  dependencies := fun i j h => g.twin_dependencies g' hs arrived arrived' h

/-- Twins are executed at the same time. -/
theorem Grown.evaluationOrder (g : Grown sources s m) (g' : Grown sources s m') (hs : s.AtRest)
    (arrived : m.Arrived) (arrived' : m'.Arrived) :
    List.Forall₂ (Twin s m m') m.cache.evaluationOrder m'.cache.evaluationOrder :=
  (g.matching g' hs arrived arrived').evaluationOrder (fun _ hid => .old hid) g.ledTo g'.ledTo
    g.size g'.size

theorem Grown.readAt (g : Grown sources s m) (g' : Grown sources s m') (hs : s.AtRest)
    (arrived : m.Arrived) (arrived' : m'.Arrived) {address : String}
    (h : ReadAt s m address) : ReadAt s m' address := by
  obtain ⟨i, v, hv, ha, hp, hn⟩ := h
  obtain ⟨j, hij⟩ := g.exists_twin g' hs arrived' (Cache.index_lt_of_get? hv)
  refine ⟨j, _, g.twin_unit g' arrived arrived' hij hv, ha, hp, ?_⟩
  cases hij with
  | old known => exact hn
  | new left right found found' =>
    simp [Cache.isIn, Cache.state?, Cache.get?_eq_none_iff.mpr right]

/-- The language cannot tell the two projects apart. -/
theorem Grown.alike (g : Grown sources s m) (g' : Grown sources s m') (hs : s.AtRest)
    (arrived : m.Arrived) (arrived' : m'.Arrived) : m.project.Alike m'.project where
  resolver := g'.resolver.trans g.resolver.symm
  modules := by
    intro address
    by_cases h : ReadAt s m address
    · rw [g.registered address h, g'.registered address (g.readAt g' hs arrived arrived' h)]
    · have h' : ¬ ReadAt s m' address := fun h' => h (g'.readAt g hs arrived' arrived h')
      rw [g.unregistered address h, g'.unregistered address h']

/-! ### Targets -/

theorem target?_twin (g : Grown sources s m) (g' : Grown sources s m') (arrived : m.Arrived)
    (arrived' : m'.Arrived) (h : Twin s m m' i j) :
    (Build.target? m'.cache j).map (·.2) = (Build.target? m.cache i).map (·.2) := by
  obtain ⟨v, hv⟩ := g.get?_of_twin h
  have hw := g.twin_unit g' arrived arrived' h hv
  simp only [Build.target?, hv]
  rw [hw]
  by_cases hp : v.state = .parsed
  · cases v.tree <;> simp [hp]
  · simp [hp]

theorem filterMap_of_unique {α β : Type} {l : List α} (hn : l.Nodup) {f : α → Option β} {y : α}
    (hy : y ∈ l) (h : ∀ x ∈ l, x ≠ y → f x = none) : l.filterMap f = (f y).toList := by
  induction l with
  | nil => cases hy
  | cons x l ih =>
    have hx := List.nodup_cons.mp hn
    rcases List.mem_cons.mp hy with rfl | hy
    · have hrest : l.filterMap f = [] := List.filterMap_eq_nil_iff.mpr fun z hz =>
        h z (List.mem_cons_of_mem _ hz) fun he => hx.1 (he ▸ hz)
      rw [List.filterMap_cons, hrest]
      cases f y <;> rfl
    · have hne : x ≠ y := fun he => hx.1 (he ▸ hy)
      rw [List.filterMap_cons_none (h x List.mem_cons_self hne)]
      exact ih hx.2 hy fun z hz => h z (List.mem_cons_of_mem _ hz)

def targetAt (m : Session Tree Value Listener) (address : String) (id : UnitId) :
    Option (Target Tree) :=
  ((Build.target? m.cache id).map (·.2)).filter (·.address = address)

theorem filter_targets (m : Session Tree Value Listener) (address : String) :
    ((Build.targets m.cache).map (·.2)).filter (·.address = address) =
      m.cache.ids.filterMap (m.targetAt address) := by
  rw [Build.targets, List.map_filterMap, List.filter_filterMap]
  rfl

theorem Grown.lookup_of_targetAt (g : Grown sources s m) {address : String}
    (hi : s.cache.size ≤ i.index) (h : m.targetAt address i ≠ none) :
    m.cache.lookup address .module = some i := by
  have hnone := Cache.get?_eq_none_iff.mpr hi
  cases hv : m.cache.get? i with
  | none => simp [targetAt, Build.target?, hv] at h
  | some v =>
    have ha : v.address = address := by
      by_contra hne
      refine h ?_
      simp only [targetAt, Build.target?, hv]
      by_cases hp : v.state = .parsed
      · cases v.tree <;> simp [hp, hne]
      · simp [hp]
    exact ha ▸ (g.new hv hnone).1

theorem Grown.exists_later_twin (g : Grown sources s m) (g' : Grown sources s m') (hs : s.AtRest)
    (arrived' : m'.Arrived) {address : String} (hi : s.cache.size ≤ i.index)
    (hl : m.cache.lookup address .module = some i) :
    ∃ j, s.cache.size ≤ j.index ∧ m'.cache.lookup address .module = some j := by
  obtain ⟨v, hv, -, ha, -⟩ := Cache.lookup_eq_some hl
  obtain ⟨j, hij⟩ := g.exists_twin g' hs arrived' (Cache.index_lt_of_get? hv)
  cases hij with
  | old known => omega
  | new left right found found' =>
    obtain ⟨w, hw, -, hb, -⟩ := Cache.lookup_eq_some found
    obtain rfl := Option.some.inj (hv.symm.trans hw)
    obtain rfl := ha.symm.trans hb
    exact ⟨j, right, found'⟩

theorem Grown.filterMap_later (g : Grown sources s m) {address : String}
    (hi : s.cache.size ≤ i.index) (hl : m.cache.lookup address .module = some i) :
    (m.cache.laterIds s.cache.size).filterMap (m.targetAt address) =
      (m.targetAt address i).toList := by
  obtain ⟨v, hv, -⟩ := Cache.lookup_eq_some hl
  refine filterMap_of_unique (Cache.nodup_laterIds _ _)
    ((Cache.mem_laterIds g.size).mpr ⟨hi, Cache.index_lt_of_get? hv⟩) fun x hx hne => ?_
  by_contra hsome
  have hx' := g.lookup_of_targetAt ((Cache.mem_laterIds g.size).mp hx).1 hsome
  exact hne (Option.some.inj (hx'.symm.trans hl))

theorem Grown.filterMap_later_of_absent (g : Grown sources s m) {address : String}
    (h : ∀ i, s.cache.size ≤ i.index → m.cache.lookup address .module ≠ some i) :
    (m.cache.laterIds s.cache.size).filterMap (m.targetAt address) = [] := by
  refine List.filterMap_eq_nil_iff.mpr fun x hx => ?_
  by_contra hsome
  have hle := ((Cache.mem_laterIds g.size).mp hx).1
  exact h x hle (g.lookup_of_targetAt hle hsome)

theorem Grown.filter_targets (g : Grown sources s m) (g' : Grown sources s m') (hs : s.AtRest)
    (arrived : m.Arrived) (arrived' : m'.Arrived) (address : String) :
    ((Build.targets m.cache).map (·.2)).filter (·.address = address) =
      ((Build.targets m'.cache).map (·.2)).filter (·.address = address) := by
  have htwin {i j : UnitId} (h : Twin s m m' i j) : m'.targetAt address j = m.targetAt address i := by
    rw [targetAt, targetAt, target?_twin g g' arrived arrived' h]
  rw [Session.filter_targets, Session.filter_targets, Cache.ids_eq_append g.size,
    Cache.ids_eq_append g'.size, List.filterMap_append, List.filterMap_append]
  congr 1
  · exact List.filterMap_congr fun id hid => (htwin (.old (Cache.mem_firstIds.mp hid))).symm
  · by_cases h : ∃ i, s.cache.size ≤ i.index ∧ m.cache.lookup address .module = some i
    · obtain ⟨i, hi, hl⟩ := h
      obtain ⟨j, hj, hl'⟩ := g.exists_later_twin g' hs arrived' hi hl
      rw [g.filterMap_later hi hl, g'.filterMap_later hj hl', htwin (.new hi hj hl hl')]
    · have hnone (i : UnitId) (hi : s.cache.size ≤ i.index) :
          m.cache.lookup address .module ≠ some i := fun hl => h ⟨i, hi, hl⟩
      have hnone' (j : UnitId) (hj : s.cache.size ≤ j.index) :
          m'.cache.lookup address .module ≠ some j := fun hl' => by
        obtain ⟨i, hi, hl⟩ := g'.exists_later_twin g hs arrived hj hl'
        exact hnone i hi hl
      rw [g.filterMap_later_of_absent hnone, g'.filterMap_later_of_absent hnone']

end Session

end UnitLoader
