import UnitLoader.Proofs.Addressing
import UnitLoader.Text.Unicode

/-! What normalizing makes of an address. The origin stays as it is. Below an origin or a root
nothing but names is left of the path. A relative path is left with those of its `..` that no
name before them makes up for, and with names after them. -/

namespace UnitLoader

namespace Address

/-- The `..` of a path that no name before them is left for. So many names wait to be taken back. -/
def unmatched (waiting : Nat) : List (List Char) → Nat
  | [] => 0
  | segment :: rest =>
    if segment = [] ∨ segment = ['.'] then unmatched waiting rest
    else if segment ≠ parent then unmatched (waiting + 1) rest
    else if waiting = 0 then unmatched 0 rest + 1
    else unmatched (waiting - 1) rest

/-- A path that starts at a root and goes down by names, if it goes anywhere. -/
def GoesDown (path : List Char) : Prop :=
  ∃ below, path = '/' :: below ∧ (below = [] ∨ ∀ s ∈ below.splitOn '/', IsName s)

/-- A path that climbs a number of times and then goes down by names. -/
def ClimbsFirst (times : Nat) (path : List Char) : Prop :=
  ∃ names, path.splitOn '/' = List.replicate times parent ++ names ∧ ∀ n ∈ names, IsName n

/-- An address and what it becomes when it is normalized. -/
structure Normalizes (address normal : List Char) : Prop where
  fixed : normalizeChars normal = normal
  nonempty : normal ≠ []
  origin : (cutOrigin normal).1 = (cutOrigin address).1
  rooted : (cutOrigin address).1 ≠ [] ∨ address.head? = some '/' → GoesDown (cutOrigin normal).2
  relative : (cutOrigin address).1 = [] → address.head? ≠ some '/' →
    normal.head? ≠ some '/' ∧
      (normal = ['.'] ∧ unmatched 0 (address.splitOn '/') = 0 ∨
        ClimbsFirst (unmatched 0 (address.splitOn '/')) normal)

variable {address : List Char} {names segments : List (List Char)} {l : Location}

/-! ### Climbing -/

/-- Each `..` takes back the last name that waits, or climbs when there is none. -/
theorem foldl_step_relative (noSlash : ∀ s ∈ segments, '/' ∉ s) (hnames : ∀ n ∈ names, IsName n)
    (ups : Nat) : ∃ names', (∀ n ∈ names', IsName n) ∧
      segments.foldl (Location.step false) (names ++ List.replicate ups parent) =
        names' ++ List.replicate (ups + unmatched names.length segments) parent := by
  induction segments generalizing names ups with
  | nil => exact ⟨names, hnames, rfl⟩
  | cons s segments ih =>
    obtain ⟨hs, hrest⟩ := List.forall_mem_cons.mp noSlash
    rw [List.foldl_cons, unmatched]
    by_cases hempty : s = [] ∨ s = ['.']
    · rw [Location.step.eq_def, if_pos hempty, if_pos hempty]
      exact ih hrest hnames ups
    rw [if_neg hempty]
    by_cases hparent : s = parent
    · subst hparent
      rw [if_neg (not_not_intro rfl)]
      cases names with
      | nil =>
        have hclimb := ih hrest hnames (ups + 1)
        rw [List.nil_append, step_parent_replicate]
        rwa [List.nil_append, Nat.add_right_comm] at hclimb
      | cons name names =>
        obtain ⟨hname, hbefore⟩ := List.forall_mem_cons.mp hnames
        rw [List.cons_append, step_parent_name hname]
        exact ih hrest hbefore ups
    · have hname : IsName s := ⟨(not_or.mp hempty).1, (not_or.mp hempty).2, hparent, hs⟩
      rw [if_pos hparent, hname.step]
      have hnames' : ∀ n ∈ s :: names, IsName n := List.forall_mem_cons.mpr ⟨hname, hnames⟩
      exact ih hrest hnames' ups

theorem walk_relative (path : List Char) : ∃ names, (∀ n ∈ names, IsName n) ∧
    walk false [] path = names ++ List.replicate (unmatched 0 (path.splitOn '/')) parent := by
  have hnone : ∀ n ∈ ([] : List (List Char)), IsName n := fun _ hn => absurd hn List.not_mem_nil
  obtain ⟨names, hnames, hwalk⟩ :=
    foldl_step_relative (notMem_of_mem_splitOn '/' path) hnone 0
  exact ⟨names, hnames, by simpa [walk] using hwalk⟩

/-! ### Normal locations -/

namespace Location

theorem IsNormal.goesDown (h : l.IsNormal) (hrooted : l.rooted = true) :
    GoesDown (cutOrigin l.text).2 := by
  have hnames := h.segments_of_rooted hrooted
  rw [h.cutOrigin_of_rooted hrooted]
  refine ⟨_, rfl, ?_⟩
  by_cases hempty : l.segments = []
  · exact .inl (by rw [hempty]; rfl)
  · rw [List.splitOn_intercalate '/' (fun s hs => (hnames s hs).2.2.2) hempty]
    exact .inr hnames

theorem IsNormal.climbsFirst (h : l.IsNormal) (hrelative : l.rooted = false) {ups : Nat}
    (hnames : ∀ n ∈ names, IsName n) (hsegments : l.segments = List.replicate ups parent ++ names) :
    l.text = ['.'] ∧ ups = 0 ∨ ClimbsFirst ups l.text := by
  have horigin := h.origin_of_relative hrelative
  by_cases hempty : l.segments = []
  · have hups : List.replicate ups parent = [] :=
      (List.append_eq_nil_iff.mp (hsegments.symm.trans hempty)).1
    refine .inl ⟨by simp [text, horigin, hrelative, hempty], ?_⟩
    simpa using congrArg List.length hups
  · refine .inr ⟨names, ?_, hnames⟩
    rw [text_of_relative horigin hrelative hempty h,
      List.splitOn_intercalate '/' (fun s hs => (h.mem_segments hs).2.2) hempty, hsegments]

theorem text_ne_nil (l : Location) : l.text ≠ [] := by
  simp only [text]
  generalize l.origin ++ (if l.rooted then ['/'] else []) ++ ['/'].intercalate l.segments = out
  cases out <;> simp

end Location

/-! ### Any address -/

theorem isAbsoluteChars_iff : isAbsoluteChars address = true ↔
    (cutOrigin address).1 ≠ [] ∨ address.head? = some '/' := by
  cases h : scheme? address with
  | none => simp [isAbsoluteChars, h, cutOrigin_of_none h]
  | some r => simp [isAbsoluteChars, h, cutOrigin_of_scheme? h]

theorem normalizes (address : List Char) : Normalizes address (normalizeChars address) where
  fixed := normalizeChars_idem address
  nonempty := Location.text_ne_nil _
  origin := cutOrigin_normalizeChars address
  rooted := by
    intro hrooted
    refine (Location.isNormal_normalize address).goesDown ?_
    exact (isAbsoluteChars_eq address).symm.trans (isAbsoluteChars_iff.mpr hrooted)
  relative := by
    intro horigin hhead
    have habsolute : isAbsoluteChars address = false :=
      Bool.eq_false_iff.mpr fun h => (isAbsoluteChars_iff.mp h).elim (· horigin) hhead
    have hnormal := Location.isNormal_normalize address
    have hrelative : (Location.ofText address).normalize.rooted = false :=
      (isAbsoluteChars_eq address).symm.trans habsolute
    have hpath : (cutOrigin address).2 = address := by
      rw [cutOrigin_of_none (scheme?_of_relative habsolute)]
    obtain ⟨names, hnames, hwalk⟩ := walk_relative address
    have hreversed : ∀ n ∈ names.reverse, IsName n := fun n hn => hnames n (List.mem_reverse.mp hn)
    refine ⟨(hnormal.cutOrigin_of_relative hrelative).2, hnormal.climbsFirst hrelative hreversed ?_⟩
    rw [Location.normalize_ofText, ← isAbsoluteChars_eq, habsolute, hpath, hwalk,
      List.reverse_append, List.reverse_replicate]

end Address

namespace Host

variable {Tree Value : Type}

/-- Normalizing gives a normal address with the origin of the old one, below a root without any
`..`, and otherwise with just as many of them in front as the old address has unmatched. A loader
that resolves specifiers as paths has its units at normal addresses, if they were asked for. -/
theorem normal_addresses :
    (∀ address, Address.Normalizes address.toList (Address.normalize address).toList) ∧
      ∀ (ledger : List Registration) (h : Host Tree Value) (loader : Nat)
        (s : Session Tree Value (Listener Value)), Run ledger h → h.session? loader = some s →
        s.tools.KeepsResolver → s.project.resolver = Address.resolve →
        ∀ id u, s.cache.get? id = some u → u.origin = .load →
          Address.normalize u.address = u.address := by
  refine ⟨fun address => ?_, fun ledger h loader s run hs keeps paths id u hu load => ?_⟩
  · rw [Address.normalize, String.toList_ofList]
    exact Address.normalizes address.toList
  · have hplaced : s.PlacesLoaded := Session.lasting_placesLoaded.run
      (fun setup _ _ _ id u hu => by
        simp [opened, Session.fresh, Build.empty, Cache.empty, Cache.get?] at hu) run hs
    rw [Address.normalize, (hplaced keeps paths id u hu load).normal, String.ofList_toList]

/-- A loader whose base is relative, with a module above it. -/
def relativeBase : Setup Program UnitLoader.Value :=
  .plain Lang.toolchain { Config.default with baseAddress := "app/main" } (.ofList [] false)

/-- The module is asked for in a way that is not normal. -/
def askedAbove : Session Program UnitLoader.Value (Listener UnitLoader.Value) :=
  ((opened relativeBase .empty).load "..//.././b/../lib" .module).session

theorem normal_addresses_above :
    (askedAbove.cache.get? ⟨0⟩).map (·.address) = some "../lib" ∧
      Address.normalize "../lib" = "../lib" := by
  have joined := Run.empty.join relativeBase false rfl
  have run := (joined.ask (.request 0 (.load "..//.././b/../lib" .module))).tick
  obtain ⟨s, hs⟩ : ∃ s, s = askedAbove := ⟨_, rfl⟩
  have hplain : s.Plain Address.resolve := by
    rw [hs]
    exact (lasting_plain Address.resolve).advance (Session.atRest_fresh ..) ⟨rfl, rfl⟩
      (.load _ _ _)
  have hunit : (s.cache.get? ⟨0⟩).map (fun u => (u.address, u.origin)) = some ("../lib", .load) := by
    rw [hs]
    decide +kernel
  obtain ⟨u, hu, he⟩ := Option.map_eq_some_iff.mp hunit
  obtain ⟨haddress, hload⟩ := Prod.mk.inj he
  have hnormal := normal_addresses.2 _ _ 0 s run (show Host.session? _ 0 = some s by rw [hs]; rfl)
    (hplain.tools ▸ Lang.keepsResolver_toolchain) hplain.resolver ⟨0⟩ u hu hload
  rw [haddress] at hnormal
  exact ⟨by rw [← hs, hu, Option.map_some, haddress], hnormal⟩

end Host

end UnitLoader
