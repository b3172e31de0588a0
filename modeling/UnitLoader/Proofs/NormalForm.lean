import UnitLoader.Proofs.Referrers

/-! Normal addresses. A normal path climbs out of where it starts a number of times and
then only goes down; below a root it does not climb at all. Normalizing gives a normal
address, and a normal address is found again in its own text. Resolving a relative
specifier walks on from the directory of the base. -/

namespace UnitLoader

namespace Address

/-! ### Schemes -/

variable {address specifier base : List Char}

theorem cutMark_of_isSchemeChar {scheme : List Char} (h : scheme.all isSchemeChar)
    (after : List Char) :
    cutMark (scheme ++ ':' :: '/' :: '/' :: after) = some (scheme, after) := by
  induction scheme with
  | nil => rfl
  | cons c scheme ih =>
    rw [List.all_cons, Bool.and_eq_true] at h
    rw [List.cons_append, cutMark, ih h.2]
    · rfl
    · rintro rest rfl _
      exact absurd h.1 (by decide)

theorem scheme?_eq_some_iff {scheme after : List Char} :
    scheme? address = some (scheme, after) ↔
      scheme ≠ [] ∧ scheme.all isSchemeChar ∧ address = scheme ++ ':' :: '/' :: '/' :: after := by
  constructor
  · intro h
    have haddress := scheme?_eq h
    rw [scheme?] at h
    split at h
    · next s r hm =>
      split at h
      · next hs =>
        obtain ⟨rfl, rfl⟩ := Prod.mk.inj (Option.some.inj h)
        exact ⟨hs.1, hs.2, haddress⟩
      · cases h
    · cases h
  · rintro ⟨hne, hall, rfl⟩
    rw [scheme?, cutMark_of_isSchemeChar hall]
    exact if_pos ⟨hne, hall⟩

theorem slash_notMem_of_isSchemeChar {scheme : List Char} (h : scheme.all isSchemeChar) :
    '/' ∉ scheme := fun hm =>
  absurd (List.all_eq_true.mp h '/' hm) (by decide)

theorem scheme?_slash (rest : List Char) : scheme? ('/' :: rest) = none := by
  rw [Option.eq_none_iff_forall_ne_some]
  rintro ⟨scheme, after⟩ h
  obtain ⟨hne, hall, he⟩ := scheme?_eq_some_iff.mp h
  obtain ⟨c, scheme, rfl⟩ := List.exists_cons_of_ne_nil hne
  obtain ⟨rfl, -⟩ := List.cons.inj he
  exact slash_notMem_of_isSchemeChar hall List.mem_cons_self

theorem cutOrigin_of_none (h : scheme? address = none) : cutOrigin address = ([], address) := by
  simp only [cutOrigin, h]

theorem cutOrigin_append (address : List Char) :
    (cutOrigin address).1 ++ (cutOrigin address).2 = address := by
  cases h : scheme? address with
  | none => rw [cutOrigin_of_none h, List.nil_append]
  | some r =>
    rw [cutOrigin_of_scheme? h, List.append_assoc, List.takeWhile_append_dropWhile]
    simpa using (scheme?_eq h).symm

/-- What stands before the path of an address has no path itself. -/
theorem isOrigin_cutOrigin (h : (cutOrigin address).1 ≠ []) : IsOrigin (cutOrigin address).1 := by
  cases hs : scheme? address with
  | none => exact absurd (by rw [cutOrigin_of_none hs]) h
  | some r =>
    obtain ⟨scheme, after⟩ := r
    obtain ⟨hne, hall, -⟩ := scheme?_eq_some_iff.mp hs
    rw [cutOrigin_of_scheme? hs, isOrigin_iff]
    refine ⟨(scheme, after.takeWhile (· ≠ '/')), scheme?_eq_some_iff.mpr ⟨hne, hall, by simp⟩, ?_⟩
    exact fun hm => by simpa using List.mem_takeWhile_imp hm

theorem head?_cutOrigin (h : (cutOrigin address).1 ≠ []) :
    (cutOrigin address).2 = [] ∨ (cutOrigin address).2.head? = some '/' := by
  cases hs : scheme? address with
  | none => exact absurd (by rw [cutOrigin_of_none hs]) h
  | some r =>
    rw [cutOrigin_of_scheme? hs]
    cases hd : r.2.dropWhile (· ≠ '/') with
    | nil => exact .inl rfl
    | cons c rest =>
      have hhead := List.head?_dropWhile_not (fun c => decide (c ≠ '/')) r.2
      rw [hd] at hhead
      exact .inr (by simpa using hhead)

/-! ### Walking along a path -/

/-- A segment that leads down. -/
def IsName (segment : List Char) : Prop :=
  segment ≠ [] ∧ segment ≠ ['.'] ∧ segment ≠ parent ∧ '/' ∉ segment

/-- A path, last segment first, that climbs and then goes down. -/
def Winds (rooted : Bool) (path : List (List Char)) : Prop :=
  ∃ names ups, path = names ++ List.replicate ups parent ∧ (∀ n ∈ names, IsName n) ∧
    (rooted = true → ups = 0)

/-- Where one gets from a path by following the segments of a text. -/
def walk (rooted : Bool) (path : List (List Char)) (text : List Char) : List (List Char) :=
  (text.splitOn '/').foldl (Location.step rooted) path

variable {rooted : Bool} {path : List (List Char)} {segment text : List Char}

theorem winds_nil (rooted : Bool) : Winds rooted [] :=
  ⟨[], 0, rfl, by simp, fun _ => rfl⟩

theorem IsName.step (h : IsName segment) (rooted : Bool) (path : List (List Char)) :
    Location.step rooted path segment = segment :: path := by
  rw [Location.step.eq_def, if_neg (not_or.mpr ⟨h.1, h.2.1⟩), if_neg h.2.2.1]

theorem step_parent_name {name : List Char} (h : IsName name) (rooted : Bool)
    (path : List (List Char)) : Location.step rooted (name :: path) parent = path := by
  rw [Location.step.eq_def, if_neg (by decide), if_pos rfl]
  exact if_pos h.2.2.1

theorem step_parent_replicate (ups : Nat) :
    Location.step false (List.replicate ups parent) parent = List.replicate (ups + 1) parent := by
  cases ups <;> rfl

theorem Winds.step (h : Winds rooted path) (noSlash : '/' ∉ segment) :
    Winds rooted (Location.step rooted path segment) := by
  obtain ⟨names, ups, rfl, hnames, hrooted⟩ := h
  by_cases hempty : segment = [] ∨ segment = ['.']
  · rw [Location.step.eq_def, if_pos hempty]
    exact ⟨names, ups, rfl, hnames, hrooted⟩
  by_cases hparent : segment = parent
  · subst hparent
    cases names with
    | cons name names =>
      rw [List.cons_append, step_parent_name (hnames name List.mem_cons_self)]
      exact ⟨names, ups, rfl, fun n hn => hnames n (List.mem_cons_of_mem _ hn), hrooted⟩
    | nil =>
      cases rooted with
      | true =>
        obtain rfl := hrooted rfl
        exact winds_nil true
      | false =>
        rw [List.nil_append, step_parent_replicate]
        exact ⟨[], ups + 1, rfl, by simp, by simp⟩
  · have hname : IsName segment := ⟨(not_or.mp hempty).1, (not_or.mp hempty).2, hparent, noSlash⟩
    rw [hname.step]
    exact ⟨segment :: names, ups, rfl, List.forall_mem_cons.mpr ⟨hname, hnames⟩, hrooted⟩

theorem notMem_of_mem_splitOn (sep : Char) (text : List Char) :
    ∀ s ∈ text.splitOn sep, sep ∉ s := by
  induction text with
  | nil => simp
  | cons c text ih =>
    obtain ⟨first, rest, hs⟩ := List.exists_cons_of_ne_nil (List.splitOn_ne_nil sep text)
    rw [List.splitOn_cons_eq_if_modifyHead]
    split
    · exact List.forall_mem_cons.mpr ⟨by simp, ih⟩
    · next hc =>
      rw [hs, List.forall_mem_cons] at ih
      rw [hs, List.modifyHead_cons, List.forall_mem_cons]
      refine ⟨fun hm => ?_, ih.2⟩
      rcases List.mem_cons.mp hm with he | hm
      · exact hc (beq_iff_eq.mpr he.symm)
      · exact ih.1 hm

theorem Winds.foldl {segments : List (List Char)} (h : Winds rooted path)
    (noSlash : ∀ s ∈ segments, '/' ∉ s) :
    Winds rooted (segments.foldl (Location.step rooted) path) := by
  induction segments generalizing path with
  | nil => exact h
  | cons s segments ih =>
    rw [List.forall_mem_cons] at noSlash
    exact ih (h.step noSlash.1) noSlash.2

theorem Winds.walk (h : Winds rooted path) (text : List Char) :
    Winds rooted (walk rooted path text) :=
  h.foldl (notMem_of_mem_splitOn '/' text)

@[simp] theorem walk_nil : walk rooted path [] = path := by
  rw [Address.walk, List.splitOn_nil]
  rfl

theorem walk_append_slash (before after : List Char) :
    walk rooted path (before ++ '/' :: after) = walk rooted (walk rooted path before) after := by
  rw [Address.walk, List.splitOn_append_cons_self, List.foldl_append]
  rfl

theorem walk_slash (rest : List Char) : walk rooted path ('/' :: rest) = walk rooted path rest := by
  have h : walk rooted path ([] ++ '/' :: rest) = walk rooted (walk rooted path []) rest :=
    walk_append_slash [] rest
  rwa [walk_nil] at h

theorem foldl_names {names : List (List Char)} (h : ∀ n ∈ names, IsName n) (rooted : Bool)
    (path : List (List Char)) :
    names.foldl (Location.step rooted) path = names.reverse ++ path := by
  induction names generalizing path with
  | nil => rfl
  | cons n names ih =>
    rw [List.forall_mem_cons] at h
    rw [List.foldl_cons, h.1.step, ih h.2, List.reverse_cons, List.append_assoc]
    rfl

/-- Climbing first takes names away and then goes on from where the path started. -/
theorem foldl_parents {names : List (List Char)} (h : ∀ n ∈ names, IsName n) (ups times : Nat) :
    (List.replicate times parent).foldl (Location.step false)
        (names ++ List.replicate ups parent) =
      names.drop times ++ List.replicate (ups + (times - names.length)) parent := by
  induction times generalizing names ups with
  | zero => simp
  | succ times ih =>
    rw [List.replicate_succ, List.foldl_cons]
    cases names with
    | nil =>
      rw [List.nil_append, step_parent_replicate]
      have := @ih [] (by simp) (ups + 1)
      simp only [List.nil_append, List.drop_nil, List.length_nil, Nat.sub_zero] at this ⊢
      rw [this]
      congr 1
      omega
    | cons name names =>
      rw [List.forall_mem_cons] at h
      rw [List.cons_append, step_parent_name h.1, ih h.2]
      simp

theorem count_parent_names {names : List (List Char)} (h : ∀ n ∈ names, IsName n) :
    names.count parent = 0 :=
  List.count_eq_zero.mpr fun hm => (h parent hm).2.2.1 rfl

theorem length_eq_count {names : List (List Char)} (h : ∀ n ∈ names, IsName n) :
    names.countP (· ≠ parent) = names.length :=
  List.countP_eq_length.mpr fun n hn => by simpa using (h n hn).2.2.1

theorem count_parent_le_step (path : List (List Char)) (segment : List Char) :
    path.count parent ≤ (Location.step false path segment).count parent := by
  rw [Location.step.eq_def]
  split
  · exact Nat.le_refl _
  split
  · cases path with
    | nil => exact Nat.zero_le _
    | cons last before =>
      by_cases hlast : last = parent
      · simp [hlast]
      · simp [hlast, List.count_cons_of_ne hlast]
  · exact List.count_le_count_cons

theorem count_parent_le_walk (path : List (List Char)) (text : List Char) :
    path.count parent ≤ (walk false path text).count parent := by
  rw [walk]
  induction text.splitOn '/' generalizing path with
  | nil => exact Nat.le_refl _
  | cons s segments ih => exact Nat.le_trans (count_parent_le_step path s) (ih _)

/-- A path leads from a place to itself when the place goes down as often as it climbs,
and the path takes all of that back. -/
theorem foldl_reverse_eq_self_iff {place : List (List Char)} (hplace : Winds false place)
    (hpath : Winds false path) :
    path.reverse.foldl (Location.step false) place = path ↔
      place.count parent = place.countP (· ≠ parent) ∧
        place.count parent ≤ path.count parent := by
  obtain ⟨names, ups, rfl, hnames, -⟩ := hplace
  obtain ⟨names', ups', rfl, hnames', -⟩ := hpath
  have hreverse : ∀ n ∈ names'.reverse, IsName n := fun n hn => hnames' n (List.mem_reverse.mp hn)
  rw [List.reverse_append, List.reverse_replicate, List.foldl_append, foldl_parents hnames,
    foldl_names hreverse, List.reverse_reverse, List.append_cancel_left_eq]
  simp only [List.count_append, count_parent_names hnames, count_parent_names hnames',
    List.count_replicate_self, List.countP_append, length_eq_count hnames, Nat.zero_add]
  have hparents : (List.replicate ups parent).countP (· ≠ parent) = 0 :=
    List.countP_eq_zero.mpr fun n hn => by simp [List.eq_of_mem_replicate hn]
  rw [hparents, Nat.add_zero]
  constructor
  · intro h
    have hlength := congrArg List.length h
    have hcount := congrArg (List.count parent) h
    have hdrop : ∀ n ∈ names.drop ups', IsName n := fun n hn => hnames n (List.mem_of_mem_drop hn)
    simp only [List.count_append, count_parent_names hdrop, List.count_replicate_self] at hcount
    simp only [List.length_append, List.length_drop, List.length_replicate] at hlength
    omega
  · rintro ⟨hsame, hle⟩
    rw [List.drop_eq_nil_of_le (by omega), List.nil_append]
    congr 1
    omega

/-! ### Normal locations -/

namespace Location

variable {l : Location}

structure IsNormal (l : Location) : Prop where
  origin : l.origin = [] ∨ IsOrigin l.origin
  rooted : l.origin ≠ [] → l.rooted = true
  segments : Winds l.rooted l.segments.reverse

theorem rooted_ofText (address : List Char) : (ofText address).rooted =
    (!(cutOrigin address).1.isEmpty || (cutOrigin address).2.head? == some '/') := rfl

theorem normalize_ofText (address : List Char) : (ofText address).normalize =
    ⟨(cutOrigin address).1, (ofText address).rooted,
      (walk (ofText address).rooted [] (cutOrigin address).2).reverse⟩ := rfl

theorem isNormal_normalize (address : List Char) : (ofText address).normalize.IsNormal where
  origin := by
    by_cases h : (cutOrigin address).1 = []
    · exact .inl h
    · exact .inr (isOrigin_cutOrigin h)
  rooted h := by
    have hne : (cutOrigin address).1 ≠ [] := h
    simp [normalize_ofText, rooted_ofText, hne]
  segments := by
    rw [normalize_ofText, List.reverse_reverse]
    exact (winds_nil _).walk _

theorem IsNormal.mem_segments (h : l.IsNormal) (hs : segment ∈ l.segments) :
    segment ≠ [] ∧ segment ≠ ['.'] ∧ '/' ∉ segment := by
  obtain ⟨names, ups, he, hnames, -⟩ := h.segments
  have hmem : segment ∈ names ++ List.replicate ups parent := he ▸ List.mem_reverse.mpr hs
  rcases List.mem_append.mp hmem with hn | hp
  · exact ⟨(hnames _ hn).1, (hnames _ hn).2.1, (hnames _ hn).2.2.2⟩
  · rw [List.eq_of_mem_replicate hp]
    decide

theorem IsNormal.segments_of_rooted (h : l.IsNormal) (hrooted : l.rooted = true) :
    ∀ s ∈ l.segments, IsName s := by
  obtain ⟨names, ups, he, hnames, hups⟩ := h.segments
  obtain rfl := hups hrooted
  intro s hs
  refine hnames s ?_
  rw [List.replicate_zero, List.append_nil] at he
  exact he ▸ List.mem_reverse.mpr hs

/-- The segments of a normal location, written out, lead where they lead. -/
theorem IsNormal.walk_intercalate (h : l.IsNormal) (path : List (List Char)) :
    walk l.rooted path (['/'].intercalate l.segments) =
      l.segments.foldl (step l.rooted) path := by
  by_cases hempty : l.segments = []
  · simp [hempty]
  · rw [walk, List.splitOn_intercalate '/' (fun s hs => (h.mem_segments hs).2.2) hempty]

theorem IsNormal.foldl_segments (h : l.IsNormal) :
    l.segments.foldl (step l.rooted) [] = l.segments.reverse := by
  obtain ⟨names, ups, he, hnames, hups⟩ := h.segments
  have hnames' : ∀ n ∈ names.reverse, IsName n := fun n hn => hnames n (List.mem_reverse.mp hn)
  rw [← List.reverse_reverse l.segments, he, List.reverse_append, List.reverse_replicate,
    List.foldl_append, List.reverse_append, List.reverse_reverse, List.reverse_replicate]
  cases hr : l.rooted with
  | true =>
    obtain rfl := hups hr
    rw [List.replicate_zero, List.foldl_nil, foldl_names hnames', List.reverse_reverse]
  | false =>
    have hparents := @foldl_parents [] (by simp) 0 ups
    simp only [List.replicate_zero, List.append_nil, List.drop_nil, List.length_nil, Nat.sub_zero,
      Nat.zero_add, List.nil_append] at hparents
    rw [hparents, foldl_names hnames', List.reverse_reverse]

/-! ### The text of a normal location -/

theorem text_of_rooted (h : l.rooted = true) :
    l.text = l.origin ++ '/' :: ['/'].intercalate l.segments := by
  simp [text, h]

theorem text_of_relative (horigin : l.origin = []) (h : l.rooted = false)
    (hne : l.segments ≠ []) (hnormal : l.IsNormal) :
    l.text = ['/'].intercalate l.segments := by
  obtain ⟨s, rest, hs⟩ := List.exists_cons_of_ne_nil hne
  have hfirst : s ≠ [] := (hnormal.mem_segments (hs ▸ List.mem_cons_self)).1
  obtain ⟨c, s, rfl⟩ := List.exists_cons_of_ne_nil hfirst
  have htext : (['/'].intercalate l.segments).isEmpty = false := by
    rw [hs, List.intercalate_cons_cons_left]
    rfl
  simp only [text, horigin, h, Bool.false_eq_true, if_false, List.nil_append, htext]

/-- A path without empty segments has no scheme. -/
theorem scheme?_intercalate {segments : List (List Char)}
    (h : ∀ s ∈ segments, s ≠ [] ∧ '/' ∉ s) : scheme? (['/'].intercalate segments) = none := by
  rw [Option.eq_none_iff_forall_ne_some]
  rintro ⟨scheme, after⟩ hs
  obtain ⟨-, -, he⟩ := scheme?_eq_some_iff.mp hs
  have hne : segments ≠ [] := by
    rintro rfl
    simp at he
  -- The mark would have an empty segment between its slashes.
  have hsplit : (scheme ++ ':' :: '/' :: '/' :: after).splitOn '/' =
      (scheme ++ [':']).splitOn '/' ++ [] :: after.splitOn '/' := by
    have hmark : scheme ++ ':' :: '/' :: '/' :: after =
        (scheme ++ [':']) ++ '/' :: ([] ++ '/' :: after) := by simp
    rw [hmark, List.splitOn_append_cons_self, List.splitOn_append_cons_self, List.splitOn_nil]
    rfl
  rw [← he, List.splitOn_intercalate '/' (fun s hs => (h s hs).2) hne] at hsplit
  have hempty : [] ∈ segments := by
    rw [hsplit]
    simp
  exact (h [] hempty).1 rfl

theorem IsNormal.cutOrigin_of_rooted (h : l.IsNormal) (hrooted : l.rooted = true) :
    cutOrigin l.text = (l.origin, '/' :: ['/'].intercalate l.segments) := by
  rw [text_of_rooted hrooted]
  rcases h.origin with ho | ho
  · rw [ho, List.nil_append, cutOrigin_of_none (scheme?_slash _)]
  · exact ho.cutOrigin_slash _

theorem IsNormal.origin_of_relative (h : l.IsNormal) (hrelative : l.rooted = false) :
    l.origin = [] := by
  by_contra hne
  cases hrelative.symm.trans (h.rooted hne)

theorem IsNormal.cutOrigin_of_relative (h : l.IsNormal) (hrelative : l.rooted = false) :
    cutOrigin l.text = ([], l.text) ∧ l.text.head? ≠ some '/' := by
  have horigin := h.origin_of_relative hrelative
  by_cases hempty : l.segments = []
  · have htext : l.text = ['.'] := by simp [text, horigin, hrelative, hempty]
    rw [htext]
    decide
  · rw [text_of_relative horigin hrelative hempty h]
    refine ⟨cutOrigin_of_none (scheme?_intercalate fun s hs =>
      ⟨(h.mem_segments hs).1, (h.mem_segments hs).2.2⟩), ?_⟩
    obtain ⟨s, rest, hs⟩ := List.exists_cons_of_ne_nil hempty
    obtain ⟨hne, -, hslash⟩ := h.mem_segments (hs ▸ List.mem_cons_self)
    obtain ⟨c, s, rfl⟩ := List.exists_cons_of_ne_nil hne
    rw [hs, List.intercalate_cons_cons_left, List.head?_cons]
    exact fun he => hslash (Option.some.inj he ▸ List.mem_cons_self)

theorem IsNormal.cutOrigin_fst (h : l.IsNormal) : (cutOrigin l.text).1 = l.origin := by
  cases hr : l.rooted with
  | true => rw [h.cutOrigin_of_rooted hr]
  | false => rw [(h.cutOrigin_of_relative hr).1, h.origin_of_relative hr]

theorem IsNormal.rooted_ofText_text (h : l.IsNormal) : (ofText l.text).rooted = l.rooted := by
  cases hr : l.rooted with
  | true => simp [rooted_ofText, h.cutOrigin_of_rooted hr]
  | false =>
    obtain ⟨hcut, hhead⟩ := h.cutOrigin_of_relative hr
    simp [rooted_ofText, hcut, hhead]

/-- The text of a normal location leads where its segments lead. -/
theorem IsNormal.walk_text (h : l.IsNormal) (path : List (List Char)) :
    walk l.rooted path (cutOrigin l.text).2 = l.segments.foldl (step l.rooted) path := by
  cases hr : l.rooted with
  | true =>
    rw [h.cutOrigin_of_rooted hr, walk_slash, ← hr]
    exact h.walk_intercalate path
  | false =>
    have horigin := h.origin_of_relative hr
    rw [(h.cutOrigin_of_relative hr).1, ← hr]
    by_cases hempty : l.segments = []
    · have htext : l.text = ['.'] := by simp [text, horigin, hr, hempty]
      rw [htext, hempty]
      rfl
    · rw [text_of_relative horigin hr hempty h]
      exact h.walk_intercalate path

/-- A normal location is what its text says. -/
theorem IsNormal.normalize_text (h : l.IsNormal) : (ofText l.text).normalize = l := by
  rw [normalize_ofText, h.rooted_ofText_text, h.walk_text, h.foldl_segments, h.cutOrigin_fst,
    List.reverse_reverse]

end Location

/-! ### Normal addresses -/

theorem normalizeChars_idem (address : List Char) :
    normalizeChars (normalizeChars address) = normalizeChars address := by
  have h := (Location.isNormal_normalize address).normalize_text
  rw [normalizeChars, normalizeChars, h]

theorem isAbsoluteChars_eq (address : List Char) :
    isAbsoluteChars address = (Location.ofText address).rooted := by
  rw [isAbsoluteChars, Location.rooted_ofText]
  cases h : scheme? address with
  | none => simp [cutOrigin_of_none h]
  | some r => simp [cutOrigin_of_scheme? h]

theorem isAbsoluteChars_of_origin (h : (cutOrigin address).1 ≠ []) :
    isAbsoluteChars address = true := by
  simp [isAbsoluteChars_eq, Location.rooted_ofText, h]

theorem isAbsoluteChars_normalizeChars (address : List Char) :
    isAbsoluteChars (normalizeChars address) = isAbsoluteChars address := by
  rw [isAbsoluteChars_eq, isAbsoluteChars_eq, normalizeChars,
    (Location.isNormal_normalize address).rooted_ofText_text]
  rfl

theorem cutOrigin_normalizeChars (address : List Char) :
    (cutOrigin (normalizeChars address)).1 = (cutOrigin address).1 :=
  (Location.isNormal_normalize address).cutOrigin_fst

theorem normalizeChars_resolveChars (specifier base : List Char) :
    normalizeChars (resolveChars specifier base) = resolveChars specifier base := by
  rw [resolveChars]
  split <;> exact normalizeChars_idem _

theorem isNormal_of_normalizeChars (h : normalizeChars address = address) :
    ∃ l : Location, l.IsNormal ∧ address = l.text ∧ l.rooted = isAbsoluteChars address ∧
      l.origin = (cutOrigin address).1 :=
  ⟨_, Location.isNormal_normalize address, h.symm, (isAbsoluteChars_eq address).symm, rfl⟩

theorem not_isOrigin_of_normalizeChars (h : normalizeChars address = address) :
    ¬ IsOrigin address := by
  intro horigin
  obtain ⟨l, hnormal, htext, hrooted, -⟩ := isNormal_of_normalizeChars h
  rw [isAbsoluteChars_of_origin horigin.1] at hrooted
  have hpath := horigin.2
  rw [htext, hnormal.cutOrigin_of_rooted hrooted] at hpath
  cases hpath

/-! ### Resolving -/

/-- A directory ends with a slash, unless it is empty or a bare origin. -/
theorem upToLastSlash_cases (path : List Char) :
    upToLastSlash path = [] ∨ ∃ front, upToLastSlash path = front ++ ['/'] := by
  cases h : path.reverse.dropWhile (· ≠ '/') with
  | nil => exact .inl (by rw [upToLastSlash, h]; rfl)
  | cons c rest =>
    have hhead := List.head?_dropWhile_not (fun c => decide (c ≠ '/')) path.reverse
    rw [h] at hhead
    have hc : c = '/' := by simpa using hhead
    exact .inr ⟨rest.reverse, by rw [upToLastSlash, h, hc, List.reverse_cons]⟩

theorem upToLastSlash_append_rest (path : List Char) :
    ∃ rest, upToLastSlash path ++ rest = path := by
  refine ⟨(path.reverse.takeWhile (· ≠ '/')).reverse, ?_⟩
  rw [upToLastSlash, ← List.reverse_append, List.takeWhile_append_dropWhile, List.reverse_reverse]

theorem upToLastSlash_ne_nil {path : List Char} (h : '/' ∈ path) : upToLastSlash path ≠ [] := by
  rw [upToLastSlash, Ne, List.reverse_eq_nil_iff, List.dropWhile_eq_nil_iff]
  intro hall
  simpa using hall '/' (List.mem_reverse.mpr h)

theorem walk_upToLastSlash_append (path : List (List Char)) (dir specifier : List Char)
    (h : dir = [] ∨ ∃ front, dir = front ++ ['/']) :
    walk rooted path (dir ++ specifier) = walk rooted (walk rooted path dir) specifier := by
  rcases h with rfl | ⟨front, rfl⟩
  · rw [List.nil_append, walk_nil]
  · rw [List.append_assoc, List.singleton_append, walk_append_slash]
    have hdir : walk rooted path (front ++ ['/']) = walk rooted (walk rooted path front) [] :=
      walk_append_slash front []
    rw [hdir, walk_nil]

theorem join_of_closed {dir : List Char} (specifier : List Char)
    (h : dir = [] ∨ ∃ front, dir = front ++ ['/']) : join dir specifier = dir ++ specifier := by
  rcases h with rfl | ⟨front, rfl⟩
  · rfl
  · rw [join, if_pos (by simp)]

/-- A mark across the end of a directory would need a specifier that starts with a slash. -/
theorem scheme?_append_of_relative {dir : List Char} (hdir : scheme? dir = none)
    (hclosed : dir = [] ∨ ∃ front, dir = front ++ ['/'])
    (hspecifier : isAbsoluteChars specifier = false) : scheme? (dir ++ specifier) = none := by
  rw [isAbsoluteChars, Bool.or_eq_false_iff] at hspecifier
  obtain ⟨hhead, hscheme⟩ := hspecifier
  rcases hclosed with rfl | ⟨front, rfl⟩
  · simpa using hscheme
  rw [Option.eq_none_iff_forall_ne_some]
  rintro ⟨scheme, after⟩ hs
  obtain ⟨hne, hall, he⟩ := scheme?_eq_some_iff.mp hs
  have hslash := slash_notMem_of_isSchemeChar hall
  rw [List.append_assoc, List.singleton_append] at he
  have hcolon : '/' ∉ scheme ++ [':'] := by simp [hslash]
  have hcut : front ++ '/' :: specifier = (scheme ++ [':']) ++ '/' :: '/' :: after := by
    simpa using he
  rcases List.append_eq_append_iff.mp hcut with
    ⟨rest, hscheme', hspecifier'⟩ | ⟨rest, hfront, hafter⟩
  · cases rest with
    | nil =>
      obtain ⟨-, rfl⟩ := List.cons.inj hspecifier'
      simp at hhead
    | cons c rest =>
      obtain ⟨rfl, -⟩ := List.cons.inj hspecifier'
      exact hcolon (hscheme' ▸ by simp)
  · cases rest with
    | nil =>
      obtain ⟨-, rfl⟩ := List.cons.inj hafter
      simp at hhead
    | cons c rest =>
      obtain ⟨rfl, hrest⟩ := List.cons.inj hafter
      -- Both slashes of the mark stand in the directory.
      have hmark : ∃ more, front ++ ['/'] = scheme ++ ':' :: '/' :: '/' :: more := by
        cases rest with
        | nil => exact ⟨[], by simp [hfront]⟩
        | cons d rest =>
          obtain ⟨rfl, -⟩ := List.cons.inj hrest
          exact ⟨rest ++ ['/'], by simp [hfront]⟩
      obtain ⟨more, hmark⟩ := hmark
      rw [hmark, scheme?_eq_some_iff.mpr ⟨hne, hall, rfl⟩] at hdir
      cases hdir

theorem scheme?_of_prefix {dir rest : List Char} (h : scheme? (dir ++ rest) = none) :
    scheme? dir = none := by
  cases hs : scheme? dir with
  | none => rfl
  | some r =>
    rw [scheme?_append_of_some hs] at h
    cases h

theorem head?_upToLastSlash {path : List Char} (h : upToLastSlash path ≠ []) :
    (upToLastSlash path).head? = path.head? := by
  obtain ⟨rest, hrest⟩ := upToLastSlash_append_rest path
  obtain ⟨c, dir, hc⟩ := List.exists_cons_of_ne_nil h
  have hpath : path = c :: (dir ++ rest) := by rw [← hrest, hc, List.cons_append]
  rw [hc, hpath, List.head?_cons, List.head?_cons]

/-! What a specifier is put after: a base without an origin, a bare origin, or an origin
with a path. -/

theorem cutOrigin_join_of_none (hs : scheme? base = none)
    (hspecifier : isAbsoluteChars specifier = false) :
    cutOrigin (join (directory base) specifier) = ([], upToLastSlash base ++ specifier) := by
  have hdirectory : directory base = upToLastSlash base := by
    simp only [directory, cutOrigin_of_none hs, List.nil_append]
  have hclosed := upToLastSlash_cases base
  obtain ⟨rest, hrest⟩ := upToLastSlash_append_rest base
  have hdir : scheme? (upToLastSlash base) = none := scheme?_of_prefix (hrest.symm ▸ hs)
  rw [hdirectory, join_of_closed _ hclosed,
    cutOrigin_of_none (scheme?_append_of_relative hdir hclosed hspecifier)]

theorem cutOrigin_join_of_isOrigin (h : IsOrigin base) (opened : base.getLast? ≠ some '/') :
    cutOrigin (join (directory base) specifier) = (base, '/' :: specifier) := by
  have hne : base ≠ [] := fun he => h.1 (by rw [he]; rfl)
  have hdirectory : directory base = base := by simp [directory, h.cutOrigin, upToLastSlash]
  rw [hdirectory, join, if_neg (by simp [opened, hne]), h.cutOrigin_slash]

theorem cutOrigin_join_of_path (h : (cutOrigin base).1 ≠ [])
    (hpath : (cutOrigin base).2.head? = some '/') :
    cutOrigin (join (directory base) specifier) =
      ((cutOrigin base).1, upToLastSlash (cutOrigin base).2 ++ specifier) := by
  have hne : upToLastSlash (cutOrigin base).2 ≠ [] :=
    upToLastSlash_ne_nil (List.mem_of_head? hpath)
  have hhead := (head?_upToLastSlash hne).trans hpath
  obtain ⟨front, hfront⟩ := (upToLastSlash_cases (cutOrigin base).2).resolve_left hne
  have hdirectory : directory base = (cutOrigin base).1 ++ upToLastSlash (cutOrigin base).2 := rfl
  rw [hdirectory, join_of_closed _ (.inr ⟨(cutOrigin base).1 ++ front, by simp [hfront]⟩)]
  obtain ⟨c, dir, hdir⟩ := List.exists_cons_of_ne_nil hne
  rw [hdir, List.head?_cons, Option.some_inj] at hhead
  rw [hdir, hhead, List.append_assoc, List.cons_append, (isOrigin_cutOrigin h).cutOrigin_slash]

theorem isAbsoluteChars_join (hspecifier : isAbsoluteChars specifier = false) :
    isAbsoluteChars (join (directory base) specifier) = isAbsoluteChars base := by
  cases hs : scheme? base with
  | some r =>
    -- The scheme of the base is still there.
    have habsolute : isAbsoluteChars base = true := by simp [isAbsoluteChars, hs]
    have hne : (cutOrigin base).1 ≠ [] := by simp [cutOrigin_of_scheme? hs]
    obtain ⟨⟨scheme, after⟩, horigin, -⟩ := isOrigin_iff.mp (isOrigin_cutOrigin hne)
    have hlonger : ∃ rest, join (directory base) specifier = (cutOrigin base).1 ++ rest := by
      have hdirectory : directory base = (cutOrigin base).1 ++ upToLastSlash (cutOrigin base).2 :=
        rfl
      rw [join, hdirectory]
      split <;> exact ⟨_, List.append_assoc _ _ _⟩
    obtain ⟨rest, hrest⟩ := hlonger
    rw [habsolute, hrest, isAbsoluteChars, scheme?_append_of_some horigin]
    simp
  | none =>
    have hcut := cutOrigin_join_of_none hs hspecifier
    have hspecifierHead : specifier.head? ≠ some '/' := by
      rw [isAbsoluteChars, Bool.or_eq_false_iff] at hspecifier
      simpa using hspecifier.1
    rw [isAbsoluteChars_eq, isAbsoluteChars_eq, Location.rooted_ofText, Location.rooted_ofText,
      hcut, cutOrigin_of_none hs]
    by_cases hempty : upToLastSlash base = []
    · have hbase : base.head? ≠ some '/' := fun hh =>
        upToLastSlash_ne_nil (List.mem_of_head? hh) hempty
      simp [hempty, hbase, hspecifierHead]
    · have hhead := head?_upToLastSlash hempty
      rw [← hhead, List.head?_append_of_ne_nil _ hempty]

/-- A relative specifier comes after the origin and the directory of the base. The exception is
a bare origin that ends with its mark, which takes the first segment of the specifier for its
authority. -/
theorem cutOrigin_join (hspecifier : isAbsoluteChars specifier = false)
    (hbase : ¬ (IsOrigin base ∧ base.getLast? = some '/')) :
    ∃ dir : List Char,
      cutOrigin (join (directory base) specifier) = ((cutOrigin base).1, dir ++ specifier) ∧
      (dir = [] ∨ ∃ front, dir = front ++ ['/']) ∧
      ∀ rooted, walk rooted [] dir = walk rooted [] (upToLastSlash (cutOrigin base).2) := by
  cases hs : scheme? base with
  | none =>
    refine ⟨upToLastSlash base, ?_, upToLastSlash_cases base, ?_⟩
    · rw [cutOrigin_join_of_none hs hspecifier, cutOrigin_of_none hs]
    · rw [cutOrigin_of_none hs]
      exact fun _ => rfl
  | some r =>
    have hne : (cutOrigin base).1 ≠ [] := by simp [cutOrigin_of_scheme? hs]
    rcases head?_cutOrigin hne with hpath | hpath
    · have hself : (cutOrigin base).1 = base := by simpa [hpath] using cutOrigin_append base
      have horigin : IsOrigin base := ⟨hne, hpath⟩
      refine ⟨['/'], ?_, .inr ⟨[], rfl⟩, fun rooted => ?_⟩
      · rw [cutOrigin_join_of_isOrigin horigin (fun he => hbase ⟨horigin, he⟩), hself]
        rfl
      · rw [hpath, walk_slash]
        rfl
    · exact ⟨_, cutOrigin_join_of_path hne hpath, upToLastSlash_cases _, fun _ => rfl⟩

/-- Resolving a relative specifier keeps the origin and the rootedness of the base, and
walks on from the directory of its path. -/
theorem resolveChars_of_relative (hspecifier : isAbsoluteChars specifier = false)
    (hbase : ¬ (IsOrigin base ∧ base.getLast? = some '/')) :
    resolveChars specifier base =
      (⟨(cutOrigin base).1, isAbsoluteChars base, (walk (isAbsoluteChars base)
        (walk (isAbsoluteChars base) [] (upToLastSlash (cutOrigin base).2)) specifier).reverse⟩ :
          Location).text := by
  obtain ⟨dir, hcut, hclosed, hwalk⟩ := cutOrigin_join hspecifier hbase
  have hrooted : (Location.ofText (join (directory base) specifier)).rooted =
      isAbsoluteChars base := by
    rw [← isAbsoluteChars_eq, isAbsoluteChars_join hspecifier]
  rw [resolveChars, if_neg (by simp [hspecifier]), normalizeChars, Location.normalize_ofText,
    hrooted, hcut, walk_upToLastSlash_append _ _ _ hclosed, hwalk]

/-- The origin of a resolved specifier is its own when it is absolute, and that of the base when
it is relative. -/
theorem cutOrigin_resolveChars (hbase : ¬ IsOrigin base) :
    (cutOrigin (resolveChars specifier base)).1 =
      (cutOrigin (if isAbsoluteChars specifier then specifier else base)).1 := by
  rw [resolveChars]
  cases h : isAbsoluteChars specifier with
  | true => exact cutOrigin_normalizeChars specifier
  | false =>
    obtain ⟨dir, hcut, -, -⟩ := cutOrigin_join h fun ho => hbase ho.1
    rw [if_neg Bool.false_ne_true, if_neg Bool.false_ne_true, cutOrigin_normalizeChars, hcut]

theorem isAbsoluteChars_resolveChars (specifier base : List Char) :
    isAbsoluteChars (resolveChars specifier base) =
      (isAbsoluteChars specifier || isAbsoluteChars base) := by
  rw [resolveChars]
  cases h : isAbsoluteChars specifier with
  | true => rw [if_pos rfl, isAbsoluteChars_normalizeChars, h, Bool.true_or]
  | false =>
    rw [if_neg Bool.false_ne_true, isAbsoluteChars_normalizeChars, isAbsoluteChars_join h,
      Bool.false_or]

/-! ### Resolving again -/

/-- How often a relative address climbs out of where it starts. -/
def climbs (address : List Char) : Nat :=
  (walk false [] address).count parent

/-- How often it goes down after that. -/
def descends (address : List Char) : Nat :=
  (walk false [] address).countP (· ≠ parent)

theorem scheme?_of_relative (h : isAbsoluteChars address = false) : scheme? address = none := by
  rw [isAbsoluteChars, Bool.or_eq_false_iff] at h
  simpa using h.2

theorem directory_of_relative (h : isAbsoluteChars base = false) :
    directory base = upToLastSlash base := by
  simp only [directory, cutOrigin_of_none (scheme?_of_relative h), List.nil_append]

theorem resolveChars_of_both_relative (hspecifier : isAbsoluteChars specifier = false)
    (hbase : isAbsoluteChars base = false) :
    resolveChars specifier base =
      (⟨[], false, (walk false (walk false [] (directory base)) specifier).reverse⟩ :
        Location).text := by
  have hnone := scheme?_of_relative hbase
  have horigin : ¬ IsOrigin base := fun ho => ho.1 (by rw [cutOrigin_of_none hnone])
  rw [resolveChars_of_relative hspecifier fun h => horigin h.1, hbase, directory_of_relative hbase,
    cutOrigin_of_none hnone]

theorem isNormal_of_winds (h : Winds false path) : Location.IsNormal ⟨[], false, path.reverse⟩ where
  origin := .inl rfl
  rooted h := absurd rfl h
  segments := by rwa [List.reverse_reverse]

theorem walk_of_normal (h : Winds false path) :
    walk false [] (⟨[], false, path.reverse⟩ : Location).text = path := by
  have hnormal := isNormal_of_winds h
  have hwalk := hnormal.walk_text []
  have hcut := (hnormal.cutOrigin_of_relative rfl).1
  have hfold := hnormal.foldl_segments
  rw [hcut] at hwalk
  rwa [List.reverse_reverse, ← hwalk] at hfold

/-- A normal address names itself when it is absolute. A relative one does relative to a base
whose directory goes down as often as it climbs, provided that it takes all of that back. -/
theorem resolveChars_eq_self_iff (hnormal : normalizeChars address = address) :
    resolveChars address base = address ↔ isAbsoluteChars address = true ∨
      (isAbsoluteChars base = false ∧ climbs (directory base) = descends (directory base) ∧
        climbs (directory base) ≤ climbs address) := by
  cases haddress : isAbsoluteChars address with
  | true =>
    rw [resolveChars, if_pos haddress]
    exact iff_of_true hnormal (.inl rfl)
  | false =>
    cases hbase : isAbsoluteChars base with
    | true =>
      refine iff_of_false (fun he => ?_) (by simp)
      have habsolute := isAbsoluteChars_resolveChars address base
      rw [he, haddress, hbase] at habsolute
      cases habsolute
    | false =>
      obtain ⟨path, hpath, htext⟩ : ∃ path, Winds false path ∧
          address = (⟨[], false, path.reverse⟩ : Location).text := by
        refine ⟨walk false [] address, (winds_nil false).walk address, ?_⟩
        conv_lhs => rw [← hnormal, normalizeChars, Location.normalize_ofText, ← isAbsoluteChars_eq,
          haddress, cutOrigin_of_none (scheme?_of_relative haddress)]
      have hplace := (winds_nil false).walk (directory base)
      have hwalk := (isNormal_of_winds hpath).walk_text (walk false [] (directory base))
      rw [((isNormal_of_winds hpath).cutOrigin_of_relative rfl).1] at hwalk
      have hclimbs : climbs address = path.count parent := by
        rw [climbs, htext, walk_of_normal hpath]
      have hresolve := resolveChars_of_both_relative haddress hbase
      rw [hresolve, hclimbs, climbs, descends, ← foldl_reverse_eq_self_iff hplace hpath]
      simp only [Bool.false_eq_true, false_or, true_and]
      have hsegments : walk false (walk false [] (directory base)) address =
          path.reverse.foldl (Location.step false) (walk false [] (directory base)) := by
        rw [htext]
        exact hwalk
      rw [hsegments]
      constructor
      · intro he
        rw [htext] at he
        have := congrArg (walk false []) he
        rwa [walk_of_normal hpath, walk_of_normal (hsegments ▸ hplace.walk address)] at this
      · intro he
        rw [he, htext]

/-- Resolving twice is resolving once unless the specifier and the base are relative, and the
directory of the base does not go down as often as it climbs. -/
theorem resolveChars_resolveChars_iff (specifier base : List Char) :
    resolveChars (resolveChars specifier base) base = resolveChars specifier base ↔
      isAbsoluteChars specifier = true ∨ isAbsoluteChars base = true ∨
        climbs (directory base) = descends (directory base) := by
  rw [resolveChars_eq_self_iff (normalizeChars_resolveChars specifier base),
    isAbsoluteChars_resolveChars]
  cases hspecifier : isAbsoluteChars specifier with
  | true => simp
  | false =>
    cases hbase : isAbsoluteChars base with
    | true => simp
    | false =>
      have hpath := ((winds_nil false).walk (directory base)).walk specifier
      have hle : climbs (directory base) ≤ climbs (resolveChars specifier base) := by
        rw [climbs, climbs, resolveChars_of_both_relative hspecifier hbase, walk_of_normal hpath]
        exact count_parent_le_walk _ _
      simp [hle]

end Address

end UnitLoader
