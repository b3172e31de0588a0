import UnitLoader.Files.Tree
import UnitLoader.Proofs.Containment
import UnitLoader.Proofs.Normalizing

/-! The address of a file, and the path that it is read at again. A backslash in a path becomes
a slash in its address, so that a name with a backslash comes apart. If no name has one, the
address leads back to the path that it was made from. -/

namespace UnitLoader

namespace Address

variable {segments path : List (List Char)} {segment : List Char}
  {rooted : Bool}

/-! ### Ways down -/

theorem goesDown_iff {path : List Char} :
    GoesDown path ↔ ∃ names, (∀ n ∈ names, IsName n) ∧ path = '/' :: ['/'].intercalate names := by
  constructor
  · rintro ⟨below, rfl, rfl | hnames⟩
    · exact ⟨[], by simp, rfl⟩
    · exact ⟨below.splitOn '/', hnames, by rw [List.intercalate_splitOn]⟩
  · rintro ⟨names, hnames, rfl⟩
    refine ⟨_, rfl, ?_⟩
    by_cases hempty : names = []
    · exact .inl (by rw [hempty]; rfl)
    · rw [List.splitOn_intercalate '/' (fun n hn => (hnames n hn).2.2.2) hempty]
      exact .inr hnames

theorem GoesDown.head? {path : List Char} (h : GoesDown path) : path.head? = some '/' := by
  obtain ⟨below, rfl, -⟩ := h
  rfl

theorem Location.isNormal_of_names (h : ∀ n ∈ segments, IsName n) :
    IsNormal ⟨[], true, segments⟩ where
  origin := .inl rfl
  rooted := fun _ => rfl
  segments := ⟨segments.reverse, 0, by simp, fun n hn => h n (List.mem_reverse.mp hn), fun _ => rfl⟩

theorem GoesDown.normalizeChars_eq {path : List Char} (h : GoesDown path) :
    normalizeChars path = path := by
  obtain ⟨names, hnames, rfl⟩ := goesDown_iff.mp h
  have hnormal := Location.isNormal_of_names hnames
  have htext := Location.text_of_rooted (l := ⟨[], true, names⟩) rfl
  rw [List.nil_append] at htext
  rw [← htext, normalizeChars, hnormal.normalize_text]

/-! ### Following segments -/

theorem mem_of_mem_step {s : List Char} (h : s ∈ Location.step rooted path segment) :
    s ∈ path ∨ s = segment := by
  rw [Location.step.eq_def] at h
  grind

/-- What is left of segments that are followed was among them. -/
theorem mem_of_mem_foldl_step {s : List Char}
    (h : s ∈ segments.foldl (Location.step rooted) path) : s ∈ path ∨ s ∈ segments := by
  induction segments generalizing path with
  | nil => exact .inl h
  | cons segment segments ih =>
    rcases ih h with h | h
    · rcases mem_of_mem_step h with h | rfl
      · exact .inl h
      · exact .inr List.mem_cons_self
    · exact .inr (List.mem_cons_of_mem _ h)

theorem mem_intercalate {separator : List Char} {c : Char}
    (h : c ∈ separator.intercalate segments) : c ∈ separator ∨ ∃ s ∈ segments, c ∈ s := by
  induction segments with
  | nil => simp at h
  | cons first rest ih =>
    cases rest with
    | nil => exact .inr ⟨first, by simp, by simpa using h⟩
    | cons second rest =>
      rw [List.intercalate_cons_cons, List.mem_append, List.mem_append] at h
      rcases h with (h | h) | h
      · exact .inr ⟨first, List.mem_cons_self, h⟩
      · exact .inl h
      · exact (ih h).imp_right fun ⟨s, hs, hc⟩ => ⟨s, List.mem_cons_of_mem _ hs, hc⟩

end Address

namespace Files

open Address

/-! ### There and back -/

/-- The names of a path, taken apart at their backslashes. -/
def pieces (path : String) : List (List Char) :=
  (path.toList.splitOn '/').flatMap (·.splitOn '\\')

/-- Where a path leads from the root if a backslash parts names as a slash does. -/
def parted (path : String) : String :=
  String.ofList (Location.normalize ⟨[], true, pieces path⟩).text

variable {path : String}

theorem toList_addressOf (path : String) :
    (addressOf path).toList = path.toList.map fun c => if c = '\\' then '/' else c :=
  String.toList_map

theorem splitOn_addressOf (path : String) :
    (addressOf path).toList.splitOn '/' = pieces path := by
  rw [toList_addressOf, pieces]
  induction path.toList with
  | nil => rfl
  | cons c rest ih =>
    obtain ⟨first, more, hs⟩ := List.exists_cons_of_ne_nil (List.splitOn_ne_nil '/' rest)
    obtain ⟨piece, pieces, hp⟩ := List.exists_cons_of_ne_nil (List.splitOn_ne_nil '\\' first)
    rw [List.map_cons]
    -- A slash starts a name and a piece, a backslash a piece of the name it is in.
    by_cases hslash : c = '/'
    · subst hslash
      simp [List.splitOn_cons_eq_if_modifyHead, ih]
    by_cases hback : c = '\\'
    · subst hback
      simp [List.splitOn_cons_eq_if_modifyHead, ih, hs]
    · simp [List.splitOn_cons_eq_if_modifyHead, ih, hs, hp, hslash, hback]

theorem addressOf_eq_self (h : '\\' ∉ path.toList) : addressOf path = path := by
  refine String.toList_inj.mp ?_
  rw [toList_addressOf]
  refine (List.map_congr_left fun c hc => if_neg ?_).trans (List.map_id _)
  rintro rfl
  exact h hc

theorem toList_parted (path : String) : (parted path).toList =
    '/' :: ['/'].intercalate ((pieces path).foldl (Location.step true) []).reverse := by
  rw [parted, String.toList_ofList, Location.text_of_rooted rfl]
  rfl

theorem normalizeChars_addressOf (h : path.toList.head? = some '/') :
    isAbsoluteChars (addressOf path).toList = true ∧
      normalizeChars (addressOf path).toList = (parted path).toList := by
  obtain ⟨rest, haddress⟩ : ∃ rest, (addressOf path).toList = '/' :: rest := by
    obtain ⟨rest, hrest⟩ := List.head?_eq_some_iff.mp h
    exact ⟨_, by rw [toList_addressOf, hrest]; rfl⟩
  have hlocation : Location.ofText (addressOf path).toList = ⟨[], true, pieces path⟩ := by
    rw [← splitOn_addressOf, haddress, Location.ofText, cutOrigin_of_none (scheme?_slash rest)]
    rfl
  refine ⟨by rw [haddress]; rfl, ?_⟩
  rw [normalizeChars, hlocation, parted, String.toList_ofList]

/-- The address of a file is absolute, so the base makes no difference, and it has no mark. -/
theorem pathFor_resolve_addressOf (h : path.toList.head? = some '/') (base : String) :
    pathFor none (resolve (addressOf path) base) = parted path := by
  obtain ⟨habsolute, hnormal⟩ := normalizeChars_addressOf h
  have hmark : ¬ "file://".toList <+: (parted path).toList := by
    rw [toList_parted]
    exact fun hp => absurd (List.cons_prefix_cons.mp hp).1 (by decide)
  rw [pathFor, toList_resolve, resolveChars, if_pos habsolute, hnormal, afterMark_eq_self hmark,
    String.ofList_toList]

theorem backslash_notMem_parted (path : String) : '\\' ∉ (parted path).toList := by
  rw [toList_parted, List.mem_cons]
  rintro (hc | hc)
  · cases hc
  obtain ⟨s, hs, hc⟩ := (mem_intercalate hc).resolve_left (by decide)
  have hpiece : s ∈ pieces path :=
    (mem_of_mem_foldl_step (List.mem_reverse.mp hs)).resolve_left List.not_mem_nil
  obtain ⟨name, -, hpiece⟩ := List.mem_flatMap.mp hpiece
  exact notMem_of_mem_splitOn '\\' name s hpiece hc

/-- A path down by names is left as it is exactly if no backslash is in it. -/
theorem parted_eq_self_iff (h : GoesDown path.toList) :
    parted path = path ↔ '\\' ∉ path.toList := by
  refine ⟨fun he => he ▸ backslash_notMem_parted path, fun hnone => ?_⟩
  have hnormal := (normalizeChars_addressOf h.head?).2
  rw [addressOf_eq_self hnone, h.normalizeChars_eq] at hnormal
  exact String.toList_inj.mp hnormal.symm

end Files

namespace FileTree

open Address

variable {t : FileTree} {place next : List (List Char)} {name : List Char}

/-! ### Paths of a disk -/

theorem start_eq (t : FileTree) : t.start = fun path =>
    if '\x00' ∈ path.toList then .error .nulInName
    else if path.isEmpty then .error .missing
    else if path.toList.head? = some '/' then .ok []
    else .ok t.workingDirectory.reverse := by
  funext path
  rw [start, String.contains_char_eq]
  simp only [decide_eq_true_eq]

theorem isName_of_enter (h : t.enter place name = .ok next) (noSlash : '/' ∉ name)
    (hplace : ∀ n ∈ place, IsName n) : ∀ n ∈ next, IsName n := by
  rw [enter] at h
  split at h
  · split at h
    · exact Except.ok.inj h ▸ hplace
    split at h
    · exact Except.ok.inj h ▸ fun n hn => hplace n (List.mem_of_mem_tail hn)
    split at h
    · cases h
    split at h
    · next hempty hparent _ _ _ _ =>
      obtain ⟨hne, hdot⟩ := not_or.mp hempty
      rw [← Except.ok.inj h]
      exact List.forall_mem_cons.mpr ⟨⟨hne, hdot, hparent, noSlash⟩, hplace⟩
    · cases h
  · cases h

theorem isName_of_ask (h : t.ask place name = .ok next) (noSlash : '/' ∉ name)
    (hplace : ∀ n ∈ place, IsName n) : ∀ n ∈ next, IsName n := by
  rw [ask] at h
  split at h
  · cases h
  · exact isName_of_enter h noSlash hplace

theorem isName_of_foldlM_ask {names : List (List Char)} (h : names.foldlM t.ask place = .ok next)
    (noSlash : ∀ n ∈ names, '/' ∉ n) (hplace : ∀ n ∈ place, IsName n) : ∀ n ∈ next, IsName n := by
  induction names generalizing place with
  | nil => exact Except.ok.inj h ▸ hplace
  | cons name names ih =>
    obtain ⟨hname, hnames⟩ := List.forall_mem_cons.mp noSlash
    rw [List.foldlM_cons] at h
    obtain ⟨entered, hask, hrest⟩ := bind_eq_ok h
    exact ih hrest hnames (isName_of_ask hask hname hplace)

theorem isName_of_start (working : ∀ n ∈ t.workingDirectory, IsName n) {path : String}
    (h : t.start path = .ok place) : ∀ n ∈ place, IsName n := by
  simp only [start_eq] at h
  split at h
  · cases h
  split at h
  · cases h
  split at h
  · exact Except.ok.inj h ▸ fun _ hn => absurd hn List.not_mem_nil
  · exact Except.ok.inj h ▸ fun n hn => working n (List.mem_reverse.mp hn)

theorem isName_of_trace (working : ∀ n ∈ t.workingDirectory, IsName n) {path : String}
    (h : t.trace path = .ok place) : ∀ n ∈ place, IsName n := by
  obtain ⟨first, hstart, hnames⟩ := bind_eq_ok h
  exact isName_of_foldlM_ask hnames (notMem_of_mem_splitOn '/' path.toList)
    (isName_of_start working hstart)

/-- What is at a path has a canonical path down by names, if the working directory has. -/
theorem goesDown_canonical (working : ∀ n ∈ t.workingDirectory, IsName n) {path file : String}
    (h : t.disk.canonical path = .ok file) : GoesDown file.toList := by
  obtain ⟨place, htrace, rfl⟩ := map_eq_ok h
  have hnames := isName_of_trace working htrace
  rw [pathOf, String.toList_ofList]
  exact goesDown_iff.mpr ⟨place.reverse, fun n hn => hnames n (List.mem_reverse.mp hn), rfl⟩

end FileTree

end UnitLoader
