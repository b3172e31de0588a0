import UnitLoader.Files
import UnitLoader.Proofs.NormalForm

/-! Where a fetcher with a root looks for its files. A path below the root never climbs
further than it went down. Resolving takes `..` out of the path of an address, and leaves
the authority as it is: behind the mark of a file address the authority becomes the first
component of the path, and the one authority that climbs leads out of the root. -/

namespace UnitLoader

namespace Files

open Address

/-- The components of a path. A slash that is repeated and a `.` do not count. -/
def components (path : List Char) : List (List Char) :=
  (path.splitOn '/').filter fun c => c ≠ [] ∧ c ≠ ['.']

/-- Components that nowhere climb more often than they went down. -/
def KeepsBelow (parts : List (List Char)) : Prop :=
  ∀ front, front <+: parts → front.count parent ≤ front.countP (· ≠ parent)

/-- A path with the components of the root first, that does not climb out of it after these. -/
def StaysBelow (root path : List Char) : Prop :=
  ∃ rest, components path = components root ++ rest ∧ KeepsBelow rest

/-- The origin of a file address whose authority climbs. -/
def climbingOrigin : List Char :=
  ['f', 'i', 'l', 'e', ':', '/', '/', '.', '.']

variable {root path : List Char} {names : List (List Char)}

theorem components_append_slash (before after : List Char) :
    components (before ++ '/' :: after) = components before ++ components after := by
  rw [components, List.splitOn_append_cons_self, List.filter_append]
  rfl

theorem components_nil : components [] = [] := rfl

theorem components_join (root path : List Char) :
    components (join root path) = components root ++ components path := by
  rw [join]
  split
  · next h =>
    rcases Bool.or_eq_true_iff.mp h with hempty | hlast
    · rw [List.isEmpty_iff.mp hempty, components_nil, List.nil_append, List.nil_append]
    · obtain ⟨front, rfl⟩ := List.getLast?_eq_some_iff.mp (beq_iff_eq.mp hlast)
      rw [List.append_assoc, List.singleton_append, components_append_slash,
        components_append_slash, components_nil, List.append_nil]
  · exact components_append_slash root path

theorem components_of_noSlash {segment : List Char} (h : '/' ∉ segment) :
    components segment = [segment].filter fun c => c ≠ [] ∧ c ≠ ['.'] := by
  rw [components, List.splitOn_eq_singleton h]

theorem components_intercalate (h : ∀ n ∈ names, IsName n) :
    components (['/'].intercalate names) = names := by
  have hall : names.filter (fun c => c ≠ [] ∧ c ≠ ['.']) = names :=
    List.filter_eq_self.mpr fun n hn => by simpa using ⟨(h n hn).1, (h n hn).2.1⟩
  by_cases hempty : names = []
  · subst hempty
    rfl
  · rw [components, List.splitOn_intercalate '/' (fun n hn => (h n hn).2.2.2) hempty, hall]

theorem head?_intercalate (h : ∀ n ∈ names, IsName n) :
    (['/'].intercalate names).head? ≠ some '/' := by
  cases names with
  | nil => decide
  | cons n names =>
    obtain ⟨hne, -, -, hslash⟩ := h n List.mem_cons_self
    obtain ⟨c, n, rfl⟩ := List.exists_cons_of_ne_nil hne
    rw [List.intercalate_cons_cons_left, List.head?_cons]
    exact fun he => hslash (Option.some.inj he ▸ List.mem_cons_self)

theorem dropWhile_slash (h : path.head? ≠ some '/') : path.dropWhile (· == '/') = path := by
  cases path with
  | nil => rfl
  | cons c path =>
    rw [List.dropWhile_cons_of_neg]
    simpa using h

/-- What a rooted fetcher puts after its root. -/
theorem components_pathFor (root address : String) :
    components (pathFor (some root) address).toList = components root.toList ++
      components ((afterMark address.toList).dropWhile (· == '/')) := by
  rw [pathFor, String.toList_ofList, components_join]

theorem staysBelow_iff {root path : List Char} {rest : List (List Char)}
    (h : components path = components root ++ rest) : StaysBelow root path ↔ KeepsBelow rest := by
  constructor
  · rintro ⟨rest', he, hkeeps⟩
    rw [h, List.append_cancel_left_eq] at he
    exact he ▸ hkeeps
  · exact fun hkeeps => ⟨rest, h, hkeeps⟩

/-! ### Keeping below -/

theorem keepsBelow_append (h : ∀ n ∈ names, IsName n) {parts : List (List Char)}
    (hparts : KeepsBelow parts) : KeepsBelow (parts ++ names) := by
  rintro front ⟨behind, he⟩
  rcases List.append_eq_append_iff.mp he with ⟨between, rfl, -⟩ | ⟨more, rfl, rfl⟩
  · exact hparts front ⟨between, rfl⟩
  · have hnames : ∀ n ∈ more, IsName n := fun n hn => h n (List.mem_append_left _ hn)
    have hall := hparts parts List.prefix_rfl
    rw [List.count_append, List.countP_append, count_parent_names hnames]
    omega

theorem keepsBelow_nil : KeepsBelow [] := by
  intro front hfront
  rw [List.prefix_nil.mp hfront]
  exact Nat.le_refl _

theorem keepsBelow_names (h : ∀ n ∈ names, IsName n) : KeepsBelow names :=
  keepsBelow_append h keepsBelow_nil

theorem not_keepsBelow_parent (rest : List (List Char)) : ¬ KeepsBelow (parent :: rest) := by
  intro h
  have hclimbs := h [parent] ⟨rest, rfl⟩
  simp at hclimbs

/-- One component that goes down makes up for any that follows it. -/
theorem keepsBelow_name_cons {name part : List Char} (h : IsName name) :
    KeepsBelow [name, part] := by
  intro front hfront
  match front, hfront with
  | [], _ => exact Nat.le_refl _
  | [c], hfront =>
    obtain ⟨rfl, -⟩ := List.cons_prefix_cons.mp hfront
    simp [h.2.2.1]
  | [c, d], hfront =>
    obtain ⟨rfl, -⟩ := List.cons_prefix_cons.mp hfront
    rw [List.count_cons_of_ne h.2.2.1]
    simp only [List.count_cons, List.count_nil, List.countP_cons, List.countP_nil]
    have : decide (c ≠ parent) = true := decide_eq_true h.2.2.1
    simp only [this, if_true]
    split <;> omega
  | _ :: _ :: _ :: _, hfront =>
    have := hfront.length_le
    simp at this

/-! ### Paths of normal addresses -/

theorem afterMark_eq_self {address : List Char} (h : ¬ "file://".toList <+: address) :
    afterMark address = address := by
  rw [afterMark.eq_def]
  split
  · next rest => exact absurd ⟨rest, rfl⟩ h
  · rfl

theorem components_authority {authority : List Char} (h : '/' ∉ authority) :
    components authority = [] ∨ components authority = [parent] ∧ authority = parent ∨
      components authority = [authority] ∧ IsName authority := by
  rw [components_of_noSlash h]
  by_cases hempty : authority = [] ∨ authority = ['.']
  · rcases hempty with rfl | rfl
    · exact .inl rfl
    · exact .inl rfl
  obtain ⟨hne, hdot⟩ := not_or.mp hempty
  have hself : [authority].filter (fun c => c ≠ [] ∧ c ≠ ['.']) = [authority] :=
    List.filter_eq_self.mpr fun c hc => by
      rw [List.mem_singleton.mp hc]
      simpa using ⟨hne, hdot⟩
  rw [hself]
  by_cases hparent : authority = parent
  · exact .inr (.inl ⟨by rw [hparent], hparent⟩)
  · exact .inr (.inr ⟨rfl, hne, hdot, hparent, h⟩)

theorem components_slashes (h : path.head? ≠ some '/') (authority : List Char)
    (hauthority : '/' ∉ authority) :
    components ((authority ++ '/' :: path).dropWhile (· == '/')) =
      components authority ++ components path := by
  cases authority with
  | nil =>
    rw [List.nil_append, List.dropWhile_cons_of_pos rfl, dropWhile_slash h, components_nil,
      List.nil_append]
  | cons c authority =>
    have hc : c ≠ '/' := fun he => hauthority (he ▸ List.mem_cons_self)
    rw [dropWhile_slash (by simpa using hc), components_append_slash]

/-! What an address leaves of itself below a root: its path, behind the authority of a file
address, or behind the scheme and the authority of any other. -/

theorem components_rooted (h : path.head? ≠ some '/') :
    components ((afterMark ('/' :: path)).dropWhile (· == '/')) = components path := by
  have hmark : ¬ "file://".toList <+: '/' :: path := fun hp =>
    absurd (List.cons_prefix_cons.mp hp).1 (by decide)
  rw [afterMark_eq_self hmark]
  exact components_slashes h [] List.not_mem_nil

theorem components_file (h : path.head? ≠ some '/') {authority : List Char}
    (hauthority : '/' ∉ authority) :
    components ((afterMark ("file://".toList ++ authority ++ '/' :: path)).dropWhile (· == '/')) =
      components authority ++ components path :=
  components_slashes h authority hauthority

theorem isName_scheme {scheme : List Char} (h : scheme.all isSchemeChar) :
    IsName (scheme ++ [':']) := by
  have hlast : (scheme ++ [':']).getLast? = some ':' := by simp
  refine ⟨by simp, fun he => ?_, fun he => ?_, by simp [slash_notMem_of_isSchemeChar h]⟩
  all_goals
    rw [he] at hlast
    revert hlast
    decide

theorem components_scheme {scheme : List Char} (hne : scheme ≠ [])
    (hall : scheme.all isSchemeChar) (hother : scheme ≠ "file".toList)
    (authority path : List Char) :
    components ((afterMark (scheme ++ ':' :: '/' :: '/' :: (authority ++ '/' :: path))).dropWhile
        (· == '/')) =
      (scheme ++ [':']) :: (components authority ++ components path) := by
  have hslash := slash_notMem_of_isSchemeChar hall
  have hmark :
      ¬ "file://".toList <+: scheme ++ ':' :: '/' :: '/' :: (authority ++ '/' :: path) := by
    rintro ⟨rest, he⟩
    have hfile := scheme?_eq_some_iff.mpr
      ⟨show "file".toList ≠ [] by decide, show "file".toList.all isSchemeChar by decide, he.symm⟩
    rw [scheme?_eq_some_iff.mpr ⟨hne, hall, rfl⟩] at hfile
    exact hother (Prod.mk.inj (Option.some.inj hfile)).1
  have hhead : (scheme ++ ':' :: '/' :: '/' :: (authority ++ '/' :: path)).head? ≠ some '/' := by
    obtain ⟨c, scheme, rfl⟩ := List.exists_cons_of_ne_nil hne
    simpa using fun he : c = '/' => hslash (he ▸ List.mem_cons_self)
  have htext : scheme ++ ':' :: '/' :: '/' :: (authority ++ '/' :: path) =
      (scheme ++ [':']) ++ '/' :: ([] ++ '/' :: (authority ++ '/' :: path)) := by simp
  have hname := isName_scheme hall
  have hsingle : components (scheme ++ [':']) = [scheme ++ [':']] := by
    have hjoined : components (['/'].intercalate [scheme ++ [':']]) = [scheme ++ [':']] :=
      components_intercalate (by simpa using hname)
    rwa [List.intercalate_singleton] at hjoined
  rw [afterMark_eq_self hmark, dropWhile_slash hhead, htext, components_append_slash,
    components_append_slash, components_append_slash, hsingle, components_nil]
  rfl

theorem keepsBelow_scheme {scheme authority : List Char} (hall : scheme.all isSchemeChar)
    (hauthority : '/' ∉ authority) : KeepsBelow ((scheme ++ [':']) :: components authority) := by
  have hname := isName_scheme hall
  rcases components_authority hauthority with he | ⟨he, -⟩ | ⟨he, -⟩
  · exact he ▸ keepsBelow_names (by simpa using hname)
  · exact he ▸ keepsBelow_name_cons hname
  · exact he ▸ keepsBelow_name_cons hname

theorem components_address {l : Location} (h : l.IsNormal) (hrooted : l.rooted = true) :
    ∃ before, components ((afterMark l.text).dropWhile (· == '/')) = before ++ l.segments ∧
      (l.origin ≠ climbingOrigin → KeepsBelow before) ∧
      (l.origin = climbingOrigin → before = [parent]) := by
  have hnames := h.segments_of_rooted hrooted
  have hpath := head?_intercalate hnames
  have hsegments := components_intercalate hnames
  rw [Location.text_of_rooted hrooted]
  rcases h.origin with horigin | horigin
  · refine ⟨[], ?_, fun _ => keepsBelow_nil, fun he => absurd (horigin.symm.trans he) (by decide)⟩
    rw [horigin, List.nil_append, components_rooted hpath, hsegments, List.nil_append]
  obtain ⟨⟨scheme, authority⟩, hs, hauthority⟩ := isOrigin_iff.mp horigin
  obtain ⟨hne, hall, hl⟩ := scheme?_eq_some_iff.mp hs
  by_cases hfile : scheme = "file".toList
  · subst hfile
    have hclimbing : l.origin = climbingOrigin ↔ authority = parent := by
      have hcancel : "file://".toList ++ authority = "file://".toList ++ parent ↔
          authority = parent := List.append_right_inj _
      rw [hl]
      exact hcancel
    refine ⟨components authority, ?_, fun hn => ?_, fun he => ?_⟩
    · have hfile := components_file hpath hauthority
      rw [hsegments] at hfile
      rw [hl]
      exact hfile
    · rcases components_authority hauthority with he | ⟨-, he⟩ | ⟨he, hname⟩
      · exact he ▸ keepsBelow_nil
      · exact absurd (hclimbing.mpr he) hn
      · exact he ▸ keepsBelow_names (by simpa using hname)
    · rw [hclimbing.mp he]
      rfl
  · refine ⟨(scheme ++ [':']) :: components authority, ?_,
      fun _ => keepsBelow_scheme hall hauthority, fun he => ?_⟩
    · have hscheme := components_scheme hne hall hfile authority (['/'].intercalate l.segments)
      rw [hl]
      simpa [hsegments] using hscheme
    · have hclimbing : scheme? climbingOrigin = some ("file".toList, parent) := by decide
      rw [← he, hs] at hclimbing
      exact absurd (Prod.mk.inj (Option.some.inj hclimbing)).1 hfile

/-- A rooted fetcher stays below its root for every normal absolute address but those with the
climbing authority, which lead one level up and down again from there. -/
theorem staysBelow_pathFor_iff {address : String} (root : String)
    (hnormal : normalizeChars address.toList = address.toList)
    (habsolute : isAbsoluteChars address.toList = true) :
    (StaysBelow root.toList (pathFor (some root) address).toList ↔
        (cutOrigin address.toList).1 ≠ climbingOrigin) ∧
      ((cutOrigin address.toList).1 = climbingOrigin →
        ∃ names, components (pathFor (some root) address).toList =
          components root.toList ++ parent :: names ∧ ∀ n ∈ names, IsName n) := by
  obtain ⟨l, h, htext, hrooted, horigin⟩ := isNormal_of_normalizeChars hnormal
  rw [habsolute] at hrooted
  have hnames := h.segments_of_rooted hrooted
  obtain ⟨before, hbefore, hkeeps, hclimbs⟩ := components_address h hrooted
  have hpath := components_pathFor root address
  rw [htext, hbefore] at hpath
  rw [← horigin]
  refine ⟨?_, fun he => ⟨l.segments, by rw [hpath, hclimbs he]; rfl, hnames⟩⟩
  rw [staysBelow_iff hpath]
  constructor
  · intro hstays he
    rw [hclimbs he] at hstays
    exact not_keepsBelow_parent _ hstays
  · exact fun hne => keepsBelow_append hnames (hkeeps hne)

end Files

/-! ### Following specifiers -/

namespace Address

/-- Where a chain of specifiers leads, each relative to where the one before it led. -/
def follow (base : String) (specifiers : List String) : String :=
  specifiers.foldl (fun base specifier => resolve specifier base) base

/-- Of an absolute base with a path, a specifier changes the origin only when it is absolute. -/
def IsGrounded (base : List Char) : Prop :=
  isAbsoluteChars base = true ∧ ¬ IsOrigin base

variable {base : String}

theorem isGrounded_of_head? {base : List Char} (h : base.head? = some '/') : IsGrounded base := by
  cases base with
  | nil => cases h
  | cons c base =>
    obtain rfl := Option.some.inj h
    exact ⟨rfl, fun ho => ho.1 (by rw [cutOrigin_of_none (scheme?_slash base)])⟩

theorem toList_resolve (specifier base : String) :
    (resolve specifier base).toList = resolveChars specifier.toList base.toList :=
  String.toList_ofList

theorem IsGrounded.resolve (h : IsGrounded base.toList) (specifier : String) :
    IsGrounded (Address.resolve specifier base).toList := by
  rw [toList_resolve]
  refine ⟨by rw [isAbsoluteChars_resolveChars, h.1, Bool.or_true], ?_⟩
  exact not_isOrigin_of_normalizeChars (normalizeChars_resolveChars _ _)

theorem IsGrounded.follow (h : IsGrounded base.toList) {specifiers : List String}
    (hne : specifiers ≠ []) :
    IsGrounded (follow base specifiers).toList ∧
      normalizeChars (Address.follow base specifiers).toList =
        (Address.follow base specifiers).toList := by
  induction specifiers generalizing base with
  | nil => exact absurd rfl hne
  | cons s specifiers ih =>
    cases specifiers with
    | nil =>
      refine ⟨h.resolve s, ?_⟩
      rw [Address.follow, List.foldl_cons, List.foldl_nil, toList_resolve]
      exact normalizeChars_resolveChars _ _
    | cons s' specifiers => exact ih (h.resolve s) (by simp)

/-- The last absolute specifier of a chain decides on the origin. -/
theorem IsGrounded.cutOrigin_follow (h : IsGrounded base.toList) (specifiers : List String) :
    (cutOrigin (Address.follow base specifiers).toList).1 =
      (cutOrigin ((specifiers.findRev? isAbsolute).getD base).toList).1 := by
  induction specifiers generalizing base with
  | nil => rfl
  | cons s specifiers ih =>
    have hstep := ih (h.resolve s)
    rw [Address.follow, List.foldl_cons]
    rw [Address.follow] at hstep
    rw [hstep, List.findRev?]
    cases specifiers.findRev? isAbsolute with
    | some last => rfl
    | none =>
      rw [Option.getD_none, toList_resolve, cutOrigin_resolveChars h.2]
      have hsame : isAbsoluteChars s.toList = isAbsolute s := rfl
      cases hs : isAbsolute s <;> simp [hsame, hs]

end Address

namespace Files

open Address

/-- From a base below a root, a chain of specifiers keeps a rooted fetcher below its root unless
the last absolute specifier among them is a file address with the climbing authority. In that
case the path climbs out of the root by one level and goes down from there. -/
theorem staysBelow_follow_iff {base : String} (hbase : base.toList.head? = some '/')
    {specifiers : List String} (hne : specifiers ≠ []) (root : String) :
    (StaysBelow root.toList (pathFor (some root) (follow base specifiers)).toList ↔
        ∀ s, specifiers.findRev? isAbsolute = some s →
          (cutOrigin s.toList).1 ≠ climbingOrigin) ∧
      (¬ StaysBelow root.toList (pathFor (some root) (follow base specifiers)).toList →
        ∃ names, components (pathFor (some root) (follow base specifiers)).toList =
          components root.toList ++ parent :: names ∧ ∀ n ∈ names, IsName n) := by
  have hgrounded := isGrounded_of_head? hbase
  obtain ⟨hfollow, hnormal⟩ := hgrounded.follow hne
  obtain ⟨hiff, hclimbs⟩ := staysBelow_pathFor_iff root hnormal hfollow.1
  have horigin := hgrounded.cutOrigin_follow specifiers
  refine ⟨?_, fun hnot => hclimbs (by simpa [hiff] using hnot)⟩
  rw [hiff, horigin]
  cases hlast : specifiers.findRev? isAbsolute with
  | some s => simp
  | none =>
    have hbaseOrigin : (cutOrigin base.toList).1 = [] := by
      obtain ⟨rest, hrest⟩ := List.head?_eq_some_iff.mp hbase
      rw [hrest, cutOrigin_of_none (scheme?_slash rest)]
    rw [Option.getD_none, hbaseOrigin]
    exact iff_of_true (by decide) (by simp)

/-- Specifiers that climb, with and without an origin. -/
theorem staysBelow_follow_climbing :
    StaysBelow "/srv/app".toList (pathFor (some "/srv/app")
      (follow "/app/main" ["../../../lib", "https://../x/../../y", "./../z"])).toList :=
  (staysBelow_follow_iff (by decide) (by decide) "/srv/app").1.mpr (by decide)

theorem not_staysBelow_climbingAuthority :
    pathFor (some "/srv/app") (follow "/main" ["file://../secret"]) = "/srv/app/../secret" ∧
      ¬ StaysBelow "/srv/app".toList
        (pathFor (some "/srv/app") (follow "/main" ["file://../secret"])).toList := by
  have hpath : pathFor (some "/srv/app") (follow "/main" ["file://../secret"]) =
      "/srv/app/../secret" := by decide +kernel
  refine ⟨hpath, ?_⟩
  have hcomponents : components "/srv/app/../secret".toList =
      components "/srv/app".toList ++ [parent, "secret".toList] := by decide
  rw [hpath, staysBelow_iff hcomponents]
  exact not_keepsBelow_parent _

end Files

end UnitLoader
