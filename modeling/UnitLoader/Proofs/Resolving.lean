import UnitLoader.Proofs.Normalizing

/-! Where a relative specifier leads. It goes on from the directory of the base, below the origin
of the base. A base that ends with the mark of its scheme is the exception: the slash of the mark
passes for the end of a directory, so that the specifier gives the base an authority. -/

namespace UnitLoader

namespace Address

/-- An address that ends with the mark of its scheme. -/
def IsBareMark (address : List Char) : Prop :=
  ∃ scheme, scheme? address = some (scheme, [])

instance (address : List Char) : Decidable (IsBareMark address) :=
  decidable_of_iff ((scheme? address).map (·.2) = some [])
    ⟨fun h => by
      obtain ⟨⟨scheme, after⟩, hs, rfl⟩ := Option.map_eq_some_iff.mp h
      exact ⟨scheme, hs⟩,
    fun ⟨_, hs⟩ => by rw [hs, Option.map_some]⟩

/-- The directory of a base, followed by the segments of a specifier. -/
def Location.goOn (base specifier : List Char) : Location :=
  ⟨(cutOrigin base).1, isAbsoluteChars base,
    (upToLastSlash (cutOrigin base).2).splitOn '/' ++ specifier.splitOn '/'⟩

/-- An address that keeps the origin of a base, and the root if it has one, and on whose path a
specifier goes on from the directory of the base. -/
structure GoesOn (base specifier resolved : List Char) : Prop where
  origin : (cutOrigin resolved).1 = (cutOrigin base).1
  rooted : (cutOrigin resolved).2.head? = some '/' ↔
    (cutOrigin base).1 ≠ [] ∨ base.head? = some '/'
  text : resolved = (Location.goOn base specifier).normalize.text

variable {base specifier : List Char} {l : Location}

theorem Location.IsNormal.head?_cutOrigin_iff (h : l.IsNormal) :
    (cutOrigin l.text).2.head? = some '/' ↔ l.rooted = true := by
  cases hr : l.rooted with
  | true => simp [h.cutOrigin_of_rooted hr]
  | false =>
    obtain ⟨hcut, hhead⟩ := h.cutOrigin_of_relative hr
    simp [hcut, hhead]

theorem Location.isNormal_goOn (base specifier : List Char) :
    (Location.goOn base specifier).normalize.IsNormal where
  origin := by
    by_cases h : (cutOrigin base).1 = []
    · exact .inl h
    · exact .inr (isOrigin_cutOrigin h)
  rooted := isAbsoluteChars_of_origin
  segments := by
    rw [Location.normalize, List.reverse_reverse]
    refine (winds_nil _).foldl fun s hs => ?_
    rcases List.mem_append.mp hs with hs | hs
    · exact notMem_of_mem_splitOn '/' _ s hs
    · exact notMem_of_mem_splitOn '/' _ s hs

theorem goesOn_text (base specifier : List Char) :
    GoesOn base specifier (Location.goOn base specifier).normalize.text where
  origin := (Location.isNormal_goOn base specifier).cutOrigin_fst
  rooted := (Location.isNormal_goOn base specifier).head?_cutOrigin_iff.trans isAbsoluteChars_iff
  text := rfl

/-! ### Bare marks -/

theorem IsBareMark.isOrigin (h : IsBareMark base) : IsOrigin base := by
  obtain ⟨scheme, hs⟩ := h
  exact isOrigin_iff.mpr ⟨(scheme, []), hs, List.not_mem_nil⟩

theorem IsOrigin.isBareMark (h : IsOrigin base) (closed : base.getLast? = some '/') :
    IsBareMark base := by
  obtain ⟨⟨scheme, after⟩, hs, hn⟩ := isOrigin_iff.mp h
  cases after with
  | nil => exact ⟨scheme, hs⟩
  | cons c after =>
    -- The last slash would stand behind the mark.
    have hlast : (c :: after).getLast? = some '/' := by
      have hmark : base = (scheme ++ [':', '/', '/']) ++ c :: after := by
        rw [scheme?_eq hs]
        simp
      rwa [hmark, List.getLast?_append_of_ne_nil _ (List.cons_ne_nil c after)] at closed
    exact absurd (List.mem_of_getLast? hlast) hn

theorem IsBareMark.join (h : IsBareMark base) (specifier : List Char) :
    join (directory base) specifier = base ++ specifier := by
  have hdirectory : directory base = base := by
    simp [directory, h.isOrigin.cutOrigin, upToLastSlash]
  obtain ⟨scheme, hs⟩ := h
  have hclosed : ∃ front, base = front ++ ['/'] := ⟨scheme ++ [':', '/'], by simp [scheme?_eq hs]⟩
  rw [hdirectory, join_of_closed specifier (.inr hclosed)]

theorem IsBareMark.cutOrigin_append (h : IsBareMark base) (specifier : List Char) :
    cutOrigin (base ++ specifier) =
      (base ++ specifier.takeWhile (· ≠ '/'), specifier.dropWhile (· ≠ '/')) := by
  obtain ⟨scheme, hs⟩ := h
  have happend : scheme? (base ++ specifier) = some (scheme, [] ++ specifier) :=
    scheme?_append_of_some hs specifier
  rw [cutOrigin_of_scheme? happend, List.nil_append, scheme?_eq hs]

theorem IsBareMark.goOn_nil (h : IsBareMark base) :
    (Location.goOn base []).normalize = (Location.ofText base).normalize := by
  have hup : upToLastSlash [] = [] := rfl
  simp only [Location.goOn, Location.normalize, Location.ofText, h.isOrigin.cutOrigin, hup,
    isAbsoluteChars_eq]
  rfl

/-- Nothing comes between a bare mark and the specifier. -/
theorem IsBareMark.resolveChars (h : IsBareMark base)
    (relative : isAbsoluteChars specifier = false) :
    resolveChars specifier base = normalizeChars (base ++ specifier) := by
  rw [Address.resolveChars, if_neg (by simp [relative]), h.join]

theorem takeWhile_ne_nil_of_relative (relative : isAbsoluteChars specifier = false)
    (hne : specifier ≠ []) : specifier.takeWhile (· ≠ '/') ≠ [] := by
  obtain ⟨c, rest, rfl⟩ := List.exists_cons_of_ne_nil hne
  have hc : c ≠ '/' := by
    rintro rfl
    simp [isAbsoluteChars] at relative
  simp [hc]

/-! ### Any base -/

theorem goesOn_of_relative (relative : isAbsoluteChars specifier = false)
    (hbase : IsBareMark base → specifier = []) :
    GoesOn base specifier (resolveChars specifier base) := by
  have htext : Address.resolveChars specifier base =
      (Location.goOn base specifier).normalize.text := by
    by_cases hmark : IsBareMark base
    · obtain rfl := hbase hmark
      rw [hmark.resolveChars relative, hmark.goOn_nil, List.append_nil, normalizeChars]
    · rw [resolveChars_of_relative relative fun h => hmark (h.1.isBareMark h.2),
        Location.normalize, Location.goOn, List.foldl_append]
      rfl
  rw [htext]
  exact goesOn_text base specifier

theorem origin_of_bareMark (relative : isAbsoluteChars specifier = false)
    (hmark : IsBareMark base) :
    (cutOrigin (resolveChars specifier base)).1 = base ++ specifier.takeWhile (· ≠ '/') := by
  rw [hmark.resolveChars relative, cutOrigin_normalizeChars, hmark.cutOrigin_append]

/-- A relative specifier goes on from the base, unless the base is a bare mark and the specifier
is not empty. The origin is then the base with the first segment of the specifier for authority. -/
theorem resolve_relative (specifier base : String) (relative : isAbsolute specifier = false) :
    (GoesOn base.toList specifier.toList (resolve specifier base).toList ↔
        ¬ (IsBareMark base.toList ∧ specifier ≠ "")) ∧
      (IsBareMark base.toList →
        resolve specifier base = normalize (base ++ specifier) ∧
          (cutOrigin (resolve specifier base).toList).1 =
            base.toList ++ specifier.toList.takeWhile (· ≠ '/')) := by
  have hresolve : (resolve specifier base).toList =
      resolveChars specifier.toList base.toList := String.toList_ofList
  rw [hresolve]
  refine ⟨⟨fun h ⟨hmark, hne⟩ => ?_, fun h => ?_⟩, fun hmark => ⟨?_, ?_⟩⟩
  · have horigin := h.origin
    rw [origin_of_bareMark relative hmark, hmark.isOrigin.cutOrigin] at horigin
    refine takeWhile_ne_nil_of_relative relative (fun he => hne ?_)
      (List.append_right_eq_self.mp horigin)
    exact String.toList_inj.mp he
  · refine goesOn_of_relative relative fun hmark => ?_
    by_contra hne
    exact h ⟨hmark, fun he => hne (by rw [he]; rfl)⟩
  · rw [resolve, normalize, hmark.resolveChars relative, String.toList_append]
  · exact origin_of_bareMark relative hmark

/-- The specifier climbs above the origin, and a mark of its own is a name and an empty segment. -/
theorem resolve_relative_mark : isAbsolute "../://x/./b:c" = false ∧
    GoesOn "https://example.com".toList "../://x/./b:c".toList
      "https://example.com/:/x/b:c".toList := by
  refine ⟨by decide +kernel, ?_⟩
  have hresolve : resolve "../://x/./b:c" "https://example.com" = "https://example.com/:/x/b:c" := by
    decide +kernel
  rw [← hresolve]
  exact (resolve_relative "../://x/./b:c" "https://example.com" (by decide +kernel)).1.mpr
    (by decide +kernel)

/-- The base has an empty authority, which the specifier takes the place of. -/
theorem resolve_bareMark : isAbsolute "dep" = false ∧ resolve "dep" "file://" = "file://dep/" ∧
    (cutOrigin "file://dep/".toList).1 ≠ (cutOrigin "file://".toList).1 := by
  decide +kernel

end Address

end UnitLoader
