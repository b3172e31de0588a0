import Mathlib.Data.List.TakeWhile
import UnitLoader.Proofs.Plain
import UnitLoader.Proofs.Verdict
import UnitLoader.Text.Unicode

/-! What the imports of a text that is evaluated are relative to. Its unit has the base
address of the loader with a suffix for an address; imports are found relative to the one
and checked relative to the other. The two agree as long as the suffix has a path to fall
into: behind a bare origin it becomes part of the host. -/

namespace UnitLoader

namespace Address

/-- An address that ends with its authority, so that it has no path. -/
def IsOrigin (address : List Char) : Prop :=
  (cutOrigin address).1 ≠ [] ∧ (cutOrigin address).2 = []

instance (address : List Char) : Decidable (IsOrigin address) :=
  inferInstanceAs (Decidable (_ ∧ _))

variable {base tail : List Char}

/-! ### Cutting a lengthened address -/

theorem cutMark_eq {address scheme after : List Char}
    (h : cutMark address = some (scheme, after)) :
    address = scheme ++ ':' :: '/' :: '/' :: after := by
  fun_induction cutMark address generalizing scheme with
  | case1 => cases h
  | case2 rest =>
    obtain ⟨rfl, rfl⟩ := Prod.mk.inj (Option.some.inj h)
    rfl
  | case3 c rest hc ih =>
    obtain ⟨⟨front, back⟩, hr, he⟩ := Option.map_eq_some_iff.mp h
    obtain ⟨rfl, rfl⟩ := Prod.mk.inj he
    rw [ih hr, List.cons_append]

theorem cutMark_append_of_some {r : List Char × List Char} (h : cutMark base = some r)
    (tail : List Char) : cutMark (base ++ tail) = some (r.1, r.2 ++ tail) := by
  fun_induction cutMark base generalizing r with
  | case1 => cases h
  | case2 rest =>
    obtain rfl := Option.some.inj h
    rfl
  | case3 c rest hc ih =>
    obtain ⟨s, hs, rfl⟩ := Option.map_eq_some_iff.mp h
    have hlong : ∃ x y more, rest = x :: y :: more := by
      match rest, hs with
      | x :: y :: more, _ => exact ⟨x, y, more, rfl⟩
      | [x], hs => simp [cutMark] at hs
    rw [List.cons_append, cutMark, ih hs]
    · rfl
    · rintro more rfl he
      obtain ⟨x, y, more', rfl⟩ := hlong
      simp only [List.cons_append, List.cons.injEq] at he
      obtain ⟨rfl, rfl, -⟩ := he
      exact hc more' rfl rfl

theorem cutMark_append_of_none (h : cutMark base = none) (noSlash : '/' ∉ tail) :
    cutMark (base ++ tail) = none := by
  fun_induction cutMark base with
  | case1 =>
    -- Without a slash there is no mark.
    cases hm : cutMark tail with
    | none => simpa using hm
    | some r =>
      rw [cutMark_eq hm] at noSlash
      simp at noSlash
  | case2 rest => cases h
  | case3 c rest hc ih =>
    have hnone := Option.map_eq_none_iff.mp h
    rw [List.cons_append, cutMark, ih hnone]
    · rfl
    · rintro more rfl he
      match rest, hc with
      | [], _ =>
        rw [List.nil_append] at he
        simp [he] at noSlash
      | [x], _ =>
        simp only [List.cons_append, List.nil_append, List.cons.injEq] at he
        simp [he.2] at noSlash
      | x :: y :: more', hc =>
        simp only [List.cons_append, List.cons.injEq] at he
        obtain ⟨rfl, rfl, -⟩ := he
        exact hc more' rfl rfl

theorem scheme?_append_of_some {r : List Char × List Char} (h : scheme? base = some r)
    (tail : List Char) : scheme? (base ++ tail) = some (r.1, r.2 ++ tail) := by
  simp only [scheme?] at h ⊢
  cases hm : cutMark base with
  | none => simp [hm] at h
  | some c =>
    rw [cutMark_append_of_some hm]
    rw [hm] at h
    simp only at h ⊢
    split at h
    · next hs =>
      obtain rfl := Option.some.inj h
      rw [if_pos hs]
    · cases h

theorem scheme?_append_of_none (h : scheme? base = none) (noSlash : '/' ∉ tail) :
    scheme? (base ++ tail) = none := by
  simp only [scheme?] at h ⊢
  cases hm : cutMark base with
  | none => rw [cutMark_append_of_none hm noSlash]
  | some c =>
    rw [cutMark_append_of_some hm]
    rw [hm] at h
    simp only at h ⊢
    split at h
    · cases h
    · next hs => rw [if_neg hs]

/-! ### Directories -/

theorem ne_slash_of_mem (noSlash : '/' ∉ tail) : ∀ c ∈ tail, decide (c ≠ '/') = true :=
  fun c hc => by simpa using fun he : c = '/' => noSlash (he ▸ hc)

theorem takeWhile_eq_self_of_noSlash (noSlash : '/' ∉ tail) : tail.takeWhile (· ≠ '/') = tail :=
  List.takeWhile_eq_self_iff.mpr (ne_slash_of_mem noSlash)

theorem dropWhile_eq_nil_of_noSlash (noSlash : '/' ∉ tail) : tail.dropWhile (· ≠ '/') = [] :=
  List.dropWhile_eq_nil_iff.mpr (ne_slash_of_mem noSlash)

theorem noSlash_takeWhile (path : List Char) : '/' ∉ path.takeWhile (· ≠ '/') := fun hm => by
  simpa using List.mem_takeWhile_imp hm

theorem upToLastSlash_append (path : List Char) (noSlash : '/' ∉ tail) :
    upToLastSlash (path ++ tail) = upToLastSlash path := by
  have hall := ne_slash_of_mem (mt List.mem_reverse.mp noSlash)
  rw [upToLastSlash, List.reverse_append, List.dropWhile_append_of_pos hall, upToLastSlash]

theorem cutOrigin_of_scheme? {address scheme after : List Char}
    (h : scheme? address = some (scheme, after)) : cutOrigin address =
      (scheme ++ [':', '/', '/'] ++ after.takeWhile (· ≠ '/'), after.dropWhile (· ≠ '/')) := by
  simp only [cutOrigin, h]

theorem scheme?_eq {address scheme after : List Char}
    (h : scheme? address = some (scheme, after)) :
    address = scheme ++ ':' :: '/' :: '/' :: after := by
  simp only [scheme?] at h
  split at h
  · next hm =>
    split at h
    · obtain ⟨rfl, rfl⟩ := Prod.mk.inj (Option.some.inj h)
      exact cutMark_eq hm
    · cases h
  · cases h

/-- An address is a bare origin when it has a scheme and no slash comes after its mark. -/
theorem isOrigin_iff : IsOrigin base ↔ ∃ r, scheme? base = some r ∧ '/' ∉ r.2 := by
  cases h : scheme? base with
  | none => simp [IsOrigin, cutOrigin, h]
  | some r =>
    obtain ⟨scheme, after⟩ := r
    simp only [IsOrigin, cutOrigin_of_scheme? h, List.dropWhile_eq_nil_iff]
    constructor
    · rintro ⟨-, hall⟩
      exact ⟨_, rfl, fun hm => by simpa using hall '/' hm⟩
    · rintro ⟨r, hr, hs⟩
      obtain rfl := Option.some.inj hr
      exact ⟨by simp, fun c hc => by simpa using fun he : c = '/' => hs (he ▸ hc)⟩

theorem IsOrigin.append (h : IsOrigin base) (noSlash : '/' ∉ tail) : IsOrigin (base ++ tail) := by
  obtain ⟨r, hs, hn⟩ := isOrigin_iff.mp h
  exact isOrigin_iff.mpr ⟨_, scheme?_append_of_some hs tail, by simp [hn, noSlash]⟩

theorem IsOrigin.cutOrigin (h : IsOrigin base) : cutOrigin base = (base, []) := by
  obtain ⟨⟨scheme, after⟩, hs, hn⟩ := isOrigin_iff.mp h
  rw [cutOrigin_of_scheme? hs, takeWhile_eq_self_of_noSlash hn, dropWhile_eq_nil_of_noSlash hn,
    scheme?_eq hs]
  simp

theorem IsOrigin.cutOrigin_slash (h : IsOrigin base) (more : List Char) :
    Address.cutOrigin (base ++ '/' :: more) = (base, '/' :: more) := by
  obtain ⟨⟨scheme, after⟩, hs, hn⟩ := isOrigin_iff.mp h
  rw [cutOrigin_of_scheme? (scheme?_append_of_some hs _),
    List.takeWhile_append_of_pos (ne_slash_of_mem hn),
    List.dropWhile_append_of_pos (ne_slash_of_mem hn), scheme?_eq hs]
  simp

/-- Below an origin, a normal address is that origin with a path. -/
theorem IsOrigin.normalizeChars (h : IsOrigin base) {path : List Char}
    (rooted : path = [] ∨ ∃ more, path = '/' :: more) :
    ∃ rest, normalizeChars (base ++ path) = base ++ '/' :: rest := by
  have hne : base ≠ [] := fun he => h.1 (by rw [he]; rfl)
  have hcut : Address.cutOrigin (base ++ path) = (base, path) := by
    rcases rooted with rfl | ⟨more, rfl⟩
    · rw [List.append_nil, h.cutOrigin]
    · exact h.cutOrigin_slash more
  simp only [Address.normalizeChars, Location.ofText, hcut, Location.normalize, Location.text]
  simp [hne]

theorem IsOrigin.directory (h : IsOrigin base) : directory base = base := by
  simp [Address.directory, h.cutOrigin, upToLastSlash]

theorem IsOrigin.resolveChars (h : IsOrigin base) (closed : base.getLast? ≠ some '/')
    {specifier : List Char} (relative : isAbsoluteChars specifier = false) :
    ∃ rest, resolveChars specifier base = base ++ '/' :: rest := by
  have hne : base ≠ [] := fun he => h.1 (by rw [he]; rfl)
  have hjoin : join (Address.directory base) specifier = base ++ '/' :: specifier := by
    rw [h.directory, join, if_neg (by simp [hne, closed])]
  rw [Address.resolveChars, relative, hjoin]
  exact h.normalizeChars (.inr ⟨specifier, rfl⟩)

/-- Behind a mark with nothing after it, the specifier begins with the authority. -/
theorem IsOrigin.resolveChars_mark (h : IsOrigin base) (mark : base.getLast? = some '/')
    {specifier : List Char} (relative : isAbsoluteChars specifier = false) :
    ∃ rest, Address.resolveChars specifier base =
      (base ++ specifier.takeWhile (· ≠ '/')) ++ '/' :: rest := by
  have hjoin : join (Address.directory base) specifier =
      (base ++ specifier.takeWhile (· ≠ '/')) ++ specifier.dropWhile (· ≠ '/') := by
    rw [h.directory, join, if_pos (by simp [mark]), List.append_assoc,
      List.takeWhile_append_dropWhile]
  rw [Address.resolveChars, relative, hjoin]
  refine (h.append (noSlash_takeWhile specifier)).normalizeChars ?_
  cases hd : specifier.dropWhile (· ≠ '/') with
  | nil => exact .inl rfl
  | cons c more =>
    have hc := List.head_dropWhile_not (· ≠ '/') (hd ▸ List.cons_ne_nil c more)
    simp only [hd, List.head_cons, decide_eq_false_iff_not, not_not] at hc
    exact .inr ⟨more, by rw [hc]⟩

theorem directory_append (h : ¬ IsOrigin base) (noSlash : '/' ∉ tail) :
    directory (base ++ tail) = directory base := by
  cases hs : scheme? base with
  | none =>
    simp only [directory, cutOrigin, hs, scheme?_append_of_none hs noSlash,
      upToLastSlash_append _ noSlash]
  | some r =>
    obtain ⟨scheme, after⟩ := r
    have hslash : '/' ∈ after := by
      by_contra hn
      exact h (isOrigin_iff.mpr ⟨_, hs, hn⟩)
    have hne : (after.takeWhile (· ≠ '/')).length ≠ after.length := fun he => by
      have hself : after.takeWhile (· ≠ '/') = after :=
        (List.takeWhile_prefix _).eq_of_length he
      simpa using List.takeWhile_eq_self_iff.mp hself '/' hslash
    have hpath : (after.dropWhile (· ≠ '/')).isEmpty = false := by
      rw [List.isEmpty_eq_false_iff]
      intro he
      simpa using List.dropWhile_eq_nil_iff.mp he '/' hslash
    simp only [directory, cutOrigin_of_scheme? hs,
      cutOrigin_of_scheme? (scheme?_append_of_some hs tail), List.takeWhile_append, if_neg hne,
      List.dropWhile_append, hpath, Bool.false_eq_true, if_false, upToLastSlash_append _ noSlash]

/-! ### Specifiers in an evaluated text -/

theorem noSlash_evalSuffix (n : Nat) : '/' ∉ ("#eval-" ++ toString n).toList := by
  have hdigits : '/' ∉ (toString n).toList := by
    rw [Nat.toString_eq_ofList_toDigits, String.toList_ofList]
    intro hm
    have hdigit := Nat.isDigit_of_mem_toDigits (b := 10) (by omega) (Nat.le_refl 10) hm
    exact absurd hdigit (by decide)
  have hmark : '/' ∉ "#eval-".toList := by decide
  rw [String.toList_append, List.mem_append, not_or]
  exact ⟨hmark, hdigits⟩

theorem evalSuffix_ne_nil (n : Nat) : ("#eval-" ++ toString n).toList ≠ [] := by
  rw [String.toList_append]
  exact List.append_ne_nil_of_left_ne_nil (by decide) _

theorem resolve_evalAddress {specifier base : String} (n : Nat)
    (h : isAbsolute specifier = true ∨ ¬ IsOrigin base.toList) :
    resolve specifier (base ++ "#eval-" ++ toString n) = resolve specifier base := by
  rw [String.append_assoc, resolve, resolve, String.toList_append, Address.resolveChars,
    Address.resolveChars]
  rcases h with h | h
  · have habsolute : isAbsoluteChars specifier.toList = true := h
    rw [if_pos habsolute, if_pos habsolute]
  · rw [directory_append h (noSlash_evalSuffix n)]

theorem append_slash_inj {front front' rest rest' : List Char} (hfront : '/' ∉ front)
    (hfront' : '/' ∉ front') (h : front ++ '/' :: rest = front' ++ '/' :: rest') :
    front = front' := by
  have htake := congrArg (List.takeWhile (· ≠ '/')) h
  rw [List.takeWhile_append_of_pos (ne_slash_of_mem hfront),
    List.takeWhile_append_of_pos (ne_slash_of_mem hfront')] at htake
  simpa using htake

/-- Behind a bare origin a relative specifier leads elsewhere, unless it names the suffix itself
behind a mark with nothing after it. -/
theorem resolve_evalAddress_ne {specifier base : String} (n : Nat) (h : IsOrigin base.toList)
    (relative : isAbsolute specifier = false)
    (other : base.toList.getLast? = some '/' →
      specifier.toList.takeWhile (· ≠ '/') ≠ ("#eval-" ++ toString n).toList) :
    resolve specifier (base ++ "#eval-" ++ toString n) ≠ resolve specifier base := by
  have hsuffix := noSlash_evalSuffix n
  have hlast : (base.toList ++ ("#eval-" ++ toString n).toList).getLast? ≠ some '/' := by
    rw [List.getLast?_append_of_ne_nil _ (evalSuffix_ne_nil n)]
    exact fun he => hsuffix (List.mem_of_getLast? he)
  obtain ⟨rest, hrest⟩ := (h.append hsuffix).resolveChars hlast relative
  rw [String.append_assoc, resolve, resolve, String.toList_append, hrest, Ne, String.ofList_inj]
  by_cases hmark : base.toList.getLast? = some '/'
  · obtain ⟨rest', hrest'⟩ := h.resolveChars_mark hmark relative
    rw [hrest', List.append_assoc, List.append_assoc]
    intro he
    exact other hmark
      (append_slash_inj hsuffix (noSlash_takeWhile _) (List.append_cancel_left he)).symm
  · obtain ⟨rest', hrest'⟩ := h.resolveChars hmark relative
    rw [hrest', List.append_assoc]
    intro he
    -- the suffix would have to be empty
    exact evalSuffix_ne_nil n
      (append_slash_inj hsuffix List.not_mem_nil (List.append_cancel_left he))

/-- Such a specifier may climb out of the suffix, and then lead to the same address. -/
example : resolve "#eval-0/.." "file://#eval-0" = resolve "#eval-0/.." "file://" := by
  decide +kernel

end Address

/-! ### Units of evaluated texts -/

namespace Session

variable {Tree Value : Type}

/-- The unit of a text that was evaluated has the base address with a suffix. -/
def EvalsNamed (s : Session Tree Value (Listener Value)) : Prop :=
  ∀ id u, s.cache.get? id = some u → u.origin = .eval →
    ∃ n : Nat, u.address = s.baseAddress ++ "#eval-" ++ toString n

theorem lasting_evalsNamed :
    Lasting (EvalsNamed : Session Tree Value (Listener Value) → Prop) where
  still := by
    intro s t hs hstill _ id v hv horigin
    obtain ⟨u, hu, he⟩ := Still.get?_back hstill hv
    have hbase : t.baseAddress = s.baseAddress := hstill.baseAddress
    obtain ⟨haddress, -, hsame⟩ := SourceUnit.place_of_core he
    rw [hbase, haddress]
    exact hs id u hu (hsame.symm.trans horigin)
  gains := by
    intro s t w _ hs hgains hnew _ id v hv horigin
    rw [hgains.baseAddress]
    rcases hgains.get?_back hv with ⟨u, hu, he⟩ | ⟨-, he⟩
    · obtain ⟨haddress, -, hsame⟩ := SourceUnit.place_of_core he
      rw [haddress]
      exact hs id u hu (hsame.symm.trans horigin)
    · obtain ⟨haddress, -, hsame⟩ := SourceUnit.place_of_core he
      have hw : w.origin = .eval := hsame.symm.trans horigin
      rw [haddress]
      cases hnew with
      | load absent => cases hw
      | eval => exact ⟨_, rfl⟩
  moves := by
    intro m n hm hs hmove id v hv horigin
    rw [(hmove.develops hm).setting.baseAddress]
    rcases (hmove.turns hm).unit hv with ⟨u, hu, haddress, -, ho⟩ | ⟨-, hload⟩
    · rw [haddress]
      exact hs id u hu (ho.symm.trans horigin)
    · cases hload.symm.trans horigin

end Session

namespace Host

variable {Tree Value : Type} {ledger : List Registration} {h : Host Tree Value} {loader : Nat}
  {s : Session Tree Value (Listener Value)} {id : UnitId}
  {u : SourceUnit Tree Value (Listener Value)}

/-- The imports of an evaluated text are looked up where they were found, except for relative
ones behind a bare origin. Analysis has nothing against a name that the project has there, or that
a target there declares in the first pass. Behind a bare origin the suffix of the text's own address
goes into the host, and no relative import is looked up where it was found; but where the base ends
with the mark of its scheme, as `file://` does, this is left open for a specifier that begins with
that suffix. -/
theorem Run.eval_imports (run : Run ledger h) (hs : h.session? loader = some s)
    (paths : s.project.resolver = Address.resolve) (hu : s.cache.get? id = some u)
    (given : u.origin = .eval) (specifier : String) :
    (Address.isAbsolute specifier = true ∨ ¬ Address.IsOrigin s.baseAddress.toList →
      s.project.resolve specifier u.address = s.project.resolve specifier (s.referrer id) ∧
      ∀ (p : Project) (targets : List (Target Program)) (line : Line) (names : List String),
        p.resolver = s.project.resolver → line.stmt = .imports names specifier →
        (∀ name ∈ names, name ∈ p.exportsOf (s.project.resolve specifier (s.referrer id)) ∨
          ∃ source ∈ targets, source.address = s.project.resolve specifier (s.referrer id) ∧
            name ∈ Linking.exportNames source) →
        Linking.unboundIn (Linking.analyze targets p).value u.address line = []) ∧
    (Address.IsOrigin s.baseAddress.toList → Address.isAbsolute specifier = false →
      (s.baseAddress.toList.getLast? = some '/' →
        s.baseAddress.toList ++ specifier.toList.takeWhile (· ≠ '/') ≠ u.address.toList) →
      s.project.resolve specifier u.address ≠ s.project.resolve specifier (s.referrer id)) := by
  have hnamed : s.EvalsNamed := Session.lasting_evalsNamed.run (fun setup ns id u hu => by
    simp [Host.opened, Session.fresh, Build.empty, Cache.empty, Cache.get?] at hu) run hs
  obtain ⟨n, haddress⟩ := hnamed id u hu given
  have hreferrer : s.referrer id = s.baseAddress := by
    simp [Session.referrer, hu, given, Origin.resolvesAgainstBase]
  have hresolve (base : String) : s.project.resolve specifier base =
      Address.resolve specifier base := by
    rw [Project.resolve, paths]
  rw [hreferrer, haddress, hresolve, hresolve]
  refine ⟨fun hpath => ?_, fun horigin hrelative hother => ?_⟩
  · have hsame := Address.resolve_evalAddress n hpath
    refine ⟨hsame, fun p targets line names hresolver hline hexports => ?_⟩
    refine Linking.unboundIn_eq_nil_iff.mpr fun names' specifier' hline' name hname => ?_
    obtain ⟨rfl, rfl⟩ := Stmt.imports.inj (hline.symm.trans hline')
    rw [Linking.resolve_analyze, Linking.mem_exportsOf_analyze, Project.resolve, hresolver, paths,
      hsame]
    exact hexports name hname
  · refine Address.resolve_evalAddress_ne n horigin hrelative fun hmark he => ?_
    refine hother hmark ?_
    rw [he, String.append_assoc, ← String.toList_append]

/-- A base address with a path below its origin. -/
def belowOrigin : Setup Program UnitLoader.Value :=
  .plain Lang.toolchain { Config.default with baseAddress := "https://example.com/app/main" }
    (.ofList [] false)

theorem Run.eval_imports_belowOrigin :
    ∃ s : Session Program UnitLoader.Value (Listener UnitLoader.Value),
      s.baseAddress = "https://example.com/app/main" ∧
      s.project.resolve "./lib" (s.cache.addressOf ⟨0⟩) =
        s.project.resolve "./lib" (s.referrer ⟨0⟩) := by
  have joined := Run.empty.join belowOrigin false rfl
  have run := (joined.ask (.request 0 (.eval "import x from \"./lib\"\nx"))).tick
  obtain ⟨s, hs⟩ : ∃ s, s =
      ((opened belowOrigin .empty).eval "import x from \"./lib\"\nx" none).session := ⟨_, rfl⟩
  have hplain : s.Plain Address.resolve := by
    rw [hs]
    exact (lasting_plain Address.resolve).advance (Session.atRest_fresh ..) ⟨rfl, rfl⟩
      (.eval _ _ none)
  have hgiven : (s.cache.get? ⟨0⟩).map (·.origin) = some .eval := by
    rw [hs]
    decide +kernel
  obtain ⟨u, hu, given⟩ := Option.map_eq_some_iff.mp hgiven
  have hbase : s.baseAddress = "https://example.com/app/main" := by
    rw [hs]
    decide +kernel
  refine ⟨s, hbase, ?_⟩
  rw [Cache.addressOf_eq hu]
  refine (Run.eval_imports run (show Host.session? _ 0 = some s by rw [hs]; rfl) hplain.resolver hu
    given "./lib").1 (.inr ?_) |>.1
  rw [hbase]
  decide +kernel

/-- A base address that is a bare origin, with a module below it. -/
def bareOrigin : Setup Program UnitLoader.Value :=
  .plain Lang.toolchain
    { Config.default with baseAddress := "https://example.com", sync := true }
    (.ofList [("https://example.com/lib", .ok "export x = 0")] false)

/-- At a bare origin, the module of an import is found and loaded, and analysis looks for
it at another host. -/
theorem Run.eval_imports_bareOrigin : ∃ (h : Host Program UnitLoader.Value)
    (s : Session Program UnitLoader.Value (Listener UnitLoader.Value))
    (u v : SourceUnit Program UnitLoader.Value (Listener UnitLoader.Value)),
    Run [] h ∧ h.session? 0 = some s ∧ s.project.resolver = Address.resolve ∧
      s.cache.get? ⟨0⟩ = some u ∧ u.origin = .eval ∧
      u.error = some (.analysis u.address
        "module 'https://example.com#eval-0/lib' is not loaded") ∧
      s.cache.get? ⟨1⟩ = some v ∧ v.address = "https://example.com/lib" ∧
      v.tree.map (·.exported) = some [(1, "x")] := by
  have joined := Run.empty.join bareOrigin false rfl
  have run := (joined.ask (.request 0 (.eval "import x from \"./lib\"\nx"))).tick
  obtain ⟨s, hs⟩ : ∃ s, s =
      ((opened bareOrigin .empty).eval "import x from \"./lib\"\nx" none).session := ⟨_, rfl⟩
  have hplain : s.Plain Address.resolve := by
    rw [hs]
    exact (lasting_plain Address.resolve).advance (Session.atRest_fresh ..) ⟨rfl, rfl⟩
      (.eval _ _ none)
  have htext : (s.cache.get? ⟨0⟩).map (fun u => (u.origin, u.error)) = some (.eval,
      some (.analysis "https://example.com#eval-0"
        "module 'https://example.com#eval-0/lib' is not loaded")) := by
    rw [hs]
    decide +kernel
  have haddress : (s.cache.get? ⟨0⟩).map (·.address) = some "https://example.com#eval-0" := by
    rw [hs]
    decide +kernel
  have hmodule : (s.cache.get? ⟨1⟩).map (fun v => (v.address, v.tree.map (·.exported))) =
      some ("https://example.com/lib", some [(1, "x")]) := by
    rw [hs]
    decide +kernel
  obtain ⟨u, hu, htext⟩ := Option.map_eq_some_iff.mp htext
  obtain ⟨v, hv, hmodule⟩ := Option.map_eq_some_iff.mp hmodule
  rw [hu, Option.map_some, Option.some.injEq] at haddress
  simp only [Prod.mk.injEq] at htext hmodule
  exact ⟨_, s, u, v, run, by rw [hs]; rfl, hplain.resolver, hu, htext.1, haddress ▸ htext.2,
    hv, hmodule.1, hmodule.2⟩

end Host

end UnitLoader
