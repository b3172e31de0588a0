import UnitLoader.Proofs.Provenance
import UnitLoader.Proofs.Results

/-! What units are executed, and when. A unit is executed once at most, with its program
linked and written out, and not before its imports were, except for those that lead back
to it. -/

namespace UnitLoader

variable {Tree Value : Type}

/-! ### Lists cut in two -/

theorem append_eq_append_cons {α : Type} {l l' before after : List α} {x : α}
    (h : l ++ l' = before ++ x :: after) :
    (∃ rest, l = before ++ x :: rest) ∨ ∃ front, before = l ++ front ∧ l' = front ++ x :: after := by
  rcases List.append_eq_append_iff.mp h with ⟨front, hb, hl⟩ | ⟨back, hl, hx⟩
  · exact .inr ⟨front, hb, hl⟩
  · cases back with
    | nil => exact .inr ⟨[], by simpa using hl.symm, by simpa using hx.symm⟩
    | cons y back =>
      obtain ⟨rfl, rfl⟩ := List.cons.inj hx
      exact .inl ⟨back, hl⟩

theorem filter_eq_append_cons {α : Type} {p : α → Bool} {l before after : List α} {x : α}
    (h : l.filter p = before ++ x :: after) :
    ∃ front back, l = front ++ x :: back ∧ before = front.filter p := by
  obtain ⟨l₁, l₂, rfl, rfl, h₂⟩ := List.filter_eq_append_iff.mp h
  obtain ⟨skipped, back, rfl, hskipped, -, -⟩ := List.filter_eq_cons_iff.mp h₂
  refine ⟨l₁ ++ skipped, back, by simp, ?_⟩
  have hnone : skipped.filter p = [] := List.filter_eq_nil_iff.mpr hskipped
  rw [List.filter_append, hnone, List.append_nil]

/-! ### One batch -/

def Deed.unit? : Deed Value → Option UnitId
  | .defined _ _ => none
  | .executed id _ _ => some id

/-- The units that were executed, in order. -/
def unitsOf (deeds : List (Deed Value)) : List UnitId :=
  deeds.filterMap Deed.unit?

theorem mem_unitsOf {deeds : List (Deed Value)} {id : UnitId} :
    id ∈ unitsOf deeds ↔ ∃ code result, .executed id code result ∈ deeds := by
  simp only [unitsOf, List.mem_filterMap]
  constructor
  · rintro ⟨d, hd, he⟩
    cases d with
    | defined name value => cases he
    | executed j code result =>
      obtain rfl := Option.some.inj he
      exact ⟨code, result, hd⟩
  · rintro ⟨code, result, hd⟩
    exact ⟨_, hd, rfl⟩

namespace Toolchain

variable {tools : Toolchain Tree Value}

theorem unitsOf_deeds_prefix (tools : Toolchain Tree Value) (ns : Namespace Value)
    (codes : List (UnitId × String)) :
    unitsOf (tools.runAll ns codes).deeds <+: codes.map (·.1) := by
  induction codes generalizing ns with
  | nil => exact List.nil_prefix
  | cons c rest ih =>
    obtain ⟨id, code⟩ := c
    simp only [runAll, List.map_cons]
    cases (tools.execute code ns).result with
    | ok value => exact (List.prefix_cons_inj id).mpr (ih _)
    | error message => exact (List.prefix_cons_inj id).mpr List.nil_prefix

theorem runAll_split {ns : Namespace Value} {codes : List (UnitId × String)}
    {before after : List (Deed Value)} {id : UnitId} {code : String} {result : Except String Value}
    (h : (tools.runAll ns codes).deeds = before ++ .executed id code result :: after) :
    ∃ front back, codes = front ++ (id, code) :: back ∧
      ∀ c ∈ front, ∃ value, .executed c.1 c.2 (.ok value) ∈ before := by
  induction codes generalizing ns before with
  | nil => simp [runAll, Ran.deeds] at h
  | cons c rest ih =>
    obtain ⟨j, code'⟩ := c
    simp only [runAll] at h
    cases hd : (tools.execute code' ns).result with
    | error message =>
      simp only [hd, Ran.deeds, List.filterMap_cons, Event.deed?, List.filterMap_nil] at h
      have hlast : before = [] ∧ (id = j ∧ code = code' ∧ result = .error message) ∧ after = [] := by
        simpa [List.singleton_eq_append_iff] using h
      obtain ⟨rfl, ⟨rfl, rfl, -⟩, -⟩ := hlast
      exact ⟨[], rest, rfl, by simp⟩
    | ok v =>
      simp only [hd, Ran.deeds, List.filterMap_cons, Event.deed?] at h
      cases before with
      | nil =>
        obtain ⟨he, -⟩ := List.cons.inj h
        obtain ⟨rfl, rfl, -⟩ := Deed.executed.inj he
        exact ⟨[], rest, rfl, by simp⟩
      | cons d before =>
        obtain ⟨rfl, hrest⟩ := List.cons.inj h
        obtain ⟨front, back, rfl, hfront⟩ := ih hrest
        refine ⟨(j, code') :: front, back, rfl, fun c hc => ?_⟩
        rcases List.mem_cons.mp hc with rfl | hc
        · exact ⟨v, List.mem_cons_self⟩
        · obtain ⟨value, hv⟩ := hfront c hc
          exact ⟨value, List.mem_cons_of_mem _ hv⟩

end Toolchain

theorem Lowering.isError_of_mem {target : Target Program} {p : Project} {d : Diagnostic}
    (h : d ∈ (transform target p).diagnostics) : d.isError = true := by
  obtain ⟨r, hr, hd⟩ := List.mem_flatMap.mp h
  obtain ⟨⟨number, stmt⟩, -, rfl⟩ := List.mem_map.mp hr
  cases stmt with
  | imports names specifier =>
    cases names with
    | nil => simp [lowerLine] at hd
    | cons first others =>
      simp only [lowerLine] at hd
      split at hd
      · cases hd
      · obtain rfl := List.mem_singleton.mp hd
        rfl
  | _ => simp [lowerLine] at hd

/-! ### Sessions -/

namespace Session

variable {Listener : Type} {resolver : Resolver} {s t : Session Program UnitLoader.Value Listener}
  {id : UnitId}

theorem Executes.calm {s t : Session Tree Value Listener} (h : s.Executes)
    (ends : s.batchRun.failed = none ∧ Completes s t ∨ s.batchRun.failed ≠ none ∧ Falls s t) :
    t.Calm := by
  rcases ends with ⟨hf, hc⟩ | ⟨-, hf⟩
  · exact hc.calm h.ready (h.passes hf)
  · exact hf.calm

theorem Executes.stem {s t : Session Tree Value Listener} (h : s.Executes)
    (still : Still s.executedSession t) {u : SourceUnit Tree Value Listener}
    (hu : s.cache.get? id = some u) : ∃ v, t.cache.get? id = some v ∧ v.stem = u.stem := by
  obtain ⟨w, hw, hcore⟩ := get?_executedSession h hu
  obtain ⟨v, hv, hvw⟩ := still.get? hw
  refine ⟨v, hv, ?_⟩
  rw [SourceUnit.stem_of_core hvw, SourceUnit.stem, hcore]
  cases s.batchRun.results.lookup id <;> rfl

/-- One session has all that the other had, and perhaps more. -/
structure Continues {Tree Value : Type} (s t : Session Tree Value Listener) : Prop where
  settled : s.KeepsSettled t
  imports : ∀ i j, s.cache.Imports i j → t.cache.Imports i j

theorem continues_of_stem {Tree Value : Type} {s t : Session Tree Value Listener}
    (settled : s.KeepsSettled t) (unit : ∀ id u, s.cache.get? id = some u →
      ∃ v, t.cache.get? id = some v ∧ v.stem = u.stem) : s.Continues t where
  settled := settled
  imports := by
    intro i j hij
    cases hu : s.cache.get? i with
    | none => simp [Cache.Imports, Cache.dependencyIds, hu] at hij
    | some u =>
      obtain ⟨v, hv, he⟩ := unit i u hu
      rw [Cache.Imports, Cache.dependencyIds_eq hu] at hij
      rwa [Cache.Imports, Cache.dependencyIds_eq hv, SourceUnit.dependencyIds_of_stem he]

/-- How a unit came to be executed: with its program, after these deeds. -/
structure Performs (resolver : Resolver) (s : Session Program UnitLoader.Value Listener)
    (before : List (Deed UnitLoader.Value)) (id : UnitId) (code : String)
    (u : SourceUnit Program UnitLoader.Value Listener) (tree : Program) (p : Project) : Prop where
  unit : s.cache.get? id = some u
  read : u.tree = some tree
  resolver : p.resolver = resolver
  bound : (Lowering.transform ⟨u.address, u.kind, tree⟩ p).diagnostics = []
  code : code = (Lowering.transform ⟨u.address, u.kind, tree⟩ p).value.write
  order : ∀ d ∈ u.dependencyIds,
    (∃ c v, .executed d c (.ok v) ∈ before) ∨ s.cache.LeadsTo d id

/-- The deeds of a session: no unit is executed twice, and each in its turn. -/
structure Performed (resolver : Resolver) (s : Session Program UnitLoader.Value Listener) :
    Prop where
  once : (unitsOf s.deeds).Nodup
  settled : ∀ id ∈ unitsOf s.deeds, ∃ u, s.cache.get? id = some u ∧ u.state.isSettled = true
  deed : ∀ before id code result after, s.deeds = before ++ .executed id code result :: after →
    ∃ u tree p, s.Performs resolver before id code u tree p

theorem Performed.mem_unitsOf {before after : List (Deed UnitLoader.Value)} {code : String}
    {result : Except String UnitLoader.Value}
    (h : s.deeds = before ++ .executed id code result :: after) : id ∈ unitsOf s.deeds := by
  rw [h]
  exact UnitLoader.mem_unitsOf.mpr ⟨code, result, by simp⟩

theorem Performed.deed_of_continues (h : s.Performed resolver) (continues : s.Continues t)
    {before after : List (Deed UnitLoader.Value)} {code : String}
    {result : Except String UnitLoader.Value}
    (he : s.deeds = before ++ .executed id code result :: after) :
    ∃ u tree p, t.Performs resolver before id code u tree p := by
  obtain ⟨u, tree, p, hp⟩ := h.deed before id code result after he
  obtain ⟨v, hv, hset⟩ := h.settled id (Performed.mem_unitsOf he)
  obtain rfl := Option.some.inj (hv.symm.trans hp.unit)
  exact ⟨v, tree, p, continues.settled id v hv hset, hp.read, hp.resolver, hp.bound, hp.code,
    fun d hd => (hp.order d hd).imp_right (Cache.LeadsTo.mono continues.imports)⟩

theorem Performed.continue (h : s.Performed resolver) (continues : s.Continues t)
    (deeds : t.deeds = s.deeds) : t.Performed resolver where
  once := by
    rw [deeds]
    exact h.once
  settled := by
    rw [deeds]
    intro id hid
    obtain ⟨u, hu, hs⟩ := h.settled id hid
    exact ⟨u, continues.settled id u hu hs, hs⟩
  deed := by
    rw [deeds]
    exact fun before id code result after => h.deed_of_continues continues

/-! ### Executing a batch -/

theorem Executes.performs_code [Text.Xid] (he : s.Executes) (hs : s.Provenance resolver) {code : String}
    (hcode : (id, code) ∈ s.codes) : ∃ u tree, s.cache.get? id = some u ∧ u.tree = some tree ∧
      u.state.isSettled = false ∧ s.analysis.value.resolver = resolver ∧
      (Lowering.transform ⟨u.address, u.kind, tree⟩ s.analysis.value).diagnostics = [] ∧
      code = (Lowering.transform ⟨u.address, u.kind, tree⟩ s.analysis.value).value.write := by
  have hp : s.cache.isIn .parsed id = true := he.ready.mem_codes.mp (List.mem_map_of_mem hcode)
  obtain ⟨j, -, hj⟩ := List.mem_filterMap.mp hcode
  obtain ⟨target, htarget, hpair⟩ := Option.map_eq_some_iff.mp hj
  obtain ⟨rfl, rfl⟩ := Prod.mk.inj hpair
  obtain ⟨u, tree, hu, ht, rfl⟩ := Build.source?_eq_some.mp htarget
  have hlowering : (j, ⟨u.address, u.kind, tree⟩) ∈ s.lowerings :=
    List.mem_filterMap.mpr ⟨j, Build.mem_transformOrder_ids.mpr hp, by rw [htarget]; rfl⟩
  have htools := hs.plain.tools
  have hlowered := he.lowered
  rw [htools] at hlowered ⊢
  refine ⟨u, tree, hu, ht, ?_, ?_, ?_, rfl⟩
  · rw [Cache.isIn_eq hu, decide_eq_true_eq] at hp
    simp [hp, State.isSettled]
  · exact (resolver_analysis htools).trans hs.plain.resolver
  · refine List.eq_nil_iff_forall_not_mem.mpr fun d hd => ?_
    have hnone := List.filter_eq_nil_iff.mp hlowered d (List.mem_flatMap.mpr ⟨_, hlowering, hd⟩)
    exact hnone (Lowering.isError_of_mem hd)

/-- When a unit of a batch is run, each of its imports was run before it in the same batch,
or is complete since an earlier one, or leads back to the unit. -/
theorem Executes.order {s : Session Tree Value Listener} (he : s.Executes) (hr : s.Recorded)
    (proper : ∀ id u, s.cache.get? id = some u → u.Proper) {before after : List (Deed Value)}
    {code : String} {result : Except String Value}
    (hd : s.batchRun.deeds = before ++ .executed id code result :: after)
    {u : SourceUnit Tree Value Listener} (hu : s.cache.get? id = some u)
    (linked : ∀ d ∈ u.dependencyIds, d.index < s.cache.size)
    (fine : ∀ d ∈ u.dependencyIds, s.cache.isIn .error d = false) :
    ∀ d ∈ u.dependencyIds,
      (s.cache.isIn .parsed d = true ∧ ∃ c v, .executed d c (.ok v) ∈ before) ∨
        (s.cache.isIn .complete d = true ∧ ∃ c v, .executed d c (.ok v) ∈ s.deeds) ∨
        s.cache.LeadsTo d id := by
  obtain ⟨front, back, hcodes, hfront⟩ := Toolchain.runAll_split hd
  have hids := he.ready.map_fst_codes
  rw [hcodes, List.map_append, List.map_cons] at hids
  obtain ⟨earlier, later, horder, hearlier⟩ := filter_eq_append_cons hids.symm
  intro d hdep
  have hlt := linked d hdep
  have hfine := fine d hdep
  obtain ⟨v, hv⟩ := Cache.get?_of_index_lt hlt
  rw [← Cache.dependencyIds_eq hu] at hdep
  rcases s.cache.inOrder_evaluationOrder earlier id later horder d hdep hlt with hmem | hback
  swap
  · exact .inr (.inr hback)
  rcases he.ready.state d v hv with hp | hsettled
  · have hparsed : s.cache.isIn .parsed d = true := Cache.isIn_iff.mpr ⟨v, hv, hp⟩
    have hfilter : d ∈ front.map (·.1) := by
      rw [hearlier]
      exact List.mem_filter.mpr ⟨hmem, hparsed⟩
    obtain ⟨⟨j, c⟩, hc, rfl⟩ := List.mem_map.mp hfilter
    obtain ⟨value, hvalue⟩ := hfront _ hc
    exact .inl ⟨hparsed, c, value, hvalue⟩
  · -- settled before the batch, and not by failing
    rw [Cache.isIn_eq hv, decide_eq_false_iff_not] at hfine
    have hcomplete : v.state = .complete := by
      cases hstate : v.state <;> simp_all [State.isSettled]
    obtain ⟨value, hvalue⟩ := Option.isSome_iff_exists.mp ((proper d v hv).result hcomplete)
    obtain ⟨c, hc⟩ := hr.executed d v value hv hvalue
    exact .inr (.inl ⟨Cache.isIn_iff.mpr ⟨v, hv, hcomplete⟩, c, value, hc⟩)

theorem Executes.isIn_parsed {s : Session Tree Value Listener} (he : s.Executes)
    (hid : id ∈ unitsOf s.batchRun.deeds) : s.cache.isIn .parsed id = true :=
  he.ready.mem_codes.mp ((s.tools.unitsOf_deeds_prefix s.ns s.codes).subset hid)

theorem Executes.nodup_units (he : s.Executes) (hp : s.Performed resolver) :
    (unitsOf s.deeds ++ unitsOf s.batchRun.deeds).Nodup := by
  have hbatch := (s.tools.unitsOf_deeds_prefix s.ns s.codes).sublist
  refine List.nodup_append.mpr ⟨hp.once, he.ready.nodup_codes.sublist hbatch, ?_⟩
  -- what was executed before has settled, and what the batch executes had not
  rintro id hid _ hnew rfl
  obtain ⟨u, hu, hset⟩ := hp.settled id hid
  have hstate := he.isIn_parsed hnew
  rw [Cache.isIn_eq hu, decide_eq_true_eq] at hstate
  simp [hstate, State.isSettled] at hset

theorem Executes.performs [Text.Xid] (he : s.Executes) (hs : s.Provenance resolver) (hr : s.Recorded)
    (proper : ∀ id u, s.cache.get? id = some u → u.Proper) (continues : s.Continues t)
    (still : Still s.executedSession t) {front after : List (Deed UnitLoader.Value)}
    {code : String} {result : Except String UnitLoader.Value}
    (hd : s.batchRun.deeds = front ++ .executed id code result :: after) :
    ∃ u tree p, t.Performs resolver (s.deeds ++ front) id code u tree p := by
  obtain ⟨earlier, later, hcodes, -⟩ := Toolchain.runAll_split hd
  have hcode : (id, code) ∈ s.codes := by
    rw [hcodes]
    simp
  obtain ⟨u, tree, hu, ht, hset, hresolver, hbound, hcode⟩ := he.performs_code hs hcode
  have horder := he.order hr proper hd hu (hs.linked hu ht) (hs.fine id u hu hset)
  obtain ⟨v, hv, hstem⟩ := he.stem still hu
  obtain ⟨haddress, hkind, -, htree, -⟩ := SourceUnit.fields_of_stem hstem
  refine ⟨v, tree, s.analysis.value, hv, htree.trans ht, hresolver, ?_, ?_, ?_⟩
  · rw [haddress, hkind]
    exact hbound
  · rw [haddress, hkind]
    exact hcode
  · rw [SourceUnit.dependencyIds_of_stem hstem]
    intro d hd
    rcases horder d hd with ⟨-, c, v, hrun⟩ | ⟨-, c, v, hrun⟩ | hback
    · exact .inl ⟨c, v, List.mem_append_right _ hrun⟩
    · exact .inl ⟨c, v, List.mem_append_left _ hrun⟩
    · exact .inr (hback.mono continues.imports)

theorem Executes.performed [Text.Xid] (he : s.Executes) (hs : s.Provenance resolver) (hr : s.Recorded)
    (proper : ∀ id u, s.cache.get? id = some u → u.Proper) (hp : s.Performed resolver)
    (continues : s.Continues t) (still : Still s.executedSession t) (calm : t.Calm) :
    t.Performed resolver := by
  have hdeeds : t.deeds = s.deeds ++ s.batchRun.deeds :=
    still.deeds.trans s.deeds_executedSession
  have hunits : unitsOf t.deeds = unitsOf s.deeds ++ unitsOf s.batchRun.deeds := by
    rw [hdeeds, unitsOf, List.filterMap_append]
    rfl
  refine ⟨?_, fun id hid => ?_, fun before id code result after hsplit => ?_⟩
  · rw [hunits]
    exact he.nodup_units hp
  · rw [hunits] at hid
    rcases List.mem_append.mp hid with hid | hid
    · obtain ⟨u, hu, hset⟩ := hp.settled id hid
      exact ⟨u, continues.settled id u hu hset, hset⟩
    · obtain ⟨u, hu, -⟩ := Cache.isIn_iff.mp (he.isIn_parsed hid)
      obtain ⟨v, hv, -⟩ := he.stem still hu
      exact ⟨v, hv, calm.settled id v hv⟩
  · rw [hdeeds] at hsplit
    rcases append_eq_append_cons hsplit with ⟨rest, hold⟩ | ⟨front, rfl, hnew⟩
    · exact hp.deed_of_continues continues hold
    · exact he.performs hs hr proper continues still hnew

end Session

/-- A session of the plain language, with all that was done in it. -/
structure Session.Performance [Text.Xid] {Listener : Type} (resolver : Resolver)
    (s : Session Program UnitLoader.Value Listener) : Prop extends
    s.Provenance resolver, s.Recorded, s.Performed resolver

open Session

theorem Move.continues {Listener : Type} {m n : Moment Tree Value Listener} (hmove : Move m n)
    (h : m.Sound) : m.session.Continues n.session := by
  have hdevelops := hmove.develops h
  refine ⟨hdevelops.keepsSettled, fun i j hij => ?_⟩
  cases hu : m.session.cache.get? i with
  | none => simp [Cache.Imports, Cache.dependencyIds, hu] at hij
  | some u =>
    obtain ⟨v, hv, -⟩ := hdevelops.unit i u hu
    rw [Cache.Imports, Cache.dependencyIds_eq hu] at hij
    rw [Cache.Imports, Cache.dependencyIds_eq hv]
    cases (hmove.turns h).was hv with
    | same unit stem =>
      obtain rfl := Option.some.inj (hu.symm.trans unit)
      rwa [SourceUnit.dependencyIds_of_stem stem]
    | unread unit loaded stem found fine =>
      -- a unit that has not been read has no imports yet
      obtain rfl := Option.some.inj (hu.symm.trans unit)
      have hnone := (h.fits i u hu).proper.dependencies (by simp [loaded, State.isPastParsing, State.rank])
      rw [SourceUnit.dependencyIds, hnone] at hij
      cases hij
    | absent none address stem found => cases hu.symm.trans none

theorem lasting_performance [Text.Xid] (resolver : Resolver) :
    Lasting fun s : Session Program UnitLoader.Value (UnitLoader.Listener UnitLoader.Value) =>
      s.Performance resolver where
  still := by
    intro s t hs hstill hundisturbed
    have hcontinues : s.Continues t := by
      refine continues_of_stem hundisturbed.settled fun id u hu => ?_
      obtain ⟨v, hv, he⟩ := Still.get? hstill hu
      exact ⟨v, hv, SourceUnit.stem_of_core he⟩
    exact
      { toProvenance := (lasting_provenance resolver).still s t hs.toProvenance hstill hundisturbed
        toRecorded := lasting_recorded.still s t hs.toRecorded hstill hundisturbed
        toPerformed := hs.toPerformed.continue hcontinues hstill.deeds }
  gains := by
    intro s t w hrest hs hgains hnew hundisturbed
    have hcontinues : s.Continues t := by
      refine continues_of_stem hundisturbed.settled fun id u hu => ?_
      obtain ⟨v, hv, he⟩ := hgains.get? hu
      exact ⟨v, hv, SourceUnit.stem_of_core he⟩
    exact
      { toProvenance :=
          (lasting_provenance resolver).gains s t w hrest hs.toProvenance hgains hnew hundisturbed
        toRecorded := lasting_recorded.gains s t w hrest hs.toRecorded hgains hnew hundisturbed
        toPerformed := hs.toPerformed.continue hcontinues hgains.deeds }
  moves := by
    intro m n hm hs hmove
    have hcontinues := hmove.continues hm
    have hperformed : n.session.Performed resolver := by
      cases hmove.turns hm with
      | still still => exact hs.toPerformed.continue hcontinues still.deeds
      | reads unit loaded sound reads still =>
        have hdeeds := deeds_append reads.history (by simp [Event.deed?])
        exact hs.toPerformed.continue hcontinues (still.deeds.trans hdeeds)
      | stops ready falls still =>
        have hdeeds : m.session.analysedSession.deeds = m.session.deeds :=
          deeds_append rfl (by simp [analyzedEvent, Event.deed?])
        exact hs.toPerformed.continue hcontinues (still.deeds.trans hdeeds)
      | executes executes still ends =>
        exact executes.performed hs.toProvenance hs.toRecorded
          (fun id u hu => (hm.fits id u hu).proper) hs.toPerformed hcontinues still
          (executes.calm ends)
    exact
      { toProvenance := (lasting_provenance resolver).moves m n hm hs.toProvenance hmove
        toRecorded := lasting_recorded.moves m n hm hs.toRecorded hmove
        toPerformed := hperformed }

end UnitLoader
