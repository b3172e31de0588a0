import UnitLoader.Proofs.Exports
import UnitLoader.Proofs.Publishing
import UnitLoader.Proofs.Replay
import UnitLoader.Text.Unicode

/-! What a module exports gets to those that import it. All units share one namespace, and
still an import reads the value that the one export of the module came to, whatever the
other units bind, import or export under the same name in between. -/

namespace UnitLoader

theorem unitsOf_filter {Value : Type} (deeds : List (Deed Value)) :
    unitsOf (deeds.filter Deed.isExecuted) = unitsOf deeds := by
  induction deeds with
  | nil => rfl
  | cons d rest ih =>
    cases d with
    | defined name value => exact ih
    | executed id code result => exact congrArg (id :: ·) ih

theorem map_fst_filterMap {α β : Type} {l : List α} {f : α → Option β}
    (h : ∀ a ∈ l, (f a).isSome) : (l.filterMap fun a => (f a).map (a, ·)).map (·.1) = l := by
  induction l with
  | nil => rfl
  | cons a rest ih =>
    obtain ⟨ha, hrest⟩ := List.forall_mem_cons.mp h
    obtain ⟨b, hb⟩ := Option.isSome_iff_exists.mp ha
    simp [hb, ih hrest]

namespace Session

variable {Listener : Type} {resolver : Resolver} {s : Session Program Value Listener}
  {deeds before after : List (Deed Value)} {id j : UnitId} {code : String}
  {u v : SourceUnit Program Value Listener} {tree : Program} {p : Project}

/-- A module was executed, and the one export that it has of a name came to a value. -/
def Provides [Text.Xid] (s : Session Program Value Listener) (deeds : List (Deed Value))
    (id : UnitId) (name : String) (value : Value) : Prop :=
  ∃ u tree line e before code result after here,
    s.cache.get? id = some u ∧ u.tree = some tree ∧ (tree.exported.map (·.2)).Nodup ∧
      line ∈ tree.lines ∧ line.stmt = .exports name e ∧
      deeds = before ++ .executed id code (.ok result) :: after ∧
      (∀ there, Execution.Reaches code (Lang.toolchain.replay .empty before)
        [.binds name e, .publishes u.address name] there ↔ there = here) ∧
      e.eval here = .ok value

/-- A session that has its namespace to itself, and whose host defines no name with a colon. -/
structure Sealed [Text.Xid] (resolver : Resolver) (deeds : List (Deed Value))
    (s : Session Program Value Listener) : Prop where
  regular : s.Regular resolver
  retold : s.Retold deeds
  clean : ∀ name value, .defined name value ∈ deeds → ':' ∉ name.toList

theorem Provenance.legible [Text.Xid] (h : s.Provenance resolver) (hu : s.cache.get? id = some u)
    (ht : u.tree = some tree) :
    ∀ line ∈ tree.lines, line.stmt.Legible (Goal.ofKind u.kind) := by
  obtain ⟨text, base, ids, rfl, -⟩ := (h.stems id u hu).read tree ht
  exact Source.legible_of_read

theorem ofKind_ne_linked (kind : Kind) : Goal.ofKind kind ≠ .linked := by
  cases kind <;> exact Goal.noConfusion

namespace Sealed

theorem performs [Text.Xid] (h : s.Sealed resolver deeds) {result : Except String Value}
    (he : deeds = before ++ .executed id code result :: after) :
    ∃ u tree p, s.Performs resolver (before.filter Deed.isExecuted) id code u tree p := by
  refine h.regular.deed _ id code result (after.filter Deed.isExecuted) ?_
  rw [← h.retold.executed, he, List.filter_append]
  rfl

theorem mem_unitsOf [Text.Xid] (h : s.Sealed resolver deeds) {result : Except String Value}
    (he : deeds = before ++ .executed id code result :: after) : id ∈ unitsOf s.deeds := by
  rw [← h.retold.executed, unitsOf_filter, UnitLoader.mem_unitsOf]
  exact ⟨code, result, by simp [he]⟩

theorem once [Text.Xid] (h : s.Sealed resolver deeds) {result : Except String Value}
    (he : deeds = before ++ .executed id code result :: after) :
    ∀ d ∈ before ++ after, d.unit? ≠ some id := by
  have hnodup := h.regular.once
  rw [← h.retold.executed, unitsOf_filter, he, unitsOf, List.filterMap_append,
    List.filterMap_cons] at hnodup
  intro d hd hunit
  refine (List.nodup_cons.mp (List.perm_middle.nodup_iff.mp hnodup)).1 ?_
  rw [← List.filterMap_append]
  exact List.mem_filterMap.mpr ⟨d, hd, hunit⟩

/-- The code of a unit leaves alone what another module publishes. -/
theorem get?_of_foreign [Text.KeyedXid] (h : s.Sealed resolver deeds)
    (hp : s.Performs resolver before id code u tree p) {address name : String}
    (hname : ':' ∉ name.toList) (foreign : u.kind = .module → u.address ≠ address) :
    (∀ ns, (Lang.execute code ns).ns.get? (publishedKey address name) =
        ns.get? (publishedKey address name)) ∧
      ∀ ns stmts here, Execution.Reaches code ns stmts here →
        here.get? (publishedKey address name) = ns.get? (publishedKey address name) := by
  have hlegible := h.regular.toProvenance.legible hp.unit hp.read
  rw [hp.code]
  refine Lang.get?_execute_of_foreign hlegible (ofKind_ne_linked u.kind)
    (by simp [toList_publishedKey]) fun other hother hsame => ?_
  have hcolon := Lowering.colon_notMem_of_exported hlegible hother
  obtain ⟨haddress, -⟩ := publishedKey_inj hname hcolon hsame
  obtain ⟨line, hline, e, hs⟩ := Lowering.mem_exported.mp hother
  have hfits := (hlegible line hline).fits
  rw [hs] at hfits
  have hkind : u.kind = .module := by
    cases hk : u.kind with
    | module => rfl
    | script =>
      rw [hk] at hfits
      cases hfits.1
  exact foreign hkind haddress.symm

/-- From the execution of a module on, each of its exports has the value that it came to. -/
theorem published [Text.KeyedXid] (h : s.Sealed resolver deeds) {result : Value}
    (he : deeds = before ++ .executed id code (.ok result) :: after)
    (hu : s.cache.get? id = some u) (kind : u.kind = .module) (ht : u.tree = some tree)
    {name : String} (hname : name ∈ tree.exported.map (·.2)) : ∃ value, ∀ middle rest,
      after = middle ++ rest →
        (Lang.toolchain.replay .empty (before ++ .executed id code (.ok result) :: middle)).get?
            (publishedKey u.address name) = some value ∧
          s.Provides (before ++ .executed id code (.ok result) :: middle) id name value := by
  obtain ⟨v, tree', p, hp⟩ := h.performs he
  obtain rfl := Option.some.inj (hu.symm.trans hp.unit)
  obtain rfl := Option.some.inj (ht.symm.trans hp.read)
  have htools := h.regular.plain.tools
  have hlegible := h.regular.toProvenance.legible hu ht
  have honce := (h.regular.exported id (h.mem_unitsOf he) u tree hu kind ht).2
  have hcolon := Lowering.colon_notMem_of_exported hlegible hname
  obtain ⟨line, hline, e, hs⟩ := Lowering.mem_exported.mp hname
  have hresult := h.retold.faithful before id code (.ok result) after he
  rw [htools, hp.code] at hresult
  obtain ⟨here, value, hreaches, hvalue, hget⟩ := Lang.get?_execute_of_exported hlegible
    (ofKind_ne_linked u.kind) honce hline hs hresult.symm
  rw [← hp.code] at hreaches hget
  refine ⟨value, fun middle rest hafter => ⟨?_, u, tree, line, e, before, code, result, middle,
    here, hu, ht, honce, hline, hs, rfl, hreaches, hvalue⟩⟩
  have hmiddle : Lang.toolchain.replay .empty
      (before ++ .executed id code (.ok result) :: middle) =
      Lang.toolchain.replay (Lang.execute code (Lang.toolchain.replay .empty before)).ns middle :=
    Toolchain.replay_append _
  rw [hmiddle, Toolchain.get?_replay_of_leaves, hget]
  -- nothing that is done later writes under the address of the module
  intro d hd
  cases d with
  | defined other value =>
    have hmem : .defined other value ∈ deeds := by simp [he, hafter, hd]
    exact (publishedKey_ne (h.clean other value hmem)).symm
  | executed j code' result' =>
    obtain ⟨front, back, rfl⟩ := List.append_of_mem hd
    have hsplit : deeds = (before ++ .executed id code (.ok result) :: front) ++
        .executed j code' result' :: (back ++ rest) := by simp [he, hafter]
    obtain ⟨w, tree', p', hp'⟩ := h.performs hsplit
    refine (h.get?_of_foreign hp' hcolon fun hkind hsame => ?_).1
    obtain rfl := h.regular.toProvenance.module_unique hp'.unit hu hkind kind hsame
    exact h.once hsplit (.executed j code (.ok result)) (by simp) rfl

theorem get?_of_imported [Text.KeyedXid] (h : s.Sealed resolver deeds)
    (hp : s.Performs resolver before id code u tree p) (hj : s.cache.get? j = some v)
    (kind : v.kind = .module) (other : j ≠ id) {name : String} (hname : ':' ∉ name.toList)
    {ns here : Namespace Value} {stmts : List Stmt} (hreaches : Execution.Reaches code ns stmts here) :
    here.get? (publishedKey v.address name) = ns.get? (publishedKey v.address name) := by
  refine (h.get?_of_foreign hp hname fun hkind hsame => other ?_).2 ns stmts here hreaches
  exact h.regular.toProvenance.module_unique hj hp.unit kind hkind hsame.symm

end Sealed

/-- Where the code of a unit binds a name to what a module exports, it reads a value, and
the module has come to it before. -/
def Delivers [Text.Xid] (s : Session Program Value Listener) (deeds : List (Deed Value))
    (i j : UnitId) (address name : String) : Prop :=
  ∀ before code result after, deeds = before ++ .executed i code result :: after →
    .binds name (.published address name) ∈ (Source.read .linked code).lines.map Line.stmt ∧
      ∀ here, Execution.Reaches code (Lang.toolchain.replay .empty before)
        [.binds name (.published address name)] here →
          ∃ value, (Expr.published address name).eval here = .ok value ∧
            s.Provides before j name value

/-- Exports get to importers as they are. -/
structure Integral [Text.Xid] (s : Session Program Value Listener) (deeds : List (Deed Value)) :
    Prop where
  single : ∀ id name value other, s.Provides deeds id name value → s.Provides deeds id name other →
    value = other
  imports : ∀ i u tree, s.cache.get? i = some u → u.origin = .load → u.tree = some tree →
    ∀ line ∈ tree.lines, ∀ names specifier, line.stmt = .imports names specifier →
      ∃ j m, s.cache.lookup (s.project.resolve specifier u.address) .module = some j ∧
        s.cache.get? j = some m ∧ (¬ Relation.TransGen s.cache.Imports j i →
          ∀ name ∈ names, s.Delivers deeds i j (s.project.resolve specifier u.address) name)
  exports : ∀ j m, s.cache.get? j = some m → m.kind = .module → m.state = .complete →
    ∃ tree, m.tree = some tree ∧
      (s.toBuild.moduleExports s.tools m.address s.ns).map (·.1) = tree.exported.map (·.2) ∧
        ∀ name value, (name, value) ∈ s.toBuild.moduleExports s.tools m.address s.ns →
          s.Provides deeds j name value

namespace Sealed

theorem single [Text.KeyedXid] (h : s.Sealed resolver deeds) {name : String} {value other : Value}
    (hv : s.Provides deeds id name value) (ho : s.Provides deeds id name other) :
    value = other := by
  obtain ⟨u, tree, line, e, before, code, result, after, here, hu, ht, honce, hline, hs, hd, hhere,
    hvalue⟩ := hv
  obtain ⟨u', tree', line', e', before', code', result', after', here', hu', ht', -, hline', hs',
    hd', hhere', hother⟩ := ho
  obtain rfl := Option.some.inj (hu.symm.trans hu')
  obtain rfl := Option.some.inj (ht.symm.trans ht')
  obtain rfl := Lowering.export_unique honce hline hline' hs hs'
  obtain ⟨rfl, hdeed, -⟩ := append_cons_inj_of_forall (h.once hd) (hd.symm.trans hd') rfl
  obtain ⟨-, rfl, -⟩ := Deed.executed.inj hdeed
  obtain rfl := (hhere' here).mp ((hhere here).mpr rfl)
  exact Except.ok.inj (hvalue.symm.trans hother)

theorem imported [Text.KeyedXid] (h : s.Sealed resolver deeds) (hi : s.cache.get? id = some u)
    (ht : u.tree = some tree) {line : Line} (hline : line ∈ tree.lines) {names : List String}
    {specifier : String} (hs : line.stmt = .imports names specifier)
    (hj : s.cache.get? j = some v) (address : v.address = resolver specifier u.address)
    (kind : v.kind = .module) (dep : j ∈ u.dependencyIds)
    (acyclic : ¬ Relation.TransGen s.cache.Imports j id) {name : String} (hname : name ∈ names) :
    s.Delivers deeds id j (resolver specifier u.address) name := by
  intro before code result after he
  obtain ⟨u', tree', p, hp⟩ := h.performs he
  obtain rfl := Option.some.inj (hi.symm.trans hp.unit)
  obtain rfl := Option.some.inj (ht.symm.trans hp.read)
  have hlegible := h.regular.toProvenance.legible hi ht
  refine ⟨?_, fun here hreaches => ?_⟩
  · obtain ⟨lines, hread, hstmts⟩ := Source.read_lowered ⟨u.address, u.kind, tree⟩ p hlegible
    have hbinds := Lowering.binds_mem_transform hp.bound hline hs hname
    rw [Project.resolve, hp.resolver] at hbinds
    rw [hp.code, hread, hstmts]
    exact hbinds
  have hne : j ≠ id := by
    rintro rfl
    refine acyclic (.single ?_)
    rwa [Cache.Imports, Cache.dependencyIds_eq hi]
  -- the module was executed before, as it does not lead back to the unit
  obtain ⟨c, w, hc⟩ := (hp.order j dep).resolve_right fun hleads =>
    (Relation.reflTransGen_iff_eq_or_transGen.mp hleads).elim (fun hsame => hne hsame.symm) acyclic
  obtain ⟨front, middle, rfl⟩ := List.append_of_mem (List.mem_of_mem_filter hc)
  have hsplit : deeds = front ++ .executed j c (.ok w) ::
      (middle ++ .executed id code result :: after) := by simp [he]
  obtain ⟨v', other, q, hq⟩ := h.performs hsplit
  obtain rfl := Option.some.inj (hj.symm.trans hq.unit)
  have hexported : name ∈ other.exported.map (·.2) := by
    rw [← (h.regular.exported j (h.mem_unitsOf hsplit) v other hj kind hq.read).1, address]
    exact h.regular.imported id (h.mem_unitsOf he) u tree hi ht line hline names specifier hs
      name hname
  obtain ⟨value, hpublished⟩ := h.published hsplit hj kind hq.read hexported
  obtain ⟨hget, hprovides⟩ := hpublished middle _ rfl
  have hcolon := Lowering.colon_notMem_of_exported
    (h.regular.toProvenance.legible hj hq.read) hexported
  rw [← h.get?_of_imported hp hj kind hne hcolon hreaches, address] at hget
  exact ⟨value, by rw [Expr.eval, hget], hprovides⟩

theorem exports [Text.KeyedXid] (h : s.Sealed resolver deeds) (proper : v.Proper) (hj : s.cache.get? j = some v)
    (kind : v.kind = .module) (complete : v.state = .complete) : ∃ tree, v.tree = some tree ∧
      (s.toBuild.moduleExports s.tools v.address s.ns).map (·.1) = tree.exported.map (·.2) ∧
        ∀ name value, (name, value) ∈ s.toBuild.moduleExports s.tools v.address s.ns →
          s.Provides deeds j name value := by
  obtain ⟨w, hw⟩ := Option.isSome_iff_exists.mp (proper.result complete)
  obtain ⟨code, hd⟩ := h.regular.executed j v w hj hw
  rw [← h.retold.executed] at hd
  obtain ⟨before, after, rfl⟩ := List.append_of_mem (List.mem_of_mem_filter hd)
  obtain ⟨v', tree, p, hp⟩ := h.performs rfl
  obtain rfl := Option.some.inj (hj.symm.trans hp.unit)
  have hexported := (h.regular.exported j (h.mem_unitsOf rfl) v tree hj kind hp.read).1
  have hvalue {name : String} (hname : name ∈ tree.exported.map (·.2)) : ∃ value,
      s.ns.get? (publishedKey v.address name) = some value ∧
        s.Provides (before ++ .executed j code (.ok w) :: after) j name value := by
    obtain ⟨value, hpublished⟩ := h.published rfl hj kind hp.read hname
    rw [h.retold.ns, h.regular.plain.tools]
    exact ⟨value, hpublished after [] (List.append_nil _).symm⟩
  have hexports : s.toBuild.moduleExports s.tools v.address s.ns =
      (tree.exported.map (·.2)).filterMap fun name =>
        (s.ns.get? (publishedKey v.address name)).map (name, ·) := by
    rw [Build.moduleExports, hexported, h.regular.plain.tools]
    rfl
  rw [hexports]
  refine ⟨tree, hp.read, map_fst_filterMap fun name hname => ?_, fun name value hmem => ?_⟩
  · obtain ⟨value, hget, -⟩ := hvalue hname
    rw [hget]
    rfl
  · obtain ⟨word, hword, hpair⟩ := List.mem_filterMap.mp hmem
    obtain ⟨x, hx, he⟩ := Option.map_eq_some_iff.mp hpair
    obtain ⟨rfl, rfl⟩ := Prod.mk.inj he
    obtain ⟨y, hy, hprovides⟩ := hvalue hword
    obtain rfl := Option.some.inj (hx.symm.trans hy)
    exact hprovides

theorem integral [Text.KeyedXid] (h : s.Sealed s.project.resolver deeds)
    (proper : ∀ id u, s.cache.get? id = some u → u.Proper) : s.Integral deeds where
  single := fun id name value other => h.single
  imports := by
    intro i u tree hi load ht line hline names specifier hs
    obtain ⟨j, m, hl, hj, address, kind, dep⟩ :=
      h.regular.toProvenance.exists_import hi load ht hline hs
    exact ⟨j, m, hl, hj, fun acyclic name hname =>
      h.imported hi ht hline hs hj address kind dep acyclic hname⟩
  exports := fun j m hj kind complete => h.exports (proper j m hj) hj kind complete

end Sealed

end Session

namespace Host

variable {loader : Nat} {deeds : List (Deed Value)} {h : Host Program Value} {seat : Seat Program Value}

/-- The units of a loader that has its namespace to itself cannot falsify each other's
exports, whatever they are called and whatever they do, as long as the host does not define
a name with a colon. -/
theorem Chronicle.integrity [Text.KeyedXid] (c : Chronicle loader deeds h) (hs : h.seats[loader]? = some seat)
    (plain : seat.session.tools = Lang.toolchain) (own : seat.sharing = false)
    (clean : ∀ name value, .defined name value ∈ deeds → ':' ∉ name.toList) :
    seat.session.Retold deeds ∧ seat.session.Integral deeds := by
  have hretold := c.retold hs own
  have hsealed : seat.session.Sealed seat.session.project.resolver deeds :=
    ⟨c.regular hs plain, hretold, clean⟩
  exact ⟨hretold, hsealed.integral fun id u hu =>
    ((c.atRest (session?_eq hs)).sound.fits id u hu).proper⟩

/-- Two modules that export the same name, and a script that imports one of them. -/
def clobbering : Setup Program Value :=
  .plain Lang.toolchain .default (.ofList [
    ("/a", .ok "export n = \"kept\""),
    ("/b", .ok "let n = 5\nexport n = \"other\""),
    ("/main", .ok "import n from \"/a\"\nn")] false)

theorem Chronicle.loadSync (c : Chronicle loader deeds h) (executed : ∀ d ∈ deeds, d.isExecuted = true)
    (address : String) (kind : Kind) : ∃ more,
      Chronicle loader more (h.first [.carryOut (.request loader (.loadSync address kind))]).tick ∧
        ∀ d ∈ more, d.isExecuted = true := by
  refine ⟨_, (c.ask (.request loader (.loadSync address kind))).tick, fun d hd => ?_⟩
  rcases List.mem_append.mp hd with hd | hd
  · exact executed d hd
  · exact isExecuted_of_mem_executes hd

theorem chronicle_clobbering : ∃ (deeds : List (Deed Value)) (h : Host Program Value)
    (seat : Seat Program Value), Chronicle 0 deeds h ∧ h.seats[0]? = some seat ∧
      seat.session.tools = Lang.toolchain ∧ seat.sharing = false ∧
      (∀ d ∈ deeds, d.isExecuted = true) ∧
      seat.session = ((((opened clobbering .empty).loadSync "/a" .module).session.loadSync
        "/b" .module).session.loadSync "/main" .script).session := by
  have joined : Chronicle 0 _ _ := Chronicle.empty.join clobbering false rfl
  obtain ⟨_, first, hfirst⟩ := joined.loadSync (by simp [starts, clobbering, Setup.plain]) "/a" .module
  obtain ⟨_, second, hsecond⟩ := first.loadSync hfirst "/b" .module
  obtain ⟨deeds, third, hthird⟩ := second.loadSync hsecond "/main" .script
  have htools : Lasting fun s : Session Program Value (Listener Value) =>
      s.tools = Lang.toolchain := lasting_tools _
  refine ⟨deeds, _, _, third, rfl, ?_, rfl, hthird, rfl⟩
  refine htools.advance (second.atRest (show session? _ 0 = some _ from rfl)) ?_
    (.loadSync _ "/main" .script)
  refine htools.advance (first.atRest (show session? _ 0 = some _ from rfl)) ?_
    (.loadSync _ "/b" .module)
  exact htools.advance (Session.atRest_fresh ..) rfl (.loadSync _ "/a" .module)

/-- What the script gets is what the module exported that it imports from. -/
theorem Chronicle.integrity_clobbering : ∃ (deeds : List (Deed Value)) (h : Host Program Value)
    (seat : Seat Program Value), Chronicle 0 deeds h ∧ h.seats[0]? = some seat ∧
      seat.session.tools = Lang.toolchain ∧ seat.sharing = false ∧
      (∀ name value, .defined name value ∈ deeds → ':' ∉ name.toList) ∧
      seat.session.ns.get? "n" = some (.str "kept") ∧
      seat.session.Delivers deeds ⟨2⟩ ⟨0⟩ "/a" "n" ∧
      seat.session.Provides deeds ⟨0⟩ "n" (.str "kept") := by
  obtain ⟨deeds, h, seat, c, hs, plain, own, hall, hsession⟩ := chronicle_clobbering
  have clean (name : String) (value : Value) (hd : .defined name value ∈ deeds) :
      ':' ∉ name.toList := by
    cases hall _ hd
  obtain ⟨-, hintegral⟩ := c.integrity hs plain own clean
  have hfacts : (seat.session.cache.get? ⟨0⟩).map (fun u => (u.address, u.kind, u.state)) =
        some ("/a", .module, .complete) ∧
      (seat.session.cache.get? ⟨2⟩).map (fun u => (u.address, u.origin, u.tree)) =
        some ("/main", .load, some ⟨.script, [⟨1, .imports ["n"] "/a"⟩, ⟨2, .eval (.name "n")⟩]⟩) ∧
      seat.session.cache.lookup "/a" .module = some ⟨0⟩ ∧
      seat.session.cache.dependencyIds ⟨0⟩ = [] ∧
      seat.session.project.resolve "/a" "/main" = "/a" ∧
      seat.session.ns.get? "n" = some (.str "kept") ∧
      seat.session.toBuild.moduleExports Lang.toolchain "/a" seat.session.ns =
        [("n", .str "kept")] := by
    rw [hsession]
    decide +kernel
  obtain ⟨hmodule, hscript, hlookup, hnone, hresolve, hget, hexported⟩ := hfacts
  refine ⟨deeds, h, seat, c, hs, plain, own, clean, hget, ?_, ?_⟩
  · obtain ⟨u, hu, he⟩ := Option.map_eq_some_iff.mp hscript
    simp only [Prod.mk.injEq] at he
    obtain ⟨address, load, ht⟩ := he
    obtain ⟨j, m, hl, -, hdelivers⟩ :=
      hintegral.imports ⟨2⟩ u _ hu load ht _ List.mem_cons_self ["n"] "/a" rfl
    rw [address, hresolve] at hl hdelivers
    obtain rfl := Option.some.inj (hlookup.symm.trans hl)
    refine hdelivers (fun hleads => ?_) "n" (List.mem_singleton_self _)
    obtain ⟨_, himports, -⟩ := Relation.TransGen.head'_iff.mp hleads
    rw [Cache.Imports, hnone] at himports
    cases himports
  · obtain ⟨m, hm, he⟩ := Option.map_eq_some_iff.mp hmodule
    simp only [Prod.mk.injEq] at he
    obtain ⟨address, kind, complete⟩ := he
    obtain ⟨tree, ht, hnames, hexports⟩ := hintegral.exports ⟨0⟩ m hm kind complete
    rw [address, plain, hexported] at hexports
    exact hexports "n" (.str "kept") (List.mem_singleton_self _)

end Host

end UnitLoader
