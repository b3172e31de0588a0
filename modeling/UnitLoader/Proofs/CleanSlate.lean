import UnitLoader.Proofs.Fates
import UnitLoader.Proofs.IdlingOnTop
import UnitLoader.Proofs.Steady
import UnitLoader.Text.Unicode

/-! A clean slate. Whatever has come of earlier batches, a session that waits for nothing
loads what has nothing to do with them as a new session would: its diagnostics, its project,
its cache and the answers that still arrive for units that failed play no part in it. -/

namespace UnitLoader

theorem Linking.module?_analyze {targets : List (Target Program)} {address : String}
    (apart : ∀ target ∈ targets, target.address ≠ address) (p : Project) :
    (Linking.analyze targets p).value.module? address = p.module? address := by
  have hnone : targets.filter (·.address = address) = [] :=
    List.filter_eq_nil_iff.mpr fun target ht => by simp [apart target ht]
  have hknown := known_foldl address targets ⟨p, []⟩
  rw [hnone, List.foldl_nil] at hknown
  exact congrArg Prod.fst hknown

namespace Cache

variable {Tree Value Listener : Type} {c d : Cache Tree Value Listener}

theorem Keeps.lacks (h : c.Keeps d) {address : String} (lacks : d.Lacks address) :
    c.Lacks address := by
  intro id u hu ha
  obtain ⟨v, hv, haddress, -⟩ := h id u hu
  exact lacks id v hv (haddress.trans ha)

end Cache

namespace Session

/-! ### Addresses without units -/

section Registers

variable {Listener : Type} {s t : Session Program UnitLoader.Value Listener}

/-- Nothing is known of the exports at an address where there is no unit. -/
def Unregistered (s : Session Program UnitLoader.Value Listener) : Prop :=
  ∀ address, s.cache.Lacks address → s.project.module? address = none

theorem Unregistered.of_modules (h : s.Unregistered) (keeps : s.cache.Keeps t.cache)
    (modules : t.project.modules = s.project.modules) : t.Unregistered := by
  intro address lacks
  rw [Project.module?, modules]
  exact h address (keeps.lacks lacks)

theorem module?_analysis [Text.Xid] (plain : s.tools = Lang.toolchain) {address : String}
    (lacks : s.cache.Lacks address) :
    s.analysis.value.module? address = s.project.module? address := by
  rw [analysis, plain]
  refine Linking.module?_analyze (fun target ht => ?_) s.project
  obtain ⟨⟨id, _⟩, hmem, rfl⟩ := List.mem_map.mp ht
  obtain ⟨u, tree, hu, -, -, rfl⟩ := Build.mem_targets.mp hmem
  exact lacks id u hu

theorem Turns.unregistered [Text.Xid] (turns : Turns s t) (keeps : s.cache.Keeps t.cache)
    (plain : s.tools = Lang.toolchain) (h : s.Unregistered) : t.Unregistered := by
  -- what a batch leaves behind is known from its analysis
  have hanalysed (modules : t.project.modules = s.analysis.value.modules) : t.Unregistered := by
    intro address lacks
    have hs := keeps.lacks lacks
    rw [Project.module?, modules]
    exact (module?_analysis plain hs).trans (h address hs)
  cases turns with
  | still still => exact h.of_modules keeps still.modules
  | stops ready falls still => exact hanalysed still.modules
  | executes executes still ends => exact hanalysed still.modules
  | @reads id u imports m unit loaded sound reads still fine =>
    intro address lacks
    have hs := keeps.lacks lacks
    have hmodules : ((s.project.addFile ⟨u.address, u.text.getD ""⟩).setParsed u.address).module?
        address = s.project.module? address := module?_setParsed _ _ _
    rw [Project.module?, still.modules, reads.project]
    refine (Project.module?_addModule _ u.address address).trans ?_
    rw [if_neg (hs id u unit), hmodules, h address hs]

theorem lasting_unregistered [Text.Xid] :
    Lasting fun s : Session Program UnitLoader.Value (UnitLoader.Listener UnitLoader.Value) =>
      s.tools = Lang.toolchain ∧ s.Unregistered where
  still := fun s t hs hstill _ => by
    have hkeeps : s.cache.Keeps t.cache := Still.keeps (t := { t with ns := s.ns }) hstill
    exact ⟨hstill.tools.trans hs.1, hs.2.of_modules hkeeps hstill.modules⟩
  gains := fun s t w _ hs hgains _ _ =>
    ⟨hgains.tools.trans hs.1, hs.2.of_modules hgains.keeps hgains.modules⟩
  moves := fun m n hm hs hmove =>
    have hturns := hmove.turns hm
    ⟨hturns.tools.trans hs.1, hturns.unregistered (hmove.develops hm).keeps hs.1 hs.2⟩

end Registers

/-! ### What earlier batches have left -/

section Leftovers

variable {Tree Value : Type} {first s : Session Tree Value (Listener Value)}

theorem Course.lasting {P : Session Tree Value (Listener Value) → Prop} (course : Course first s)
    (lasts : Lasting P) (rest : first.AtRest) (start : P first) : P s := by
  suffices hboth : s.AtRest ∧ P s from hboth.2
  induction course with
  | start => exact ⟨rest, start⟩
  | step _ alters ih => exact ⟨alters.atRest ih.1, lasts.alters ih.1 ih.2 alters⟩

theorem Accounted.cancelled (h : s.Accounted) (idle : s.pending = []) :
    ∀ p ∈ s.fetcher.parked, p.cancelled = true := by
  intro p hp
  have hheld : s.fetcher.held p.unit ≤ 0 := by
    have := (h.balanced p.unit).held
    rwa [idle] at this
  have hnone := List.countP_eq_zero.mp (Nat.le_zero.mp hheld) p hp
  simpa using hnone

/-- Every answer in the channel is for a unit that there is. -/
theorem Accounted.known (h : s.Accounted) : ∀ c ∈ s.channel, c.unit.index < s.cache.size := by
  intro c hc
  by_contra hlt
  have habsent : s.cache.get? c.unit = none := Cache.get?_eq_none_iff.mpr (Nat.not_lt.mp hlt)
  have hunasked : s.times .asked c.unit = 0 := (h.tallies c.unit).ahead .asked <| by
    rw [Moment.progress_of_absent habsent]
    decide
  have hasked := s.asked_le_times c.unit
  have hqueued : 0 < s.queued c.unit := List.countP_pos_iff.mpr ⟨c, hc, by simp⟩
  obtain ⟨hbalance, -, -, hanswers⟩ := h.balanced c.unit
  omega

theorem Accounted.spent (h : s.Accounted) (idle : s.pending = []) {A : String → Prop}
    (apart : ∀ address, A address → s.cache.Lacks address) : s.cache.Spent A where
  settled := fun _ _ hu => h.rest.settled_of_pending idle hu
  quiet := fun id u hu =>
    (h.rest.sound.fits id u hu).proper.listeners (h.rest.settled_of_pending idle hu)
  linked := h.rest.linked
  lacks := apart

end Leftovers

/-- A new session with the same configuration and sources, and the namespace as it is now. -/
def anew {Tree Value Listener : Type} (s : Session Tree Value Listener) :
    Session Tree Value Listener :=
  { fresh s.tools s.baseAddress s.sync s.project.resolver s.translate
      { s.fetcher with log := [], parked := [] } s.ns with held := s.held }

theorem atRest_anew {Tree Value Listener : Type} (s : Session Tree Value Listener) :
    s.anew.AtRest :=
  (atRest_fresh s.tools s.baseAddress s.sync s.project.resolver s.translate
    { s.fetcher with log := [], parked := [] } s.ns).congr rfl rfl rfl

section Anew

variable {s : Session Program UnitLoader.Value (UnitLoader.Listener UnitLoader.Value)}
  {entry : String} {kind : Kind}

theorem Accounted.alongside_anew (h : s.Accounted) (idle : s.pending = [])
    (unregistered : s.Unregistered)
    (apart : ∀ address k, s.ImportClosure entry kind address k → s.cache.Lacks address) :
    Alongside s s entry kind [] s.anew s where
  rest := s.atRest_anew
  confined := ⟨rfl, rfl, rfl, rfl, fun _ _ hu => by cases hu⟩
  faithful := ⟨rfl, fun _ hc => (by cases hc), fun _ hp => (by cases hp)⟩
  onTop :=
    { build :=
        { cache := (List.append_nil _).symm
          reporter := (List.append_nil _).symm
          project := ⟨rfl, fun address ⟨k, hk⟩ => unregistered address (apart address k hk)⟩ }
      fetcher := ⟨rfl, rfl, rfl, s.fetcher.parked, h.cancelled idle, (List.append_nil _).symm⟩
      channel := ⟨s.channel, h.known, (List.append_nil _).symm⟩
      pending := idle
      tools := rfl
      baseAddress := rfl
      sync := rfl
      translate := rfl
      ns := rfl
      held := rfl }

end Anew

/-! ### Loading an entry -/

section Errands

variable {Tree Value Listener : Type}

/-- What is done to have an entry loaded. -/
inductive Errand
  | load
  | loadSync
  | idle
  | poll
  | release (address : String)
  | releaseAll

/-- A session before and after an errand for an entry. -/
inductive Runs (address : String) (kind : Kind) :
    Errand → Session Tree Value Listener → Session Tree Value Listener → Prop
  | load (s : Session Tree Value Listener) : Runs address kind .load s (s.load address kind).session
  | loadSync (s : Session Tree Value Listener) :
      Runs address kind .loadSync s (s.loadSync address kind).session
  | idle (s : Session Tree Value Listener) : Runs address kind .idle s s.runUntilIdle
  | poll {s t : Session Tree Value Listener} (polls : PollsTo s t) : Runs address kind .poll s t
  | release (s : Session Tree Value Listener) (released : String) :
      Runs address kind (.release released) s (s.release released).2
  | releaseAll (s : Session Tree Value Listener) : Runs address kind .releaseAll s s.releaseAll.2

/-- A session before and after some errands. -/
inductive RunsAll (address : String) (kind : Kind) :
    List Errand → Session Tree Value Listener → Session Tree Value Listener → Prop
  | nil (s : Session Tree Value Listener) : RunsAll address kind [] s s
  | cons {errand : Errand} {errands : List Errand} {s t u : Session Tree Value Listener}
      (first : Runs address kind errand s t) (others : RunsAll address kind errands t u) :
      RunsAll address kind (errand :: errands) s u

/-- What a session tells of an address: how far its unit is, what it came to, and what it
imports. -/
structure Upshot (Value : Type) where
  state : State
  result : Option Value
  error : Option LoadError
  dependencies : Option (List String)
deriving DecidableEq

def upshot? (s : Session Tree Value Listener) (address : String) (kind : Kind) :
    Option (Upshot Value) :=
  (s.cache.lookup address kind).bind fun id => (s.cache.get? id).map fun u =>
    ⟨u.state, u.result, u.error, u.dependencies.map (·.map s.cache.addressOf)⟩

variable {r o s t s' t' : Session Tree Value Listener} {entry address : String} {kind : Kind}
  {errand : Errand} {errands : List Errand}

theorem Runs.unique (h : Runs address kind errand s t) (h' : Runs address kind errand s t') :
    t' = t := by
  cases h with
  | poll polls =>
    cases h' with
    | poll polls' => exact polls.unique polls'
  | _ =>
    cases h'
    rfl

theorem RunsAll.unique (h : RunsAll address kind errands s t)
    (h' : RunsAll address kind errands s t') : t' = t := by
  induction h with
  | nil =>
    cases h'
    rfl
  | cons first _ ih =>
    cases h' with
    | cons first' others' =>
      obtain rfl := first.unique first'
      exact ih others'

theorem Alongside.runs (spent : o.cache.Spent (r.Imported entry kind)) (insular : r.tools.Insular)
    (entered : r.resolveAddress address = entry) (h : Alongside r o entry kind [] s t)
    (runs : Runs address kind errand s s') :
    ∃ t', Runs address kind errand t t' ∧ Alongside r o entry kind [] s' t' := by
  have hclosure : r.ImportClosure entry kind (s.resolveAddress address) kind := by
    have hresolve : s.resolveAddress address = entry := by
      rw [← entered, resolveAddress, resolveAddress, Project.resolve, Project.resolve,
        h.confined.resolver, h.confined.baseAddress]
    rw [hresolve]
    exact .entry
  cases runs with
  | load => exact ⟨_, .load t, h.load spent insular hclosure⟩
  | loadSync => exact ⟨_, .loadSync t, h.loadSync spent insular hclosure⟩
  | idle => exact ⟨_, .idle t, h.runUntilIdle spent insular⟩
  | poll polls =>
    obtain ⟨t', hpolls, hlast⟩ := h.polls spent insular polls
    exact ⟨t', .poll hpolls, hlast⟩
  | release _ released =>
    refine ⟨_, .release t released, ?_⟩
    rw [release_eq, release_eq]
    exact h.answering fun _ => rfl
  | releaseAll =>
    refine ⟨_, .releaseAll t, ?_⟩
    rw [releaseAll_eq, releaseAll_eq]
    exact h.answering fun _ => rfl

theorem Alongside.runsAll (spent : o.cache.Spent (r.Imported entry kind))
    (insular : r.tools.Insular) (entered : r.resolveAddress address = entry)
    (h : Alongside r o entry kind [] s t) (runs : RunsAll address kind errands s s') :
    ∃ t', RunsAll address kind errands t t' ∧ Alongside r o entry kind [] s' t' := by
  induction runs generalizing t with
  | nil => exact ⟨t, .nil t, h⟩
  | cons first _ ih =>
    obtain ⟨t₁, hfirst, hnext⟩ := h.runs spent insular entered first
    obtain ⟨t', hothers, hlast⟩ := ih hnext
    exact ⟨t', .cons hfirst hothers, hlast⟩

theorem OnTop.upshot? {A : String → Prop} (spent : o.cache.Spent A) (h : OnTop A o s t)
    {a : String} (ha : A a) (k : Kind) : t.upshot? a k = s.upshot? a k := by
  have hlookup := h.build.cache.lookup (spent.lacks a ha) k
  rw [Session.upshot?, Session.upshot?, hlookup]
  cases s.cache.lookup a k with
  | none => rfl
  | some id =>
    simp only [Option.map_some, Option.bind_some, h.get?_after]
    cases s.cache.get? id with
    | none => rfl
    | some u =>
      have hdependencies : (u.after o.cache.size).dependencies.map (·.map t.cache.addressOf) =
          u.dependencies.map (·.map s.cache.addressOf) := by
        simp [SourceUnit.after, Function.comp_def, h.build.cache.addressOf_after]
      simp only [Option.map_some, hdependencies]
      rfl

end Errands

section CleanSlate

variable {baseAddress : String} {sync : Bool} {resolver : Resolver} {translate : String → String}
  {fetcher : Fetcher} {ns : Namespace UnitLoader.Value} {address : String} {kind : Kind}
  {errands : List Errand}
  {s t : Session Program UnitLoader.Value (UnitLoader.Listener UnitLoader.Value)}

/-- When a session waits for nothing, an entry whose import closure has nothing to do with the
units that there are comes to the same as in a new session, step by step: so do all units of the
closure, and so does the namespace. The units that there were stay as they are. -/
theorem Course.clean_slate [Text.Xid]
    (course : Course (fresh Lang.toolchain baseAddress sync resolver translate fetcher ns) s)
    (empty : fetcher.parked = []) (idle : s.pending = [])
    (apart : ∀ a k, s.ImportClosure (s.resolveAddress address) kind a k → s.cache.Lacks a)
    (alone : RunsAll address kind errands s.anew t) :
    (∃ later, RunsAll address kind errands s later) ∧
    ∀ later, RunsAll address kind errands s later →
      (∀ a k, s.ImportClosure (s.resolveAddress address) kind a k →
        later.upshot? a k = t.upshot? a k) ∧
      later.ns = t.ns ∧ later.isIdle = t.isIdle ∧
      ∀ id u, s.cache.get? id = some u → later.cache.get? id = some u := by
  have hs := course.accounted
    (accounted_fresh Lang.toolchain baseAddress sync resolver translate empty ns)
  obtain ⟨plain, unregistered⟩ :=
    course.lasting lasting_unregistered (atRest_fresh ..) ⟨rfl, fun _ _ => rfl⟩
  have insular : s.tools.Insular := plain ▸ Lang.insular_toolchain
  have spent : s.cache.Spent (s.Imported (s.resolveAddress address) kind) :=
    hs.spent idle fun a ⟨k, hk⟩ => apart a k hk
  obtain ⟨later, hruns, hlast⟩ :=
    (hs.alongside_anew idle unregistered apart).runsAll spent insular rfl alone
  refine ⟨⟨later, hruns⟩, fun other hother => ?_⟩
  obtain rfl := hruns.unique hother
  refine ⟨fun a k hk => hlast.onTop.upshot? spent ⟨k, hk⟩ k, hlast.onTop.ns, ?_, ?_⟩
  · rw [isIdle, hlast.onTop.pending, isIdle, List.isEmpty_map]
  · intro id u hu
    rw [hlast.onTop.get?_old (Cache.index_lt_of_get? hu), hu]

/-- A script that imports a name, and the module that it imports the name from. -/
def scriptText : String := "import x from \"lib\"\nx"

def moduleText : String := "export x = \"v\""

def scriptAndModule : List (String × Except FetchError String) :=
  [("/main", .ok scriptText), ("/lib", .ok moduleText)]

theorem ImportClosure.of_scriptAndModule
    (answers : (s.fetcher.answer "/main").toOption = some scriptText ∧
      (s.fetcher.answer "/lib").toOption = some moduleText)
    (script : s.tools.specifiers
      (s.tools.parse ⟨"/main", s.translate scriptText⟩ .script).value = ["lib"])
    (module : s.tools.specifiers
      (s.tools.parse ⟨"/lib", s.translate moduleText⟩ .module).value = [])
    (resolves : s.project.resolve "lib" "/main" = "/lib") {a : String} {k : Kind}
    (h : s.ImportClosure "/main" .script a k) :
    a = "/main" ∧ k = .script ∨ a = "/lib" ∧ k = .module := by
  induction h with
  | entry => exact .inl ⟨rfl, rfl⟩
  | imports _ read mem ih =>
    obtain ⟨text, hanswer, rfl, -⟩ := read
    rcases ih with ⟨rfl, rfl⟩ | ⟨rfl, rfl⟩
    · rw [hanswer] at answers
      obtain rfl := Option.some.inj answers.1
      rw [script] at mem
      obtain rfl := List.mem_singleton.mp mem
      exact .inr ⟨resolves, rfl⟩
    · rw [hanswer] at answers
      obtain rfl := Option.some.inj answers.2
      rw [module] at mem
      cases mem

/-- They are loaded after a batch that was torn down, with an answer for it still in the channel
and a request of it still parked. -/
theorem Course.clean_slate_torn :
    ∃ s alone later : Session Program UnitLoader.Value (UnitLoader.Listener UnitLoader.Value),
      s.queued ⟨0⟩ = 1 ∧ s.fetcher.parked.map (·.cancelled) = [true] ∧
      RunsAll "/main" .script [.load, .releaseAll, .idle, .releaseAll, .idle] s.anew alone ∧
      RunsAll "/main" .script [.load, .releaseAll, .idle, .releaseAll, .idle] s later ∧
      later.upshot? "/main" .script =
        some ⟨.complete, some (.str "v"), none, some ["/lib"]⟩ ∧
      later.ns = alone.ns := by
  obtain ⟨s, hs⟩ : ∃ s, torn (fresh Lang.toolchain "/" false Address.resolve id
    (.ofList scriptAndModule false) .empty) = s := ⟨_, rfl⟩
  have course : Course (fresh Lang.toolchain "/" false Address.resolve id
      (.ofList scriptAndModule false) .empty) s := by
    rw [← hs]
    exact course_torn _
  have left : s.pending = [] ∧ s.queued ⟨0⟩ = 1 ∧ s.fetcher.parked.map (·.cancelled) = [true] ∧
      s.cache.units.map (·.address) = ["/a", "/b", "/c"] := by
    rw [← hs]
    decide +kernel
  obtain ⟨idle, queued, parked, units⟩ := left
  have answers : (s.fetcher.answer "/main").toOption = some scriptText ∧
      (s.fetcher.answer "/lib").toOption = some moduleText := by
    rw [← hs]
    decide +kernel
  have reads : s.tools.specifiers
        (s.tools.parse ⟨"/main", s.translate scriptText⟩ .script).value = ["lib"] ∧
      s.tools.specifiers (s.tools.parse ⟨"/lib", s.translate moduleText⟩ .module).value = [] ∧
      s.project.resolve "lib" "/main" = "/lib" ∧ s.resolveAddress "/main" = "/main" := by
    rw [← hs]
    decide +kernel
  obtain ⟨script, module, resolves, entry⟩ := reads
  have apart (a : String) (k : Kind)
      (h : s.ImportClosure (s.resolveAddress "/main") .script a k) : s.cache.Lacks a := by
    intro id u hu ha
    have hmem : u.address ∈ s.cache.units.map (·.address) :=
      List.mem_map_of_mem (List.mem_of_getElem? hu)
    rw [entry] at h
    rw [units, ha] at hmem
    rcases h.of_scriptAndModule answers script module resolves with ⟨rfl, -⟩ | ⟨rfl, -⟩ <;>
      revert hmem <;> decide
  obtain ⟨alone, runs, upshot⟩ : ∃ alone, RunsAll "/main" .script
      [.load, .releaseAll, .idle, .releaseAll, .idle] s.anew alone ∧
      alone.upshot? "/main" .script =
        some ⟨.complete, some (.str "v"), none, some ["/lib"]⟩ := by
    refine ⟨_, .cons (.load _) (.cons (.releaseAll _) (.cons (.idle _) (.cons (.releaseAll _)
      (.cons (.idle _) (.nil _))))), ?_⟩
    rw [← hs]
    decide +kernel
  obtain ⟨⟨later, hlater⟩, hsame⟩ := Course.clean_slate course rfl idle apart runs
  obtain ⟨hupshot, hns, -, -⟩ := hsame later hlater
  have entered : s.ImportClosure (s.resolveAddress "/main") .script "/main" .script := by
    rw [entry]
    exact .entry
  exact ⟨s, alone, later, queued, parked, runs, hlater,
    (hupshot "/main" .script entered).trans upshot, hns⟩

end CleanSlate

end Session

end UnitLoader
