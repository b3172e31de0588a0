import UnitLoader.Proofs.Concord
import UnitLoader.Proofs.Descent
import UnitLoader.Proofs.Idling
import UnitLoader.Text.Unicode

/-! The two modes of fetching. With fetches that block, the imports are gone through depth
first; otherwise they are taken as their texts arrive. Both modes read the same texts in the
end, and so they come to the same. -/

namespace UnitLoader

namespace Session

section Modes

variable {Tree Value Listener : Type} {sources : List (String × Except FetchError String)}
  {first : Bool → Session Tree Value Listener}

/-- The fresh sessions with some sources, by whether their fetches block. -/
def Stocked (sources : List (String × Except FetchError String))
    (first : Bool → Session Tree Value Listener) : Prop :=
  ∃ tools baseAddress resolver translate ns, first = fun sync =>
    fresh tools baseAddress sync resolver translate (.ofList sources true) ns

/-- A fresh session as soon as its first unit is being fetched. -/
def begun (first : Bool → Session Tree Value Listener) (address : String) (kind : Kind) :
    Session Tree Value Listener :=
  { first false with
    cache := ⟨[(SourceUnit.new ((first false).resolveAddress address) kind .load).awaited], 0⟩
    pending := [⟨0⟩] }

theorem Stocked.atRest (h : Stocked sources first) (sync : Bool) : (first sync).AtRest := by
  obtain ⟨tools, baseAddress, resolver, translate, ns, rfl⟩ := h
  exact atRest_fresh tools baseAddress sync resolver translate (.ofList sources true) ns

theorem Stocked.atRest_begun (h : Stocked sources first) (address : String) (kind : Kind) :
    (begun first address kind).AtRest := by
  have hrest := (h.atRest false).advance (.load _ address kind)
  obtain ⟨tools, baseAddress, resolver, translate, ns, rfl⟩ := h
  exact hrest.congr rfl rfl rfl

theorem Stocked.depth (h : Stocked sources first) (sync : Bool) :
    (first sync).depth = sources.length + 2 := by
  obtain ⟨tools, baseAddress, resolver, translate, ns, rfl⟩ := h
  rfl

theorem begun_parsedIds_le (address : String) (kind : Kind) (t : Session Tree Value Listener)
    (grown : Grown (Fetcher.answerFrom sources) (begun first address kind) t) :
    t.parsedIds.length ≤ sources.length + 1 := by
  have hle := Grown.parsedIds_le (f := .ofList sources true) grown
    (Fetcher.reaches_ofList sources true)
  have hreach : (Fetcher.ofList sources true).reach = sources.length := rfl
  have hsize : (begun first address kind).cache.size = 1 := rfl
  omega

/-! ### Each mode by itself -/

theorem Stocked.waiting (h : Stocked sources first) (address : String) (kind : Kind) :
    Waiting (Fetcher.answerFrom sources) (begun first address kind) []
      ((first false).load address kind).session := by
  have hrest := (h.atRest false).advance (.load _ address kind)
  obtain ⟨tools, baseAddress, resolver, translate, ns, rfl⟩ := h
  refine ⟨hrest, rfl, .of_grown ?_ hrest.sound hrest.closed, rfl, rfl, ?_, ?_⟩
  · exact (Grown.refl _ _).congr rfl rfl rfl rfl ⟨rfl, rfl, rfl, rfl⟩
      ⟨[_], rfl, by simp [Event.phase?]⟩
  · rintro c (_ | ⟨_, ⟨⟩⟩)
    exact ⟨_, rfl, rfl⟩
  · rintro id (_ | ⟨_, ⟨⟩⟩)
    exact ⟨_, List.mem_singleton_self _, rfl⟩

theorem Stocked.descends (h : Stocked sources first) (address : String) (kind : Kind) :
    Descends (Fetcher.answerFrom sources) (begun first address kind) [] 0
      ((first true).load address kind).session := by
  have hsound := (h.atRest true).sound_find address kind
  have hdepth := h.depth true
  refine descent_loadUnit (begun_parsedIds_le address kind) _ (by omega) [] _ _
    (.going ⟨?_, hsound, ?_, ?_, ?_, Nat.zero_le _⟩)
  all_goals obtain ⟨tools, baseAddress, resolver, translate, ns, rfl⟩ := h
  · exact (Grown.refl _ _).congr rfl rfl rfl rfl ⟨rfl, rfl, rfl, rfl⟩ ⟨[], rfl, by simp⟩
  · rfl
  · rfl
  · rfl

/-- A first request with fetches that block has all its fetches answered. -/
theorem Stocked.answered_load (h : Stocked sources first) (address : String) (kind : Kind) :
    Answered (Fetcher.answerFrom sources) (begun first address kind) []
        ((first true).load address kind).session ∧
      ((first true).load address kind).session.pending = [] :=
  (h.descends address kind).answered ((h.atRest true).advance (.load _ address kind)).closed

theorem Stocked.answered_loadSync (h : Stocked sources first) (address : String) (kind : Kind)
    (sync : Bool) :
    Answered (Fetcher.answerFrom sources) (begun first address kind) []
        ((first sync).loadSync address kind).session ∧
      ((first sync).loadSync address kind).session.pending = [] := by
  obtain ⟨hanswered, hpending⟩ := h.answered_load address kind
  obtain ⟨tools, baseAddress, resolver, translate, ns, rfl⟩ := h
  exact ⟨hanswered.outside sync _ _, hpending⟩

theorem outbox_begun (h : Stocked sources first) (address : String) (kind : Kind) :
    (begun first address kind).outbox = [] := by
  obtain ⟨tools, baseAddress, resolver, translate, ns, rfl⟩ := h
  rfl

/-- So has one whose answers are waited for, in whatever mode the session is. -/
theorem Stocked.answered_of_idlesTo (h : Stocked sources first) {address : String} {kind : Kind}
    {sync : Bool} {idle : Session Tree Value Listener}
    (idles : IdlesTo ((first sync).load address kind).session idle) :
    Answered (Fetcher.answerFrom sources) (begun first address kind) [] idle ∧
      idle.pending = [] := by
  cases sync with
  | false =>
    have hdepth : ((first false).load address kind).session.depth = sources.length + 2 := by
      obtain ⟨tools, baseAddress, resolver, translate, ns, rfl⟩ := h
      rfl
    obtain ⟨hwaiting, hpending⟩ := (h.waiting address kind).idles (outbox_begun h address kind)
      (begun_parsedIds_le address kind) (by omega) idles
    exact ⟨hwaiting.answered, hpending⟩
  | true =>
    obtain ⟨hanswered, hpending⟩ := h.answered_load address kind
    obtain ⟨channel, rfl⟩ := idles.of_idle hpending
    exact ⟨hanswered.outside _ _ channel, hpending⟩

theorem Stocked.exists_pollsTo (h : Stocked sources first) (address : String) (kind : Kind)
    (sync : Bool) : ∃ idle, PollsTo ((first sync).load address kind).session idle := by
  cases sync with
  | false =>
    exact (h.waiting address kind).exists_pollsTo (outbox_begun h address kind)
      (begun_parsedIds_le address kind)
  | true => exact exists_pollsTo_of_idle (h.answered_load address kind).2

/-! ### The same end -/

/-- All executions of a session, in order. -/
def codeRuns (t : Session Tree Value Listener) : List (CodeRun Value) :=
  t.history.filterMap t.codeRun?

/-- Two sessions with the same units, all complete, that have executed the same codes. -/
structure Agree (t t' : Session Tree Value Listener) : Prop where
  complete : ∀ id u, t.cache.get? id = some u → u.state = .complete
  complete' : ∀ id u, t'.cache.get? id = some u → u.state = .complete
  endings : t.endings.Perm t'.endings
  codeRuns : t.codeRuns = t'.codeRuns
  ns : t.ns = t'.ns

def CompletesWith (t : Session Tree Value Listener) (id : UnitId) (value : Value) : Prop :=
  ∃ u, t.cache.get? id = some u ∧ u.state = .complete ∧ u.result = some value

theorem settledValue_eq_ok_iff {t : Session Tree Value Listener} {id : UnitId} {value : Value} :
    t.settledValue id = .ok value ↔ t.CompletesWith id value := by
  simp only [settledValue, CompletesWith]
  cases hu : t.cache.get? id with
  | none => simp
  | some u => cases hs : u.state <;> cases hr : u.result <;> simp [hs, hr]

theorem completesWith_congr {t t' : Session Tree Value Listener} {id : UnitId} {value : Value}
    (h : (t.cache.get? id).map (·.ending) = (t'.cache.get? id).map (·.ending)) :
    t.CompletesWith id value ↔ t'.CompletesWith id value := by
  have hends (w : Session Tree Value Listener) : w.CompletesWith id value ↔
      ∃ e ∈ (w.cache.get? id).map (·.ending), e.state = .complete ∧ e.result = some value := by
    cases hu : w.cache.get? id <;> simp [CompletesWith, hu, SourceUnit.ending]
  rw [hends, hends, h]

theorem EndsIn.of_begun {address : String} {kind : Kind} {t : Session Tree Value Listener}
    {state : State} (h : EndsIn (begun first address kind) t state) :
    ∀ id u, t.cache.get? id = some u → u.state = state := by
  refine fun id u hu => h id u hu fun v hv => ?_
  have hmem : v ∈ (begun first address kind).cache.units := List.mem_of_getElem? hv
  obtain rfl := List.mem_singleton.mp hmem
  rfl

theorem EndsIn.not_completesWith {address : String} {kind : Kind}
    {t : Session Tree Value Listener} (h : EndsIn (begun first address kind) t .error)
    (id : UnitId) (value : Value) : ¬ t.CompletesWith id value := by
  rintro ⟨u, hu, hs, -⟩
  cases hs.symm.trans (h.of_begun id u hu)

theorem codeRunsSince_of_history {s t : Session Tree Value Listener} (h : s.history = []) :
    codeRunsSince s t = t.codeRuns := by
  rw [codeRunsSince, h]
  rfl

end Modes

section Language

variable {Listener : Type} {sources : List (String × Except FetchError String)}
  {first : Bool → Session Program UnitLoader.Value Listener} {address : String} {kind : Kind}

/-- Two ways to answer the fetches of a first request come to the same. -/
theorem Stocked.agree [Text.Xid] (h : Stocked sources first) (tools : (first false).tools = Lang.toolchain)
    {t t' : Session Program UnitLoader.Value Listener}
    (answered : Answered (Fetcher.answerFrom sources) (begun first address kind) [] t)
    (answered' : Answered (Fetcher.answerFrom sources) (begun first address kind) [] t')
    (pending : t.pending = []) (pending' : t'.pending = []) (value : UnitLoader.Value) :
    (t.CompletesWith ⟨0⟩ value ↔ t'.CompletesWith ⟨0⟩ value) ∧
      (t.CompletesWith ⟨0⟩ value → Agree t t') := by
  have hnew : (begun first address kind).history = [] := by
    obtain ⟨_, _, _, _, _, rfl⟩ := h
    rfl
  rcases answered.concur answered' (h.atRest_begun address kind) tools pending pending' with
    ⟨hconcur, -⟩ | ⟨herror, herror'⟩
  · refine ⟨completesWith_congr (hconcur.known ⟨0⟩ Nat.one_pos), fun _ =>
      ⟨hconcur.complete.of_begun, hconcur.complete'.of_begun, hconcur.endings, ?_, hconcur.ns⟩⟩
    rw [← codeRunsSince_of_history hnew, ← codeRunsSince_of_history hnew]
    exact hconcur.codeRuns
  · have hnone := herror.not_completesWith ⟨0⟩ value
    exact ⟨iff_of_false hnone (herror'.not_completesWith ⟨0⟩ value), fun hv => absurd hv hnone⟩

end Language

variable {Listener : Type}

/-- Loading with fetches that block comes to a value exactly when loading and then waiting
until nothing is under way comes to it; and then the two have done the same. Waiting comes to
an end, and it makes no difference whether answers are taken in rounds or one by one. -/
theorem modes_agree [Text.Xid] (baseAddress : String) (resolver : Resolver) (translate : String → String)
    (sources : List (String × Except FetchError String)) (ns : Namespace UnitLoader.Value)
    (address : String) (kind : Kind) (sync sync' : Bool) :
    let blocking := (fresh Lang.toolchain baseAddress sync resolver translate
      (.ofList sources true) ns : Session Program UnitLoader.Value Listener).loadSync address kind
    let asked := (fresh Lang.toolchain baseAddress sync' resolver translate
      (.ofList sources true) ns : Session Program UnitLoader.Value Listener).load address kind
    (∃ idle, PollsTo asked.session idle) ∧ ∀ idle, IdlesTo asked.session idle →
      idle.isIdle = true ∧ ∀ value,
        (blocking.session.settledValue blocking.id = .ok value ↔
          idle.CompletesWith asked.id value) ∧
        (blocking.session.settledValue blocking.id = .ok value → Agree blocking.session idle) := by
  have hstocked : Stocked sources fun sync => (fresh Lang.toolchain baseAddress sync resolver
    translate (.ofList sources true) ns : Session Program UnitLoader.Value Listener) :=
    ⟨_, _, _, _, _, rfl⟩
  obtain ⟨hanswered, hpending⟩ := hstocked.answered_loadSync address kind sync
  refine ⟨hstocked.exists_pollsTo address kind sync', fun idle idles => ?_⟩
  obtain ⟨hanswered', hpending'⟩ := hstocked.answered_of_idlesTo idles
  refine ⟨by rw [isIdle, hpending']; rfl, fun value => ?_⟩
  rw [settledValue_eq_ok_iff]
  exact hstocked.agree rfl hanswered hanswered' hpending hpending' value

/-- A script and two modules that import each other. -/
theorem modes_agree_cycle :
    let sources : List (String × Except FetchError String) :=
      [("/main", .ok "import x from \"a\"\nx"), ("/a", .ok "import \"b\"\nexport x = \"v\""),
        ("/b", .ok "import \"a\"")]
    let first : Session Program UnitLoader.Value Empty :=
      fresh Lang.toolchain "/" false Address.resolve id (.ofList sources true) .empty
    let blocking := (first.loadSync "/main" .script).session
    let asked := (first.load "/main" .script).session
    blocking.settledValue ⟨0⟩ = .ok (.str "v") ∧ asked.runUntilIdle.CompletesWith ⟨0⟩ (.str "v") ∧
      Agree blocking asked.runUntilIdle := by
  intro sources first blocking asked
  have hvalue : blocking.settledValue ⟨0⟩ = .ok (.str "v") := by decide +kernel
  obtain ⟨hiff, hagree⟩ := ((modes_agree "/" Address.resolve id sources .empty "/main" .script
    false false).2 asked.runUntilIdle .rounds).2 (.str "v")
  exact ⟨hvalue, hiff.mp hvalue, hagree hvalue⟩

end Session

end UnitLoader
