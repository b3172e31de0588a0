import UnitLoader.Proofs.Insularity
import UnitLoader.Proofs.Shifting

/-! Batches on top of earlier units. A build or session may hold units that have nothing to do
any more, under those that it works on; then each stage does to the units on top what it does
to them where they are alone. -/

namespace UnitLoader

variable {Tree Value Listener : Type}

/-- What leaves the units of a cache alone: all are settled, nobody listens to them, their
imports are among them, and none has one of some addresses. -/
structure Cache.Spent (A : String → Prop) (o : Cache Tree Value Listener) : Prop where
  settled : o.Settled
  quiet : ∀ id u, o.get? id = some u → u.listeners = []
  linked : o.Linked
  lacks : ∀ address, A address → o.Lacks address

namespace Build

/-- The third build is the second on top of the first; they cannot be told apart at the
addresses that count. -/
structure OnTop (A : String → Prop) (o b d : Build Tree Value Listener) : Prop where
  cache : o.cache.OnTop b.cache d.cache
  reporter : d.reporter.diagnostics = o.reporter.diagnostics ++ b.reporter.diagnostics
  project : b.project.AlikeOn A d.project

variable {A : String → Prop} {o b d : Build Tree Value Listener} {tools : Toolchain Tree Value}

theorem OnTop.modify (h : OnTop A o b d) {id : UnitId}
    {f g : SourceUnit Tree Value Listener → SourceUnit Tree Value Listener}
    (same : ∀ u, b.cache.get? id = some u → f (u.after o.cache.size) = (g u).after o.cache.size) :
    OnTop A o (b.modify id g) (d.modify (id.after o.cache.size) f) :=
  { h with cache := h.cache.modify same }

theorem OnTop.record (h : OnTop A o b d) (e e' : Event Value) :
    OnTop A o (b.record e) (d.record e') :=
  { h with }

theorem OnTop.reportAll (h : OnTop A o b d) (ds : List Diagnostic) :
    (d.reporter.reportAll ds).diagnostics =
      o.reporter.diagnostics ++ (b.reporter.reportAll ds).diagnostics := by
  simp [Reporter.reportAll, h.reporter]

theorem OnTop.report (h : OnTop A o b d) (x : Diagnostic) : OnTop A o (b.report x) (d.report x) :=
  { h with reporter := h.reportAll [x] }

/-- The errors since a moment are the same as those that were reported on top since then. -/
theorem OnTop.errorsSince (h : OnTop A o b d) {b' d' : Build Tree Value Listener}
    (h' : OnTop A o b' d') :
    d'.reporter.errorsSince d.reporter.mark = b'.reporter.errorsSince b.reporter.mark := by
  have hlength : d.reporter.diagnostics.length =
      o.reporter.diagnostics.length + b.reporter.diagnostics.length := by
    rw [h.reporter, List.length_append]
  rw [Reporter.errorsSince, Reporter.mark, h'.reporter, hlength, List.drop_length_add_append]
  rfl

/-! ### Reading -/

theorem OnTop.parse (h : OnTop A o b d) (tools : Toolchain Tree Value) (id : UnitId) :
    (d.parse tools (id.after o.cache.size)).passed = (b.parse tools id).passed ∧
      OnTop A o (b.parse tools id).build (d.parse tools (id.after o.cache.size)).build := by
  have hsetParsed (p : Project) (name : String) : (p.setParsed name).modules = p.modules ∧
      (p.setParsed name).resolver = p.resolver := by
    simp only [Project.setParsed]
    split <;> exact ⟨rfl, rfl⟩
  simp only [Build.parse, h.cache.get?_after]
  cases hu : b.cache.get? id with
  | none => exact ⟨rfl, h⟩
  | some u =>
    simp only [Option.map_some, SourceUnit.after]
    split
    · exact ⟨rfl, h.cache, h.reportAll _, h.project.congr rfl rfl rfl rfl⟩
    · refine ⟨rfl, h.cache.modify fun u _ => rfl, h.reportAll _, ?_⟩
      exact h.project.congr (hsetParsed _ _).2 (hsetParsed _ _).1 (hsetParsed _ _).2
        (hsetParsed _ _).1

theorem OnTop.register (h : OnTop A o b d) (id : UnitId) :
    OnTop A o (b.register id) (d.register (id.after o.cache.size)) := by
  simp only [Build.register, h.cache.get?_after]
  cases b.cache.get? id with
  | none => exact h
  | some u => exact { h with project := h.project.addModule u.address }

theorem OnTop.specifiers (h : OnTop A o b d) (tools : Toolchain Tree Value) (id : UnitId) :
    d.specifiers tools (id.after o.cache.size) = b.specifiers tools id := by
  simp only [Build.specifiers, h.cache.get?_after]
  cases b.cache.get? id <;> rfl

/-! ### Checks -/

theorem OnTop.foldl_failUnit (spent : o.cache.Spent A) (h : OnTop A o b d) (ids : List UnitId)
    (errorFor : String → LoadError) :
    ((o.cache.ids ++ ids.map (·.after o.cache.size)).foldl (failUnit errorFor) ([], d.cache)).1 =
        (ids.foldl (failUnit errorFor) ([], b.cache)).1.map (·.after o.cache.size) ∧
      o.cache.OnTop (ids.foldl (failUnit errorFor) ([], b.cache)).2
        ((o.cache.ids ++ ids.map (·.after o.cache.size)).foldl (failUnit errorFor)
          ([], d.cache)).2 := by
  refine Cache.foldl_on_top (R := fun (v w : List UnitId × Cache Tree Value Listener) =>
    v.1 = w.1.map (·.after o.cache.size) ∧ o.cache.OnTop w.2 v.2) ?_ ?_ ids ⟨rfl, h.cache⟩
  · rintro v w id hid ⟨hfailed, hcache⟩
    obtain ⟨u, hu⟩ := Cache.get?_of_index_lt hid
    have hget : v.2.get? id = some u := (hcache.get?_old hid).trans hu
    simp only [failUnit, hget, spent.settled id u hu, if_true]
    exact ⟨hfailed, hcache⟩
  · rintro v w id ⟨hfailed, hcache⟩
    simp only [failUnit, hcache.get?_after]
    cases hu : w.2.get? id with
    | none => exact ⟨hfailed, hcache⟩
    | some u =>
      cases hs : u.state.isSettled with
      | true => simpa [SourceUnit.after, hs] using ⟨hfailed, hcache⟩
      | false =>
        simp only [Option.map_some, SourceUnit.after, hs, Bool.false_eq_true, if_false]
        exact ⟨by simp [hfailed], hcache.modify fun u _ => u.fail_after _ _⟩

theorem OnTop.check (spent : o.cache.Spent A) (h : OnTop A o b d) (ids : List UnitId)
    (phase : Phase) {mark mark' : Mark}
    (errors : d.reporter.errorsSince mark' = b.reporter.errorsSince mark) :
    (d.check (o.cache.ids ++ ids.map (·.after o.cache.size)) phase mark').failed =
        (b.check ids phase mark).failed.map (·.map (·.after o.cache.size)) ∧
      OnTop A o (b.check ids phase mark).build
        (d.check (o.cache.ids ++ ids.map (·.after o.cache.size)) phase mark').build := by
  simp only [Build.check, errors]
  cases b.reporter.errorsSince mark with
  | nil => exact ⟨rfl, h⟩
  | cons first others =>
    obtain ⟨hfailed, hcache⟩ :=
      h.foldl_failUnit spent ids (phaseError phase first (first :: others))
    exact ⟨congrArg some hfailed, { h with cache := hcache }⟩

/-! ### Analysis and transforming -/

/-- What has been read of the units leads to some addresses only. -/
def Stays (tools : Toolchain Tree Value) (A : String → Prop) (b : Build Tree Value Listener) :
    Prop :=
  ∀ id target, source? b.cache id = some target → tools.Stays A b.project.resolver target

theorem source?_of_target? {c : Cache Tree Value Listener} {id : UnitId}
    {t : UnitId × Target Tree} (h : target? c id = some t) : source? c id = some t.2 := by
  cases hu : c.get? id with
  | none => simp [target?, hu] at h
  | some u =>
    by_cases hp : u.state = .parsed
    · simp only [target?, hu, hp, if_true, Option.map_eq_some_iff] at h
      obtain ⟨tree, ht, rfl⟩ := h
      exact source?_eq_some.mpr ⟨u, tree, hu, ht, rfl⟩
    · simp [target?, hu, hp] at h

theorem OnTop.targets (spent : o.cache.Spent A) (h : OnTop A o b d) :
    targets d.cache = (targets b.cache).map fun t => (t.1.after o.cache.size, t.2) := by
  have hold : o.cache.ids.filterMap (target? d.cache) = [] := by
    refine List.filterMap_eq_nil_iff.mpr fun id hid => ?_
    obtain ⟨u, hu⟩ := Cache.get?_of_index_lt ((o.cache.mem_ids_iff id).1 hid)
    have hget : d.cache.get? id = some u := by
      rw [h.cache.get?_old ((o.cache.mem_ids_iff id).1 hid), hu]
    have hset := spent.settled id u hu
    have hne : u.state ≠ .parsed := fun hp => by simp [hp, State.isSettled] at hset
    simp [target?, hget, hne]
  have hnew (id : UnitId) : target? d.cache (id.after o.cache.size) =
      (target? b.cache id).map fun t => (t.1.after o.cache.size, t.2) := by
    simp only [target?, h.cache.get?_after]
    cases b.cache.get? id with
    | none => rfl
    | some u =>
      by_cases hp : u.state = .parsed
      · cases ht : u.tree <;> simp [SourceUnit.after, hp, ht]
      · simp [SourceUnit.after, hp]
  rw [Build.targets, h.cache.ids, List.filterMap_append, hold, List.nil_append,
    List.filterMap_map, Build.targets, List.map_filterMap]
  exact List.filterMap_congr fun id _ => hnew id

theorem OnTop.analyze (spent : o.cache.Spent A) (insular : tools.Insular) (h : OnTop A o b d)
    (stays : b.Stays tools A) :
    (d.analyze tools d.cache.ids).failed =
        (b.analyze tools b.cache.ids).failed.map (·.map (·.after o.cache.size)) ∧
      OnTop A o (b.analyze tools b.cache.ids).build (d.analyze tools d.cache.ids).build := by
  have htargets := h.targets spent
  have hmap : (Build.targets d.cache).map (·.2) = (Build.targets b.cache).map (·.2) := by
    simp [htargets]
  obtain ⟨hvalue, hdiagnostics⟩ := insular.analyze h.project ((Build.targets b.cache).map (·.2))
    fun target ht => by
      obtain ⟨t, hmem, rfl⟩ := List.mem_map.mp ht
      obtain ⟨id, -, hid⟩ := List.mem_filterMap.mp hmem
      exact stays id t.2 (source?_of_target? hid)
  cases hb : Build.targets b.cache with
  | nil =>
    rw [hb, List.map_nil] at htargets
    have hnone {c : Build Tree Value Listener} (hc : Build.targets c.cache = []) :
        c.analyze tools c.cache.ids = c.check c.cache.ids .analyze c.reporter.mark := by
      rw [Build.targets] at hc
      simp only [Build.analyze, hc]
    rw [hnone hb, hnone htargets, h.cache.ids]
    exact h.check spent _ _ (h.errorsSince h)
  | cons first rest =>
    have hne : Build.targets b.cache ≠ [] := by simp [hb]
    have hne' : Build.targets d.cache ≠ [] := by simp [htargets, hb]
    have htold (events events' : List (Event Value)) : OnTop A o
        { b with
          project := (tools.analyze ((Build.targets b.cache).map (·.2)) b.project).value
          reporter := b.reporter.reportAll
            (tools.analyze ((Build.targets b.cache).map (·.2)) b.project).diagnostics
          history := events }
        { d with
          project := (tools.analyze ((Build.targets b.cache).map (·.2)) d.project).value
          reporter := d.reporter.reportAll
            (tools.analyze ((Build.targets b.cache).map (·.2)) b.project).diagnostics
          history := events' } :=
      ⟨h.cache, h.reportAll _, hvalue⟩
    rw [analyze_of_targets hne, analyze_of_targets hne']
    simp only [hmap, hdiagnostics, h.cache.ids]
    exact (htold _ _).check spent _ _ (h.errorsSince (htold _ _))

theorem OnTop.transformUnit (insular : tools.Insular) (h : OnTop A o b d)
    (stays : b.Stays tools A) (id : UnitId) :
    OnTop A o (b.transformUnit tools id) (d.transformUnit tools (id.after o.cache.size)) := by
  simp only [Build.transformUnit, h.cache.get?_after]
  cases hu : b.cache.get? id with
  | none => exact h
  | some u =>
    cases ht : u.tree with
    | none => simpa [SourceUnit.after, ht] using h
    | some tree =>
      have hsource := source?_eq_some.mpr ⟨u, tree, hu, ht, rfl⟩
      have htransform := insular.transform h.project _ (stays id _ hsource)
      simp only [Option.map_some, SourceUnit.after, ht, htransform]
      refine ⟨h.cache.modify fun v _ => ?_, h.reportAll _, h.project⟩
      exact SourceUnit.advance_after _ { v with transformed := some _ } _

theorem Stays.transformUnit (stays : b.Stays tools A) (id : UnitId) :
    (b.transformUnit tools id).Stays tools A := by
  cases hs : source? b.cache id with
  | none =>
    have hsame : b.transformUnit tools id = b := by
      simp only [Build.transformUnit]
      simp only [source?] at hs
      cases hu : b.cache.get? id with
      | none => rfl
      | some u =>
        cases ht : u.tree with
        | none => simp only [ht]
        | some tree => simp [hu, ht] at hs
    rwa [hsame]
  | some target =>
    intro j other hj
    rw [transformUnit_of_source hs] at hj ⊢
    exact stays j other (source?_modify_lowered tools b.project b.cache id j ▸ hj)

theorem OnTop.transform (spent : o.cache.Spent A) (insular : tools.Insular) (h : OnTop A o b d)
    (stays : b.Stays tools A) :
    (d.transform tools d.cache.ids).failed =
        (b.transform tools b.cache.ids).failed.map (·.map (·.after o.cache.size)) ∧
      OnTop A o (b.transform tools b.cache.ids).build (d.transform tools d.cache.ids).build := by
  have hfold (ids : List UnitId) {b d : Build Tree Value Listener} (h : OnTop A o b d)
      (stays : b.Stays tools A) : OnTop A o (ids.foldl (Build.transformUnit tools) b)
        ((ids.map (·.after o.cache.size)).foldl (Build.transformUnit tools) d) := by
    induction ids generalizing b d with
    | nil => exact h
    | cons id ids ih => exact ih (h.transformUnit insular stays id) (stays.transformUnit id)
  have hall := hfold (transformOrder b.cache b.cache.ids) h stays
  rw [Build.transform, transformOrder_on_top h.cache spent.settled, h.cache.ids]
  exact hall.check spent _ _ (h.errorsSince hall)

/-! ### Execution -/

theorem OnTop.execute (h : OnTop A o b d) (tools : Toolchain Tree Value) (id : UnitId)
    (ns : Namespace Value) :
    (d.execute tools (id.after o.cache.size) ns).result = (b.execute tools id ns).result ∧
      (d.execute tools (id.after o.cache.size) ns).ns = (b.execute tools id ns).ns ∧
      OnTop A o (b.execute tools id ns).build
        (d.execute tools (id.after o.cache.size) ns).build := by
  have hwrite : d.write tools (id.after o.cache.size) = b.write tools id := by
    simp only [Build.write, h.cache.get?_after]
    cases b.cache.get? id <;> rfl
  simp only [Build.execute, hwrite, h.cache.addressOf_after]
  cases b.write tools id with
  | none => exact ⟨rfl, rfl, h⟩
  | some code => exact ⟨rfl, rfl, h.record _ _⟩

theorem build_of_check_none {ids : List UnitId} {phase : Phase} {mark : Mark}
    (h : (b.check ids phase mark).failed = none) : (b.check ids phase mark).build = b := by
  simp only [Build.check] at h ⊢
  cases he : b.reporter.errorsSince mark with
  | nil => rfl
  | cons first others => simp [he] at h

theorem Stays.analyze (keeps : tools.KeepsResolver) (stays : b.Stays tools A) {ids : List UnitId}
    (h : (b.analyze tools ids).failed = none) : (b.analyze tools ids).build.Stays tools A := by
  simp only [Build.analyze] at h ⊢
  cases hb : ids.filterMap (target? b.cache) with
  | nil =>
    simp only [hb] at h ⊢
    rwa [build_of_check_none h]
  | cons first rest =>
    simp only [hb] at h ⊢
    rw [build_of_check_none h]
    intro id target hs
    have hresolver := keeps ((first :: rest).map (·.2)) b.project
    simpa only [hresolver] using stays id target hs

end Build

/-! ### Sessions -/

def Parked.after (n : Nat) (p : Parked) : Parked :=
  { p with unit := p.unit.after n }

def Completion.after (n : Nat) (c : Completion) : Completion :=
  { c with unit := c.unit.after n }

/-- Fetchers of the same sources; the second has further requests that were all called off. -/
structure Fetcher.OnTop (n : Nat) (f g : Fetcher) : Prop where
  answer : g.answer = f.answer
  reach : g.reach = f.reach
  prompt : g.prompt = f.prompt
  parked : ∃ dead : List Parked, (∀ p ∈ dead, p.cancelled = true) ∧
    g.parked = dead ++ f.parked.map (·.after n)

namespace Fetcher.OnTop

variable {n : Nat} {f g : Fetcher}

theorem note (h : OnTop n f g) (address address' : String) :
    OnTop n (f.note address) (g.note address') :=
  { h with }

theorem park (h : OnTop n f g) (id : UnitId) (address : String) :
    OnTop n (f.park id address) (g.park (id.after n) address) where
  answer := h.answer
  reach := h.reach
  prompt := h.prompt
  parked := by
    obtain ⟨dead, hdead, hparked⟩ := h.parked
    exact ⟨dead, hdead, by simp [Fetcher.park, hparked, Parked.after]⟩

theorem cancel (h : OnTop n f g) (id : UnitId) :
    OnTop n (f.cancel id) (g.cancel (id.after n)) where
  answer := h.answer
  reach := h.reach
  prompt := h.prompt
  parked := by
    obtain ⟨dead, hdead, hparked⟩ := h.parked
    have hkept : dead.map
        (fun p => if p.unit = id.after n then { p with cancelled := true } else p) = dead := by
      refine (List.map_congr_left fun p hp => ?_).trans (List.map_id dead)
      split
      · rw [← hdead p hp]
        rfl
      · rfl
    refine ⟨dead, hdead, ?_⟩
    simp only [Fetcher.cancel, hparked, List.map_append, hkept, List.map_map]
    refine congrArg (dead ++ ·) (List.map_congr_left fun p _ => ?_)
    by_cases hp : p.unit = id
    · simp [Parked.after, hp]
    · simp [Parked.after, UnitId.after_inj, hp]

end Fetcher.OnTop

namespace Session

/-- The third session is the second on top of the first, of which nothing is left but its
units. -/
structure OnTop (A : String → Prop) (o s t : Session Tree Value Listener) : Prop where
  build : o.toBuild.OnTop A s.toBuild t.toBuild
  fetcher : s.fetcher.OnTop o.cache.size t.fetcher
  channel : ∃ stale : List Completion, (∀ c ∈ stale, c.unit.index < o.cache.size) ∧
    t.channel = stale ++ s.channel.map (·.after o.cache.size)
  pending : t.pending = s.pending.map (·.after o.cache.size)
  tools : t.tools = s.tools
  baseAddress : t.baseAddress = s.baseAddress
  sync : t.sync = s.sync
  translate : t.translate = s.translate
  ns : t.ns = s.ns
  held : t.held = s.held

variable {A : String → Prop} {o s t : Session Tree Value Listener}

theorem OnTop.withBuild (h : OnTop A o s t) {b d : Build Tree Value Listener}
    (hb : o.toBuild.OnTop A b d) : OnTop A o { s with toBuild := b } { t with toBuild := d } :=
  { h with build := hb }

theorem OnTop.modifyUnit (h : OnTop A o s t) (id : UnitId)
    {f g : SourceUnit Tree Value Listener → SourceUnit Tree Value Listener}
    (same : ∀ u, s.cache.get? id = some u → f (u.after o.cache.size) = (g u).after o.cache.size) :
    OnTop A o (s.modifyUnit id g) (t.modifyUnit (id.after o.cache.size) f) :=
  h.withBuild (h.build.modify same)

theorem OnTop.record (h : OnTop A o s t) (e e' : Event Value) :
    OnTop A o (s.record e) (t.record e') :=
  h.withBuild (h.build.record e e')

theorem OnTop.withOutbox (h : OnTop A o s t) (notes notes' : List (Notification Value Listener)) :
    OnTop A o { s with outbox := notes } { t with outbox := notes' } :=
  { h with }

theorem OnTop.get?_after (h : OnTop A o s t) (id : UnitId) :
    t.cache.get? (id.after o.cache.size) = (s.cache.get? id).map (·.after o.cache.size) :=
  h.build.cache.get?_after id

theorem OnTop.get?_old (h : OnTop A o s t) {id : UnitId} (old : id.index < o.cache.size) :
    t.cache.get? id = o.cache.get? id :=
  h.build.cache.get?_old old

theorem OnTop.foldl {f g : Session Tree Value Listener → UnitId → Session Tree Value Listener}
    (step : ∀ s t id, OnTop A o s t → OnTop A o (g s id) (f t (id.after o.cache.size)))
    (ids : List UnitId) (h : OnTop A o s t) :
    OnTop A o (ids.foldl g s) ((ids.map (·.after o.cache.size)).foldl f t) := by
  induction ids generalizing s t with
  | nil => exact h
  | cons id ids ih => exact ih (step s t id h)

theorem OnTop.foldl_ids {f g : Session Tree Value Listener → UnitId → Session Tree Value Listener}
    (old : ∀ s t id, id.index < o.cache.size → OnTop A o s t → OnTop A o s (f t id))
    (new : ∀ s t id, OnTop A o s t → OnTop A o (g s id) (f t (id.after o.cache.size)))
    (h : OnTop A o s t) : OnTop A o (s.cache.ids.foldl g s) (t.cache.ids.foldl f t) := by
  rw [h.build.cache.ids]
  exact Cache.foldl_on_top (R := fun t s => OnTop A o s t) (fun t s => old s t)
    (fun t s => new s t) s.cache.ids h

/-! ### Ending a batch -/

theorem OnTop.withoutListeners (h : OnTop A o s t) (id : UnitId) :
    OnTop A o (s.modifyUnit id fun u => { u with listeners := [] })
      (t.modifyUnit (id.after o.cache.size) fun u => { u with listeners := [] }) :=
  h.modifyUnit id fun _ _ => rfl

theorem OnTop.notifyFailure (h : OnTop A o s t) (id : UnitId) :
    OnTop A o (s.notifyFailure id) (t.notifyFailure (id.after o.cache.size)) := by
  simp only [Session.notifyFailure, h.get?_after]
  cases s.cache.get? id with
  | none => exact h
  | some u =>
    simp only [Option.map_some, SourceUnit.after]
    split
    · exact (h.withoutListeners id).withOutbox _ _
    · exact h

theorem OnTop.notifyFailure_old (spent : o.cache.Spent A) (h : OnTop A o s t) {id : UnitId}
    (old : id.index < o.cache.size) : t.notifyFailure id = t := by
  obtain ⟨u, hu⟩ := Cache.get?_of_index_lt old
  simp [Session.notifyFailure, h.get?_old old, hu, spent.quiet id u hu]

theorem OnTop.notifyFailures (spent : o.cache.Spent A) (h : OnTop A o s t) :
    OnTop A o s.notifyFailures t.notifyFailures :=
  OnTop.foldl_ids (fun s t id old h => by rwa [h.notifyFailure_old spent old])
    (fun s t id h => h.notifyFailure id) h

theorem OnTop.cancelFetch (h : OnTop A o s t) (id : UnitId) :
    OnTop A o (s.cancelFetch id) (t.cancelFetch (id.after o.cache.size)) := by
  simp only [Session.cancelFetch, h.get?_after]
  cases s.cache.get? id with
  | none => exact h
  | some u =>
    simp only [Option.map_some, SourceUnit.after]
    split
    · have hmodified := (h.modifyUnit id (g := fun v => { v with cancellable := false })
        (f := fun v => { v with cancellable := false }) fun _ _ => rfl).record
          (.cancelled id u.address) (.cancelled (id.after o.cache.size) u.address)
      exact { hmodified with fetcher := h.fetcher.cancel id }
    · exact h

theorem OnTop.abortUnit (h : OnTop A o s t) (root : LoadError) (id : UnitId) :
    OnTop A o (s.abortUnit root id) (t.abortUnit root (id.after o.cache.size)) :=
  h.modifyUnit id fun u _ => u.fail_after _ _

theorem OnTop.abortUnit_old (spent : o.cache.Spent A) (h : OnTop A o s t) (root : LoadError)
    {id : UnitId} (old : id.index < o.cache.size) : OnTop A o s (t.abortUnit root id) := by
  refine { h with build := { h.build with cache := h.build.cache.modify_old old fun u hu => ?_ } }
  exact SourceUnit.fail_of_isSettled (spent.settled id u hu)

theorem OnTop.abortAll (spent : o.cache.Spent A) (h : OnTop A o s t) (cause : LoadError) :
    OnTop A o (s.abortAll cause) (t.abortAll cause) := by
  have hidle : OnTop A o { s with pending := [] } { t with pending := [] } :=
    { h with pending := rfl }
  have hquiet := hidle.foldl (fun s t id h => h.cancelFetch id) s.pending
  rw [← h.pending] at hquiet
  exact (hquiet.foldl_ids (fun s t id old h => h.abortUnit_old spent cause.rootCause old)
    fun s t id h => h.abortUnit cause.rootCause id).notifyFailures spent

theorem OnTop.failBatch (spent : o.cache.Spent A) (h : OnTop A o s t) (id : UnitId)
    (error : LoadError) :
    OnTop A o (s.failBatch id error) (t.failBatch (id.after o.cache.size) error) :=
  OnTop.abortAll spent (h.modifyUnit id fun u _ => u.fail_after _ _) error

theorem OnTop.abortFailed (spent : o.cache.Spent A) (h : OnTop A o s t) (failed : List UnitId) :
    OnTop A o (s.abortFailed failed) (t.abortFailed (failed.map (·.after o.cache.size))) := by
  have hfirst : (failed.map (·.after o.cache.size)).findSome?
      (fun id => (t.cache.get? id).bind (·.error)) =
        failed.findSome? fun id => (s.cache.get? id).bind (·.error) := by
    rw [List.findSome?_map]
    congr 1
    funext id
    rw [Function.comp_apply, h.get?_after]
    cases s.cache.get? id <;> rfl
  simp only [Session.abortFailed, hfirst]
  split
  · exact h.abortAll spent _
  · exact h.notifyFailures spent

/-! ### Executing a batch -/

theorem OnTop.completeUnit (h : OnTop A o s t) (id : UnitId) :
    OnTop A o (s.completeUnit id) (t.completeUnit (id.after o.cache.size)) :=
  h.modifyUnit id fun u _ => u.advance_after _ _

theorem OnTop.notifySuccess (h : OnTop A o s t) (id : UnitId) :
    OnTop A o (s.notifySuccess id) (t.notifySuccess (id.after o.cache.size)) := by
  simp only [Session.notifySuccess, h.get?_after]
  cases s.cache.get? id with
  | none => exact h
  | some u =>
    simp only [Option.map_some, SourceUnit.after]
    split
    · exact (h.withoutListeners id).withOutbox _ _
    · exact h

theorem OnTop.runUnits (spent : o.cache.Spent A) (order done : List UnitId) (h : OnTop A o s t) :
    OnTop A o (s.runUnits done order)
      (t.runUnits (done.map (·.after o.cache.size)) (order.map (·.after o.cache.size))) := by
  induction order generalizing s t done with
  | nil =>
    have hcomplete := h.foldl (fun s t id h => h.completeUnit id) done
    exact hcomplete.foldl (fun s t id h => h.notifySuccess id) done
  | cons id order ih =>
    obtain ⟨hresult, hns, hbuild⟩ := h.build.execute s.tools id s.ns
    have hrun : OnTop A o
        { s with
          toBuild := (s.toBuild.execute s.tools id s.ns).build
          ns := (s.toBuild.execute s.tools id s.ns).ns }
        { t with
          toBuild := (t.toBuild.execute s.tools (id.after o.cache.size) s.ns).build
          tools := s.tools
          ns := (s.toBuild.execute s.tools id s.ns).ns } :=
      { h with build := hbuild, tools := rfl, ns := rfl }
    simp only [List.map_cons, Session.runUnits, h.build.cache.isIn_after, h.tools, h.ns, hresult,
      hns]
    split
    · cases hr : (s.toBuild.execute s.tools id s.ns).result with
      | ok value =>
        have hfinished := hrun.modifyUnit id (f := (·.finish value))
          (g := (·.finish value)) fun _ _ => rfl
        have hrest := ih (done ++ [id]) hfinished
        rw [List.map_append] at hrest
        exact hrest
      | error message =>
        have haddress := hrun.build.cache.addressOf_after id
        simp only [haddress]
        exact (hrun.withBuild (hrun.build.report _)).failBatch spent id _
    · exact ih done h

theorem OnTop.runUnits_old (spent : o.cache.Spent A) (h : OnTop A o s t) {before : List UnitId}
    (old : ∀ id ∈ before, id.index < o.cache.size) (done rest : List UnitId) :
    t.runUnits done (before ++ rest) = t.runUnits done rest := by
  induction before with
  | nil => rfl
  | cons id before ih =>
    have hid := h.build.cache.isIn_old spent.settled .transformed rfl
      (old id List.mem_cons_self)
    simp only [List.cons_append, Session.runUnits, hid, Bool.false_eq_true, if_false]
    exact ih fun j hj => old j (List.mem_cons_of_mem _ hj)

theorem OnTop.evaluate (spent : o.cache.Spent A) (h : OnTop A o s t) :
    OnTop A o s.evaluate t.evaluate := by
  simp only [Session.evaluate, h.held, h.baseAddress]
  split
  · exact h.abortAll spent _
  · obtain ⟨before, hbefore, horder⟩ := h.build.cache.evaluationOrder spent.linked
    rw [horder, h.runUnits_old spent hbefore]
    exact h.runUnits spent s.cache.evaluationOrder []

theorem OnTop.checkBarrier (spent : o.cache.Spent A) (insular : s.tools.Insular)
    (h : OnTop A o s t) (stays : s.toBuild.Stays s.tools A) :
    OnTop A o s.checkBarrier t.checkBarrier := by
  have hreached : t.barrierReached = s.barrierReached := by
    rw [Session.barrierReached, Session.barrierReached,
      h.build.cache.areAll_isPastParsing spent.settled, h.build.cache.hasAny_parsed spent.settled]
  obtain ⟨hfailed, hanalysed⟩ := h.build.analyze spent insular stays
  have hanalyze : @Build.analyze Tree Value Listener t.tools = Build.analyze s.tools :=
    congrArg _ h.tools
  have htransform : @Build.transform Tree Value Listener t.tools = Build.transform s.tools :=
    congrArg _ h.tools
  simp only [Session.checkBarrier, hreached, hanalyze, hfailed, htransform]
  split
  · cases ha : (s.toBuild.analyze s.tools s.cache.ids).failed with
    | some failed => exact (h.withBuild hanalysed).abortFailed spent failed
    | none =>
      obtain ⟨hfailed', htransformed⟩ :=
        hanalysed.transform spent insular (stays.analyze insular.resolver ha)
      simp only [Option.map_none, hfailed']
      cases (s.toBuild.analyze s.tools s.cache.ids).build.transform s.tools
          (s.toBuild.analyze s.tools s.cache.ids).build.cache.ids |>.failed with
      | some failed => exact (h.withBuild htransformed).abortFailed spent failed
      | none => exact (h.withBuild htransformed).evaluate spent
  · exact h

end Session

end UnitLoader
