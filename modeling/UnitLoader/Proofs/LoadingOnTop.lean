import UnitLoader.Proofs.Confinement
import UnitLoader.Proofs.Overlay

/-! Loading on top of earlier units. As long as what is loaded has other addresses than they
have, each text that arrives does the same as where nothing was loaded before. -/

namespace UnitLoader

variable {Tree Value Listener : Type} {A : String → Prop}

/-! ### Reading -/

theorem Session.importUnits_on_top {o : Build Tree Value Listener} (spent : o.cache.Spent A)
    {b d : Build Tree Value Listener} (h : Build.OnTop A o b d) {referrer : String}
    {specifiers : List String}
    (leads : ∀ specifier ∈ specifiers, A (b.project.resolve specifier referrer))
    (ids : List UnitId) :
    (importUnits referrer specifiers (ids.map (·.after o.cache.size)) d).1 =
        (importUnits referrer specifiers ids b).1.map (·.after o.cache.size) ∧
      Build.OnTop A o (importUnits referrer specifiers ids b).2
        (importUnits referrer specifiers (ids.map (·.after o.cache.size)) d).2 := by
  induction specifiers generalizing ids b d with
  | nil => exact ⟨rfl, h⟩
  | cons specifier specifiers ih =>
    have hfirst := leads specifier List.mem_cons_self
    obtain ⟨hid, hcache⟩ := h.cache.getOrInsert (spent.lacks _ hfirst) .module
    have hids (id : UnitId) : (if id.after o.cache.size ∈ ids.map (·.after o.cache.size) then
          ids.map (·.after o.cache.size)
        else ids.map (·.after o.cache.size) ++ [id.after o.cache.size]) =
          (if id ∈ ids then ids else ids ++ [id]).map (·.after o.cache.size) := by
      by_cases hmem : id ∈ ids
      · rw [if_pos hmem, if_pos (UnitId.mem_map_after.mpr hmem)]
      · rw [if_neg hmem, if_neg fun hm => hmem (UnitId.mem_map_after.mp hm), List.map_append]
        rfl
    simp only [importUnits, h.project.resolve, hid, hids]
    exact ih (b := { b with cache := _ }) (d := { d with cache := _ })
      ⟨hcache, h.reporter, h.project⟩
      (fun other hother => leads other (List.mem_cons_of_mem _ hother)) _

namespace Session

variable {o s t : Session Tree Value Listener} {id : UnitId}

theorem OnTop.referrer (h : OnTop A o s t) (id : UnitId) :
    t.referrer (id.after o.cache.size) = s.referrer id := by
  simp only [Session.referrer, h.get?_after, h.baseAddress]
  cases s.cache.get? id <;> rfl

theorem OnTop.discover (spent : o.cache.Spent A) (h : OnTop A o s t)
    (leads : ∀ specifier ∈ s.toBuild.specifiers s.tools id,
      A (s.project.resolve specifier (s.referrer id))) :
    OnTop A o (s.discover id) (t.discover (id.after o.cache.size)) := by
  have hleads : ∀ specifier ∈ (s.toBuild.specifiers s.tools id).mergeSort (· ≤ ·),
      A (s.project.resolve specifier (s.referrer id)) := fun specifier hs =>
    leads specifier (List.mem_mergeSort.mp hs)
  obtain ⟨hids, hbuild⟩ := importUnits_on_top spent h.build hleads []
  have hspecifiers : t.toBuild.specifiers t.tools (id.after o.cache.size) =
      s.toBuild.specifiers s.tools id := by
    rw [h.tools, h.build.specifiers]
  rw [List.map_nil] at hids hbuild
  simp only [Session.discover, hspecifiers, h.referrer, hids]
  exact h.withBuild (hbuild.modify fun u _ => u.fixDependencies_after _ _)

theorem OnTop.understood (spent : o.cache.Spent A) (h : OnTop A o s t)
    {u : SourceUnit Tree Value Listener} (hu : s.cache.get? id = some u)
    (sound : s.isSound u = true) (loaded : u.state = .loaded)
    (leads : ∀ specifier ∈ s.tools.specifiers (s.readTree u),
      A (s.project.resolve specifier (s.referrer id))) :
    OnTop A o (s.understood id) (t.understood (id.after o.cache.size)) := by
  have hparses := parses_parsedBuild hu sound loaded
  have hparsed : o.toBuild.OnTop A (s.parsedBuild id) (t.parsedBuild (id.after o.cache.size)) := by
    rw [parsedBuild, parsedBuild, h.tools]
    exact ((h.build.parse s.tools id).2.modify fun u _ => u.advance_after _ _).register id
  show OnTop A o ({ s with toBuild := s.parsedBuild id }.discover id)
    ({ t with toBuild := t.parsedBuild (id.after o.cache.size) }.discover (id.after o.cache.size))
  refine (h.withBuild hparsed).discover spent fun specifier hs => ?_
  rw [hparses.specifiers] at hs
  rw [hparses.referrer hu, hparses.resolve]
  exact leads specifier hs

/-! ### Each kind of step -/

theorem OnTop.isSound (h : OnTop A o s t) (u : SourceUnit Tree Value Listener) :
    t.isSound (u.after o.cache.size) = s.isSound u := by
  rw [Session.isSound, Session.isSound, h.tools]
  rfl

theorem OnTop.started (h : OnTop A o s t) (id : UnitId) :
    OnTop A o (s.started id) (t.started (id.after o.cache.size)) :=
  h.modifyUnit id fun u _ => u.advance_after _ _

theorem OnTop.fetched (h : OnTop A o s t) (id : UnitId) :
    OnTop A o (s.fetched id) (t.fetched (id.after o.cache.size)) :=
  { h.record _ _ with fetcher := h.fetcher.note _ _ }

theorem OnTop.request (h : OnTop A o s t) (id : UnitId) :
    OnTop A o (s.request id) (t.request (id.after o.cache.size)) := by
  have hasked : OnTop A o
      { (s.record (.requested id (s.cache.addressOf id))).modifyUnit id
        fun u => { u with cancellable := true } with pending := s.pending ++ [id] }
      { (t.record (.requested (id.after o.cache.size) (s.cache.addressOf id))).modifyUnit
          (id.after o.cache.size) fun u => { u with cancellable := true } with
        pending := t.pending ++ [id.after o.cache.size] } := by
    have hmarked := (h.record (.requested id (s.cache.addressOf id))
      (.requested (id.after o.cache.size) (s.cache.addressOf id))).modifyUnit id
        (f := fun u => { u with cancellable := true })
        (g := fun u => { u with cancellable := true }) fun _ _ => rfl
    exact { hmarked with pending := by simp [h.pending] }
  have hprompt : (t.fetcher.note (s.cache.addressOf id)).prompt =
      (s.fetcher.note (s.cache.addressOf id)).prompt := h.fetcher.prompt
  simp only [Session.request, h.build.cache.addressOf_after, hprompt]
  split
  · obtain ⟨stale, hstale, hchannel⟩ := h.channel
    have hanswer (address : String) : t.channel ++ [(⟨id.after o.cache.size, address,
        (t.fetcher.note address).answer address⟩ : Completion)] =
        stale ++ (s.channel ++ [(⟨id, address, (s.fetcher.note address).answer address⟩ :
          Completion)]).map (·.after o.cache.size) := by
      simp [hchannel, Fetcher.note, h.fetcher.answer, Completion.after]
    exact { hasked with
      fetcher := h.fetcher.note _ _
      channel := ⟨stale, hstale, hanswer _⟩ }
  · exact { hasked with fetcher := (h.fetcher.note _ _).park id _ }

theorem OnTop.withText (h : OnTop A o s t) (id : UnitId) (text : String) :
    OnTop A o (s.withText id text) (t.withText (id.after o.cache.size) text) := by
  simp only [Session.withText, h.translate]
  exact h.modifyUnit id fun u _ => SourceUnit.advance_after _ { u with text := _ } _

theorem OnTop.refused (spent : o.cache.Spent A) (h : OnTop A o s t) (id : UnitId) (e : FetchError) :
    OnTop A o (s.refused id e) (t.refused (id.after o.cache.size) e) := by
  simp only [Session.refused, h.build.cache.addressOf_after]
  exact (h.withBuild (h.build.report _)).failBatch spent id _

theorem OnTop.misread (spent : o.cache.Spent A) (h : OnTop A o s t) (id : UnitId) :
    OnTop A o (s.misread id) (t.misread (id.after o.cache.size)) := by
  obtain ⟨-, hparse⟩ := h.build.parse s.tools id
  have hmessage :
      (t.toBuild.parse s.tools (id.after o.cache.size)).build.reporter.messageSince
        t.reporter.mark =
      (s.toBuild.parse s.tools id).build.reporter.messageSince s.reporter.mark := by
    rw [Reporter.messageSince, h.build.errorsSince hparse]
    rfl
  have htools : @Build.parse Tree Value Listener t.tools = Build.parse s.tools :=
    congrArg _ h.tools
  simp only [Session.misread, h.build.cache.addressOf_after, htools, hmessage]
  generalize LoadError.parse _ _ = error
  exact OnTop.abortAll spent ((h.withBuild hparse).modifyUnit id (f := (·.recordError error))
    (g := (·.recordError error)) fun _ _ => rfl) _

theorem OnTop.received (h : OnTop A o s t) (c : Completion) :
    OnTop A o (s.received c) (t.received (c.after o.cache.size)) := by
  have hpending : t.pending.erase (c.after o.cache.size).unit =
      (s.pending.erase c.unit).map (·.after o.cache.size) := by
    rw [h.pending]
    exact (List.map_erase (UnitId.after_injective _) s.pending).symm
  have hwaiting : OnTop A o { s with pending := s.pending.erase c.unit }
      { t with pending := t.pending.erase (c.after o.cache.size).unit } :=
    { h with pending := hpending }
  exact (hwaiting.record _ _).modifyUnit c.unit fun _ _ => rfl

/-! ### Loading -/

/-- The addresses of an import closure. -/
def Imported (r : Session Tree Value Listener) (entry : String) (kind : Kind) (address : String) :
    Prop :=
  ∃ k, r.ImportClosure entry kind address k

section Loading

variable {r : Session Tree Value Listener} {entry : String} {kind : Kind} {cs : List Completion}

theorem Confined.leads (h : r.Confined entry kind s) {u : SourceUnit Tree Value Listener}
    (hu : s.cache.get? id = some u) {tree : Tree} (read : r.ReadAs u.address u.kind tree) :
    ∀ specifier ∈ s.tools.specifiers tree,
      r.Imported entry kind (s.project.resolve specifier u.address) := by
  intro specifier hs
  rw [h.tools] at hs
  rw [Project.resolve, h.resolver]
  exact ⟨.module, .imports (h.units id u hu).closure read hs⟩

theorem Confined.stays (h : r.Confined entry kind s) :
    s.toBuild.Stays s.tools (r.Imported entry kind) := by
  intro id target hs
  obtain ⟨u, tree, hu, ht, rfl⟩ := Build.source?_eq_some.mp hs
  have hwithin := h.units id u hu
  exact ⟨⟨u.kind, hwithin.closure⟩, h.leads hu (hwithin.tree tree ht)⟩

/-- Loading on top does what loading alone does, as long as that stays in the closure. -/
def LoadsOnTop (r o : Session Tree Value Listener) (entry : String) (kind : Kind)
    (cs : List Completion)
    (load : Session Tree Value Listener → UnitId → Session Tree Value Listener) : Prop :=
  ∀ s t id ahead, Moment.Sound ⟨s, id :: ahead, .nothing⟩ →
    Moment.Confined r entry kind cs ⟨s, id :: ahead, .nothing⟩ →
    OnTop (r.Imported entry kind) o s t →
    OnTop (r.Imported entry kind) o (load s id) (load t (id.after o.cache.size))

variable {load : Session Tree Value Listener → UnitId → Session Tree Value Listener}
  {ahead : List UnitId}

theorem LoadsOnTop.foldl (loads : LoadsOnTop r o entry kind cs load) (works : LoadsByWorks load)
    (keeps : r.tools.KeepsResolver) (ids : List UnitId)
    (sound : Moment.Sound ⟨s, ids ++ ahead, .nothing⟩)
    (confined : Moment.Confined r entry kind cs ⟨s, ids ++ ahead, .nothing⟩)
    (h : OnTop (r.Imported entry kind) o s t) :
    OnTop (r.Imported entry kind) o (ids.foldl load s)
      ((ids.map (·.after o.cache.size)).foldl load t) := by
  induction ids generalizing s t with
  | nil => exact h
  | cons id ids ih =>
    have hworks := works s id (ids ++ ahead) sound
    exact ih (hworks.moves.sound sound) (hworks.confined sound keeps confined)
      (loads s t id (ids ++ ahead) sound confined h)

theorem OnTop.handleLoaded (spent : o.cache.Spent (r.Imported entry kind))
    (insular : r.tools.Insular) (loads : LoadsOnTop r o entry kind cs load)
    (works : LoadsByWorks load) (sound : Moment.Sound ⟨s, ahead, .text id⟩)
    (confined : Moment.Confined r entry kind cs ⟨s, ahead, .text id⟩)
    (h : OnTop (r.Imported entry kind) o s t) :
    OnTop (r.Imported entry kind) o (handleLoaded load s id)
      (handleLoaded load t (id.after o.cache.size)) := by
  obtain ⟨u, hu⟩ := Cache.get?_of_index_lt (sound.hand id rfl)
  have hu' : t.cache.get? (id.after o.cache.size) = some (u.after o.cache.size) := by
    rw [h.get?_after, hu, Option.map_some]
  have hsound := h.isSound u
  cases hs : s.isSound u with
  | false =>
    rw [handleLoaded_of_not_sound load hu hs, handleLoaded_of_not_sound load hu' (hsound.trans hs)]
    exact h.misread spent id
  | true =>
    obtain ⟨text, hanswer, htext⟩ := confined.bears.text id u rfl hu
    have hread := confined.session.readAs hanswer htext hs
    have hbase := referrer_of_load hu (confined.session.units id u hu).origin
    have hunderstood := h.understood spent hu hs ((sound.fits id u hu).loaded.mpr rfl)
      (hbase ▸ confined.session.leads hu hread)
    have hdependencies := hunderstood.build.cache.dependencyIds_after id
    have hfind : ((t.understood (id.after o.cache.size)).cache.dependencyIds
        (id.after o.cache.size)).find?
          ((t.understood (id.after o.cache.size)).cache.isIn .error) =
        (((s.understood id).cache.dependencyIds id).find?
          ((s.understood id).cache.isIn .error)).map (·.after o.cache.size) := by
      rw [hdependencies, List.find?_map]
      congr 2
      funext d
      exact hunderstood.build.cache.isIn_after .error d
    rw [handleLoaded_of_sound load hu hs, handleLoaded_of_sound load hu' (hsound.trans hs), hfind]
    cases hf : ((s.understood id).cache.dependencyIds id).find?
        ((s.understood id).cache.isIn .error) with
    | some failed =>
      simp only [Option.map_some, rejected, h.build.cache.addressOf_after,
        hunderstood.build.cache.addressOf_after]
      exact hunderstood.failBatch spent id _
    | none =>
      have hfine : ∀ d ∈ (s.understood id).cache.dependencyIds id,
          (s.understood id).cache.isIn .error d = false := fun d hd => by
        simpa using List.find?_eq_none.mp hf d hd
      have hwork : Work ⟨s, ahead, .text id⟩
          ⟨s.understood id, (s.understood id).cache.dependencyIds id ++ ahead, .nothing⟩ :=
        .of_hand (.read hu hs hfine) (by simp)
      have hsound' := hwork.move.sound sound
      have hconfined := hwork.confined sound insular.resolver confined
      have hfold := loads.foldl works insular.resolver _ hsound' hconfined hunderstood
      have hworks := works.foldl _ hsound'
      have hlast := (hworks.confined hsound' insular.resolver hconfined).session
      rw [← hdependencies] at hfold
      exact hfold.checkBarrier spent (hlast.tools ▸ insular) hlast.stays

theorem OnTop.handleFetched (spent : o.cache.Spent (r.Imported entry kind))
    (insular : r.tools.Insular) (loads : LoadsOnTop r o entry kind cs load)
    (works : LoadsByWorks load) {result : Except FetchError String}
    (sound : Moment.Sound ⟨s, ahead, .answer id result⟩)
    (confined : Moment.Confined r entry kind cs ⟨s, ahead, .answer id result⟩)
    (h : OnTop (r.Imported entry kind) o s t) :
    OnTop (r.Imported entry kind) o (handleFetched load s id result)
      (handleFetched load t (id.after o.cache.size) result) := by
  cases result with
  | error e => exact h.refused spent id e
  | ok text =>
    have hwork : Work ⟨s, ahead, .answer id (.ok text)⟩ ⟨s.withText id text, ahead, .text id⟩ :=
      .of_hand .take (by simp)
    exact (h.withText id text).handleLoaded spent insular loads works sound.take
      (hwork.confined sound insular.resolver confined)

theorem loadUnit_old_on_top (h : OnTop A o s t) (old : s.cache.isIn .notStarted id = false)
    (depth : Nat) : OnTop A o (loadUnit depth s id) (loadUnit depth t (id.after o.cache.size)) := by
  have hold := (h.build.cache.isIn_after .notStarted id).trans old
  rwa [loadUnit_of_old old, loadUnit_of_old hold]

theorem loadUnit_new_on_top (h : OnTop A o s t) (new : s.cache.isIn .notStarted id = true)
    (sync : s.sync = false) (depth : Nat) :
    OnTop A o (loadUnit depth s id) (loadUnit depth t (id.after o.cache.size)) := by
  have hnew := (h.build.cache.isIn_after .notStarted id).trans new
  rw [loadUnit_of_new new sync, loadUnit_of_new hnew (h.sync.trans sync)]
  exact (h.started id).request id

theorem loadsOnTop_loadUnit (spent : o.cache.Spent (r.Imported entry kind))
    (insular : r.tools.Insular) (depth : Nat) : LoadsOnTop r o entry kind cs (loadUnit depth) := by
  -- Only a blocking fetch goes one level deeper.
  induction depth with
  | zero =>
    intro s t id ahead sound confined h
    cases new : s.cache.isIn .notStarted id with
    | false => exact loadUnit_old_on_top h new 0
    | true =>
      cases sync : s.sync with
      | false => exact loadUnit_new_on_top h new sync 0
      | true =>
        have hnew := (h.build.cache.isIn_after .notStarted id).trans new
        have haddress := (h.started id).build.cache.addressOf_after id
        rw [loadUnit_zero new sync, loadUnit_zero hnew (h.sync.trans sync), haddress]
        exact (h.started id).refused spent id _
  | succ depth ih =>
    intro s t id ahead sound confined h
    cases new : s.cache.isIn .notStarted id with
    | false => exact loadUnit_old_on_top h new (depth + 1)
    | true =>
      cases sync : s.sync with
      | false => exact loadUnit_new_on_top h new sync (depth + 1)
      | true =>
        have hnew := (h.build.cache.isIn_after .notStarted id).trans new
        have haddress := (h.started id).build.cache.addressOf_after id
        have hfetch := work_fetch ahead new sync
        rw [loadUnit_succ new sync, loadUnit_succ hnew (h.sync.trans sync), haddress,
          h.fetcher.answer]
        exact ((h.started id).fetched id).handleFetched spent insular ih
          (loadsByWorks_loadUnit depth) (hfetch.move.sound sound)
          (hfetch.confined sound insular.resolver confined)

end Loading

end Session

end UnitLoader
