import UnitLoader.Launch
import UnitLoader.Proofs.Confinement
import UnitLoader.Proofs.FilePaths
import UnitLoader.Text.Unicode

/-! What a launch reads. A session never forgets what it asked for, and a fresh one asks for the
file before it can ask for anything else. So the first path that is read is the one that the
address of the file leads back to. -/

namespace UnitLoader

variable {Tree Value Listener : Type}

namespace Session

variable {s t : Session Tree Value Listener} {id : UnitId}

/-! ### What was asked for -/

theorem log_request (s : Session Tree Value Listener) (id : UnitId) :
    (s.request id).fetcher.log = s.fetcher.log ++ [s.cache.addressOf id] := by
  simp only [request]
  split <;> rfl

theorem CallsOff.log_grows {events : List (Event Value)} (h : CallsOff s events t) :
    s.fetcher.log <+: t.fetcher.log := by
  have hlog : t.fetcher.log = s.fetcher.log := by rw [h.fetcher, foldl_cancel_eq]
  exact hlog ▸ List.prefix_rfl

end Session

open Session

/-- No move takes back what was asked for. -/
theorem Move.log_grows {m n : Moment Tree Value Listener} (hmove : Move m n) (h : m.Sound) :
    m.session.fetcher.log <+: n.session.fetcher.log := by
  cases hmove with
  | skip | giveUp | receive | take => exact List.prefix_rfl
  | ask =>
    rw [log_request]
    exact List.prefix_append ..
  | fetch => exact List.prefix_append ..
  | refuse =>
    dsimp only
    exact (h.callsOff_refused rfl _).log_grows
  | misread unit sound =>
    dsimp only
    exact (h.callsOff_misread unit sound).log_grows
  | read unit sound =>
    obtain ⟨imports, hr⟩ := h.reads unit sound
    exact hr.same ▸ List.prefix_rfl
  | reject unit sound =>
    dsimp only
    exact (h.callsOff_rejected unit sound _).log_grows
  | pass reached =>
    obtain ⟨events, -, hc⟩ := (h.ready reached).writes reached
    exact hc.log_grows

theorem Moves.log_grows {m n : Moment Tree Value Listener} (moves : Moves m n) (h : m.Sound) :
    m.session.fetcher.log <+: n.session.fetcher.log := by
  induction moves with
  | refl => exact List.prefix_rfl
  | tail moves move ih => exact ih.trans (move.log_grows (Moves.sound moves h))

namespace Session

variable {s t : Session Tree Value Listener} {id : UnitId}

theorem AtRest.log_grows_foldl (cs : List Completion) (h : s.AtRest) :
    s.fetcher.log <+: (cs.foldl complete s).fetcher.log := by
  induction cs generalizing s with
  | nil => exact List.prefix_rfl
  | cons c cs ih =>
    exact ((h.moves_complete c).1.log_grows h.sound).trans (ih (h.advance (.complete s c)))

theorem AtRest.foldl_complete (cs : List Completion) (h : s.AtRest) :
    (cs.foldl complete s).AtRest := by
  induction cs generalizing s with
  | nil => exact h
  | cons c cs ih => exact ih (h.advance (.complete s c))

theorem AtRest.log_grows_takeRounds (rounds : Nat) (h : s.AtRest) :
    s.fetcher.log <+: (takeRounds rounds s).fetcher.log := by
  induction rounds generalizing s with
  | zero => exact List.prefix_rfl
  | succ rounds ih =>
    have hempty : AtRest { s with channel := [] } := h.congr rfl rfl rfl
    rw [takeRounds]
    split
    · exact List.prefix_rfl
    · exact (hempty.log_grows_foldl s.channel).trans (ih (hempty.foldl_complete s.channel))

theorem AtRest.log_grows_runUntilIdle (h : s.AtRest) :
    s.fetcher.log <+: s.runUntilIdle.fetcher.log :=
  h.log_grows_takeRounds s.depth

/-! ### The first request -/

/-- A unit is asked for before anything that it leads to. -/
theorem asksFirst_loadUnit (depth : Nat) (h : Moment.Sound ⟨s, [id], .nothing⟩)
    {u : SourceUnit Tree Value Listener} (hu : s.cache.get? id = some u)
    (new : u.state = .notStarted) :
    s.fetcher.log ++ [u.address] <+: (loadUnit (depth + 1) s id).fetcher.log := by
  have hnew : s.cache.isIn .notStarted id = true := Cache.isIn_iff.mpr ⟨u, hu, new⟩
  rw [← address_started hu]
  cases hsync : s.sync with
  | false =>
    rw [loadUnit_of_new hnew hsync, log_request]
    exact List.prefix_rfl
  | true =>
    have hfetched := (work_fetch [] hnew hsync).move.sound h
    rw [loadUnit_succ hnew hsync]
    exact (works_handleFetched (loadsByWorks_loadUnit depth) hfetched).1.moves.log_grows hfetched

theorem AtRest.asksFirst_load (h : s.AtRest) (address : String) (kind : Kind)
    (new : s.lookup address kind = none) :
    s.fetcher.log ++ [s.resolveAddress address] <+: (s.load address kind).session.fetcher.log := by
  have hlookup : s.cache.lookup (s.resolveAddress address) kind = none := new
  have hfound : (s.find address kind).session.cache.get? (s.find address kind).id =
      some (.new (s.resolveAddress address) kind .load) := by
    simp [find, Cache.getOrInsert, hlookup, Cache.get?_push]
  exact asksFirst_loadUnit _ (h.sound_find address kind) hfound rfl

theorem AtRest.asksFirst_loadSync (h : s.AtRest) (address : String) (kind : Kind)
    (new : s.lookup address kind = none) :
    s.fetcher.log ++ [s.resolveAddress address] <+:
      (s.loadSync address kind).session.fetcher.log :=
  (h.withSync true).asksFirst_load address kind new

end Session

namespace Launch

/-- The paths that were read for a launch, in their order. -/
def Launched.reads {α : Type} (l : Launched α) : List String :=
  l.fetched.map (Files.pathFor none)

theorem Launched.head?_reads {α : Type} {l : Launched α} {address : String}
    (h : [address] <+: l.fetched) : l.reads.head? = some (Files.pathFor none address) := by
  obtain ⟨more, hl⟩ := h
  rw [reads, ← hl]
  rfl

/-- A loader for files before its first request. -/
def loader [Text.Xid] (disk : Disk) (config : Config) : Loader :=
  .fresh Lang.toolchain config.baseAddress config.sync Address.resolve id (Files.fetcher disk none)
    .empty

theorem start_eq [Text.Xid] (disk : Disk) {config : Config} (own : config.scope = .loader) :
    start disk config = .ok (loader disk config) := by
  simp only [start, Setup.start, Setup.plain, Setup.startNamespace, own]
  rfl

theorem atRest_loader [Text.Xid] (disk : Disk) (config : Config) : (loader disk config).AtRest :=
  atRest_fresh ..

/-- A file is asked for first, whether or not the fetch of it blocks. -/
theorem prefix_fetched_runFile [Text.Xid] {disk : Disk} {config : Config} {path address : String}
    (found : fileAddress disk path = .ok address) (own : config.scope = .loader) (kind : Kind) :
    [Address.resolve address config.baseAddress] <+: (runFile disk config path kind).fetched := by
  have hrest := atRest_loader disk config
  have hload := hrest.asksFirst_load address kind rfl
  have hloadSync := hrest.asksFirst_loadSync address kind rfl
  have hlater := (hrest.advance (.load _ address kind)).log_grows_runUntilIdle
  simp only [runFile, found, start_eq disk own]
  split
  · exact hloadSync
  · exact hload.trans hlater

/-- A file is addressed so that its path comes back, whatever the base, with the names taken
apart at their backslashes. What is read first when it is run is this path. -/
theorem runFile_reads [Text.Xid] (disk : Disk) (config : Config) (path : String) (kind : Kind) {file : String}
    (canonical : disk.canonical path = .ok file) (down : Address.GoesDown file.toList) :
    (∀ base, (fileAddress disk path).map
        (fun address => Files.pathFor none (Address.resolve address base)) =
          .ok (Files.parted file)) ∧
      (config.scope = .loader →
        (runFile disk config path kind).reads.head? = some (Files.parted file)) ∧
      (Files.parted file = file ↔ '\\' ∉ file.toList) := by
  have hfound : fileAddress disk path = .ok (Files.addressOf file) := by
    simp only [fileAddress, canonical]
  have hback := Files.pathFor_resolve_addressOf down.head?
  refine ⟨fun base => ?_, fun own => ?_, Files.parted_eq_self_iff down⟩
  · rw [hfound]
    exact congrArg Except.ok (hback base)
  · rw [Launched.head?_reads (prefix_fetched_runFile hfound own kind), hback]

/-- Names with nearly all that an address gives a meaning to, below a working directory. -/
def oddNames : FileTree :=
  .below "/file:/x #eval-1" [("http:..b", .file "\"here\"".toUTF8)]

theorem runFile_reads_oddNames :
    oddNames.disk.canonical "./http:..b" = .ok "/file:/x #eval-1/http:..b" ∧
      (runFile oddNames.disk { Config.default with baseAddress := "https://example.com" }
        "./http:..b" .script).reads.head? = some "/file:/x #eval-1/http:..b" := by
  have canonical : oddNames.disk.canonical "./http:..b" = .ok "/file:/x #eval-1/http:..b" := by
    unfold FileTree.disk FileTree.trace
    rw [FileTree.start_eq]
    decide +kernel
  have hworking : ∀ n ∈ oddNames.workingDirectory, Address.IsName n := by
    unfold Address.IsName
    decide
  obtain ⟨-, hruns, hsame⟩ := runFile_reads oddNames.disk
    { Config.default with baseAddress := "https://example.com" } "./http:..b" .script canonical
    (FileTree.goesDown_canonical hworking canonical)
  exact ⟨canonical, (hruns rfl).trans (congrArg some (hsame.mpr (by decide)))⟩

/-- A file with a backslash in its name beside one in a directory. -/
def namesake : FileTree :=
  .below "/" [("a\\b", .file "\"asked for\"".toUTF8), ("a/b", .file "\"another\"".toUTF8)]

theorem runFile_namesake :
    namesake.disk.canonical "a\\b" = .ok "/a\\b" ∧
      namesake.disk.read "/a\\b" = .ok "\"asked for\"" ∧
      (fileAddress namesake.disk "a\\b").map
        (fun address => Files.pathFor none (Address.resolve address "/")) = .ok "/a/b" ∧
      (runFile namesake.disk .default "a\\b" .script).reads = ["/a/b"] ∧
      (runFile namesake.disk .default "a\\b" .script).result = .ok (.str "another") := by
  unfold FileTree.disk FileTree.trace FileTree.read FileTree.locate
  rw [FileTree.start_eq]
  decide +kernel

end Launch

end UnitLoader
