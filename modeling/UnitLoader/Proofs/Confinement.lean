import UnitLoader.Proofs.Idling
import UnitLoader.Proofs.Plain
import UnitLoader.Proofs.Provenance

/-! What a first request on a fresh session can lead to: the addresses of its import closure,
as the sources have it. The units that are found, what they are read as, and the answers that
are on their way all stay within it. -/

namespace UnitLoader

variable {Tree Value Listener : Type}

namespace Session

/-- What the sources have at an address is read without errors. -/
def ReadAs (r : Session Tree Value Listener) (address : String) (kind : Kind) (tree : Tree) :
    Prop :=
  ∃ text, r.fetcher.answer address = .ok text ∧
    (r.tools.parse ⟨address, r.translate text⟩ kind).value = tree ∧
    ∀ d ∈ (r.tools.parse ⟨address, r.translate text⟩ kind).diagnostics, d.isError = false

/-- The import closure of an entry, over the sources of a session: the entry itself, and with
each address where there is something to read the addresses that it imports. -/
inductive ImportClosure (r : Session Tree Value Listener) (entry : String) (kind : Kind) :
    String → Kind → Prop
  | entry : ImportClosure r entry kind entry kind
  | imports {address : String} {k : Kind} {tree : Tree} {specifier : String}
      (importer : ImportClosure r entry kind address k) (read : r.ReadAs address k tree)
      (mem : specifier ∈ r.tools.specifiers tree) :
      ImportClosure r entry kind (r.project.resolve specifier address) .module

/-- A unit of the closure that has no other tree than the sources give. -/
structure Within (r : Session Tree Value Listener) (entry : String) (kind : Kind)
    (u : SourceUnit Tree Value Listener) : Prop where
  origin : u.origin = .load
  closure : r.ImportClosure entry kind u.address u.kind
  tree : ∀ tree, u.tree = some tree → r.ReadAs u.address u.kind tree

/-- A session of the same configuration with units of the closure only. -/
structure Confined (r : Session Tree Value Listener) (entry : String) (kind : Kind)
    (s : Session Tree Value Listener) : Prop where
  tools : s.tools = r.tools
  baseAddress : s.baseAddress = r.baseAddress
  translate : s.translate = r.translate
  resolver : s.project.resolver = r.project.resolver
  units : ∀ id u, s.cache.get? id = some u → r.Within entry kind u

/-- The answers that wait, and those that are still to come, are what the sources have at the
addresses of their units. -/
structure Faithful (sources : Sources) (cs : List Completion) (s : Session Tree Value Listener) :
    Prop where
  answer : s.fetcher.answer = sources
  queued : ∀ c ∈ cs ++ s.channel, ∃ u, s.cache.get? c.unit = some u ∧
    c.result = sources u.address
  parked : ∀ p ∈ s.fetcher.parked, ∃ u, s.cache.get? p.unit = some u ∧ p.address = u.address

end Session

open Session

/-- What is in hand is what the sources have. -/
structure Moment.Bears (r : Session Tree Value Listener) (m : Moment Tree Value Listener) :
    Prop where
  answer : ∀ id text u, m.hand = .answer id (.ok text) → m.session.cache.get? id = some u →
    r.fetcher.answer u.address = .ok text
  text : ∀ id u, m.hand = .text id → m.session.cache.get? id = some u →
    ∃ text, r.fetcher.answer u.address = .ok text ∧ u.text = some (r.translate text)

/-- Nothing leads out of the import closure of an entry. -/
structure Moment.Confined (r : Session Tree Value Listener) (entry : String) (kind : Kind)
    (cs : List Completion) (m : Moment Tree Value Listener) : Prop where
  session : r.Confined entry kind m.session
  bears : m.Bears r
  faithful : m.session.Faithful r.fetcher.answer cs

namespace Session

variable {r s t : Session Tree Value Listener} {entry : String} {kind : Kind}
  {cs : List Completion} {id : UnitId}

/-! ### Fetches -/

theorem Faithful.keeps {sources : Sources} (h : Faithful sources cs s)
    (keeps : s.cache.Keeps t.cache) (answer : t.fetcher.answer = s.fetcher.answer)
    (channel : t.channel = s.channel)
    (parked : ∀ p ∈ t.fetcher.parked, ∃ q ∈ s.fetcher.parked, p.unit = q.unit ∧
      p.address = q.address) : Faithful sources cs t where
  answer := answer.trans h.answer
  queued := by
    intro c hc
    obtain ⟨u, hu, hr⟩ := h.queued c (channel ▸ hc)
    obtain ⟨v, hv, ha, -⟩ := keeps c.unit u hu
    exact ⟨v, hv, by rw [hr, ha]⟩
  parked := by
    intro p hp
    obtain ⟨q, hq, hunit, haddress⟩ := parked p hp
    obtain ⟨u, hu, ha⟩ := h.parked q hq
    obtain ⟨v, hv, ha', -⟩ := keeps q.unit u hu
    exact ⟨v, hunit ▸ hv, by rw [haddress, ha, ha']⟩

theorem parked_foldl_cancel (ids : List UnitId) (f : Fetcher) :
    ∀ p ∈ (ids.foldl Fetcher.cancel f).parked, ∃ q ∈ f.parked, p.unit = q.unit ∧
      p.address = q.address := by
  induction ids generalizing f with
  | nil => exact fun p hp => ⟨p, hp, rfl, rfl⟩
  | cons id ids ih =>
    intro p hp
    obtain ⟨q, hq, hunit, haddress⟩ := ih (f.cancel id) p hp
    obtain ⟨x, hx, rfl⟩ := List.mem_map.mp hq
    refine ⟨x, hx, hunit.trans ?_, haddress.trans ?_⟩
    all_goals split <;> rfl

theorem address_started {u : SourceUnit Tree Value Listener} (hu : s.cache.get? id = some u) :
    (s.started id).cache.addressOf id = u.address := by
  have hget : (s.started id).cache.get? id = some (u.advance .loading) := by
    simp [Cache.get?_modify, hu]
  rw [Cache.addressOf_eq hget]
  simp only [SourceUnit.advance]
  split <;> rfl

theorem supplied_request (s : Session Tree Value Listener) (id : UnitId) :
    (s.request id).fetcher.answer = s.fetcher.answer ∧
      ((s.request id).channel = s.channel ∧ (s.request id).fetcher.parked =
          s.fetcher.parked ++ [⟨id, s.cache.addressOf id, false⟩] ∨
        (s.request id).channel = s.channel ++
            [⟨id, s.cache.addressOf id, s.fetcher.answer (s.cache.addressOf id)⟩] ∧
          (s.request id).fetcher.parked = s.fetcher.parked) := by
  simp only [request]
  split
  · exact ⟨rfl, .inr ⟨rfl, rfl⟩⟩
  · exact ⟨rfl, .inl ⟨rfl, rfl⟩⟩

theorem Faithful.request {sources : Sources} (h : Faithful sources cs s)
    (new : s.cache.isIn .notStarted id = true)
    (keeps : s.cache.Keeps ((s.started id).request id).cache) :
    Faithful sources cs ((s.started id).request id) := by
  obtain ⟨u, hu, -⟩ := Cache.isIn_iff.mp new
  obtain ⟨v, hv, ha, -⟩ := keeps id u hu
  obtain ⟨hanswer, hsupplied⟩ := supplied_request (s.started id) id
  have hstarted : (s.started id).fetcher.answer = sources := h.answer
  rw [address_started hu, hstarted] at hsupplied
  -- what was there before is still of the same unit
  have hold : Faithful sources cs { (s.started id).request id with
      fetcher := (s.started id).fetcher, channel := s.channel } :=
    h.keeps keeps rfl rfl fun p hp => ⟨p, hp, rfl, rfl⟩
  refine ⟨hanswer.trans hstarted, fun c hc => ?_, fun p hp => ?_⟩
  · rcases hsupplied with ⟨hchannel, -⟩ | ⟨hchannel, -⟩
    · exact hold.queued c (hchannel ▸ hc)
    · rw [hchannel, ← List.append_assoc] at hc
      rcases List.mem_append.mp hc with hc | hc
      · exact hold.queued c hc
      · obtain rfl := List.mem_singleton.mp hc
        exact ⟨v, hv, by rw [ha]⟩
  · rcases hsupplied with ⟨-, hparked⟩ | ⟨-, hparked⟩
    · rw [hparked] at hp
      rcases List.mem_append.mp hp with hp | hp
      · exact hold.parked p hp
      · obtain rfl := List.mem_singleton.mp hp
        exact ⟨v, hv, ha.symm⟩
    · exact hold.parked p (hparked ▸ hp)

end Session

theorem Work.faithful {m n : Moment Tree Value Listener} {sources : Sources} {cs : List Completion}
    (work : Work m n) (hm : m.Sound) (h : m.session.Faithful sources cs) :
    n.session.Faithful sources cs := by
  have hkeeps := (work.move.develops hm).keeps
  have heffect := work.effect hm
  generalize n.session = t at hkeeps heffect ⊢
  cases heffect with
  | unasked same =>
    refine h.keeps hkeeps (by rw [same.fetcher]) same.channel fun p hp => ⟨p, ?_, rfl, rfl⟩
    rwa [same.fetcher] at hp
  | asks new => exact h.request new hkeeps
  | callsOff quiet calls =>
    refine h.keeps hkeeps ?_ calls.channel fun p hp => ?_
    · rw [calls.fetcher, foldl_cancel_eq]
    · rw [calls.fetcher] at hp
      exact parked_foldl_cancel _ _ p hp

/-! ### What is in hand -/

theorem Work.bears {r : Session Tree Value Listener} {m n : Moment Tree Value Listener}
    (work : Work m n) (hm : m.Sound) (h : m.Bears r) (answer : m.session.fetcher.answer =
      r.fetcher.answer) (translate : m.session.translate = r.translate) : n.Bears r := by
  obtain ⟨hmove, hown⟩ := work
  cases hmove with
  | @fetch s id ahead new sync =>
    refine ⟨fun j text u hand hu => ?_, by simp⟩
    obtain ⟨rfl, hr⟩ := InHand.answer.inj hand
    obtain ⟨w, hw, -⟩ := Cache.isIn_iff.mp new
    have haddress : ((s.started id).fetched id).cache.addressOf id = w.address :=
      Session.address_started hw
    rw [Cache.addressOf_eq hu] at haddress
    rw [← hr, Session.address_started hw, haddress, ← answer]
  | @take s id ahead text =>
    refine ⟨by simp, fun j v hand hv => ?_⟩
    obtain rfl := InHand.text.inj hand
    have hget : (s.withText id text).cache.get? id = (s.cache.get? id).map fun u =>
        { u with text := some (s.translate text) }.advance .loaded := by
      simp [Cache.get?_modify]
    rw [hget] at hv
    obtain ⟨w, hw, rfl⟩ := Option.map_eq_some_iff.mp hv
    have htext := h.answer id text w rfl hw
    have hplace := SourceUnit.place_of_core
      (SourceUnit.core_advance { w with text := some (s.translate text) } .loaded)
    refine ⟨text, by rw [hplace.1]; exact htext, ?_⟩
    rw [← translate]
    simp only [SourceUnit.advance]
    split <;> rfl
  | giveUp new sync => exact ⟨by simp, by simp⟩
  | @receive s c ahead waits loading =>
    obtain ⟨u, hu, hs⟩ := Cache.isIn_iff.mp loading
    obtain ⟨v, hv, hs'⟩ := Cache.isIn_iff.mp (hown rfl _ _ rfl)
    obtain rfl := Option.some.inj (hu.symm.trans hv)
    cases hs.symm.trans hs'
  | _ => exact ⟨by simp, by simp⟩

/-! ### What is found -/

namespace Session

/-- A unit with the text that the sources have is read as they have it. -/
theorem Confined.readAs {r s : Session Tree Value Listener} {entry : String} {kind : Kind}
    (h : r.Confined entry kind s) {u : SourceUnit Tree Value Listener} {text : String}
    (answer : r.fetcher.answer u.address = .ok text) (has : u.text = some (r.translate text))
    (sound : s.isSound u = true) : r.ReadAs u.address u.kind (s.readTree u) := by
  refine ⟨text, answer, by rw [readTree, has, h.tools]; rfl, fun d hd => ?_⟩
  rw [isSound, has, h.tools] at sound
  simp only [Bool.not_eq_true', List.any_eq_false] at sound
  exact Bool.eq_false_iff.mpr (sound d hd)

section Turns

variable {r s t m : Session Tree Value Listener} {entry : String} {kind : Kind} {id : UnitId}
  {u v : SourceUnit Tree Value Listener}

theorem Within.of_stem (h : r.Within entry kind u) (stem : v.stem = u.stem) :
    r.Within entry kind v := by
  obtain ⟨haddress, hkind, horigin, htree, -⟩ := SourceUnit.fields_of_stem stem
  refine ⟨horigin.trans h.origin, ?_, ?_⟩
  · rw [haddress, hkind]
    exact h.closure
  · rw [haddress, hkind, htree]
    exact h.tree

/-- What a unit is read as leads on in the closure. -/
theorem Confined.within_of_reads (h : r.Confined entry kind s) (hu : s.cache.get? id = some u)
    (read : r.ReadAs u.address u.kind (s.readTree u)) {imports : List UnitId}
    (reads : Reads s m id u (s.readTree u) imports) {j : UnitId} (hv : m.cache.get? j = some v) :
    r.Within entry kind v := by
  obtain ⟨hload, hclosure, -⟩ := h.units id u hu
  rcases reads.get?_back hv with ⟨rfl, rfl⟩ | ⟨-, hw⟩ | ⟨-, himport, address, kind, rfl⟩
  · refine ⟨hload, hclosure, fun tree ht => ?_⟩
    obtain rfl := Option.some.inj ht
    exact read
  · exact h.units j v hw
  · obtain ⟨found, hfound, hl⟩ := reads.found.exists_address himport
    obtain ⟨x, hx, -, hxaddress, hxkind⟩ := Cache.lookup_eq_some hl
    obtain rfl := Option.some.inj (hx.symm.trans hv)
    obtain rfl : address = found := hxaddress
    obtain rfl : kind = .module := hxkind
    obtain ⟨specifier, hspecifier, rfl⟩ :=
      (mem_importAddresses.mp hfound).resolve_left List.not_mem_nil
    rw [List.mem_mergeSort, h.tools] at hspecifier
    have hresolve : s.project.resolve specifier u.address =
        r.project.resolve specifier u.address := by
      rw [Project.resolve, h.resolver, Project.resolve]
    rw [referrer_of_load hu hload, hresolve]
    exact ⟨rfl, .imports hclosure read hspecifier, fun _ ht => by cases ht⟩

theorem Turns.confined (turns : Turns s t) (keeps : r.tools.KeepsResolver)
    (h : r.Confined entry kind s) (setting : SameSetting s t)
    (text : ∀ id u, s.cache.get? id = some u → u.state = .loaded → ∃ text,
      r.fetcher.answer u.address = .ok text ∧ u.text = some (r.translate text)) :
    r.Confined entry kind t where
  tools := setting.tools.trans h.tools
  baseAddress := setting.baseAddress.trans h.baseAddress
  translate := setting.translate.trans h.translate
  resolver := (turns.resolver_of_keeps (h.tools ▸ keeps)).trans h.resolver
  units := by
    intro id v hv
    cases turns with
    | still still =>
      obtain ⟨u, hu, he⟩ := still.get?_back hv
      exact (h.units id u hu).of_stem (SourceUnit.stem_of_core he)
    | stops ready falls still =>
      obtain ⟨u, hu, he⟩ := still.get?_back hv
      exact (h.units id u hu).of_stem (SourceUnit.stem_of_core he)
    | executes executes still ends =>
      obtain ⟨u, hu, stem⟩ := executes.stem_back still hv
      exact (h.units id u hu).of_stem stem
    | reads unit loaded sound reads still fine =>
      obtain ⟨w, hw, he⟩ := still.get?_back hv
      obtain ⟨text, hanswer, htext⟩ := text _ _ unit loaded
      have hread := h.readAs hanswer htext sound
      exact (h.within_of_reads unit hread reads hw).of_stem (SourceUnit.stem_of_core he)

end Turns

end Session

theorem Work.confined {r : Session Tree Value Listener} {entry : String} {kind : Kind}
    {cs : List Completion} {m n : Moment Tree Value Listener} (work : Work m n) (hm : m.Sound)
    (keeps : r.tools.KeepsResolver) (h : m.Confined r entry kind cs) :
    n.Confined r entry kind cs where
  session := (work.move.turns hm).confined keeps h.session (work.move.develops hm).setting
    fun id u hu hl => h.bears.text id u ((hm.fits id u hu).loaded.mp hl) hu
  bears := work.bears hm h.bears h.faithful.answer h.session.translate
  faithful := work.faithful hm h.faithful

theorem Works.confined {r : Session Tree Value Listener} {entry : String} {kind : Kind}
    {cs : List Completion} {m n : Moment Tree Value Listener} (works : Works m n) (hm : m.Sound)
    (keeps : r.tools.KeepsResolver) (h : m.Confined r entry kind cs) :
    n.Confined r entry kind cs := by
  suffices hall : n.Sound ∧ n.Confined r entry kind cs from hall.2
  induction works with
  | refl => exact ⟨hm, h⟩
  | tail _ work ih => exact ⟨work.move.sound ih.1, work.confined ih.1 keeps ih.2⟩

end UnitLoader
