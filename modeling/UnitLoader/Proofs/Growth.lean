import UnitLoader.Proofs.Answering
import UnitLoader.Proofs.Linking
import UnitLoader.Proofs.Lockstep

/-! How a session grows while its fetches are answered out of one map of sources. Each
unit is what it was at the start, or was read out of the sources on the way; and each new
unit was found through the imports of an older one. -/

namespace UnitLoader

variable {Tree Value Listener : Type}

abbrev Sources := String → Except FetchError String

namespace Session

/-- What a unit is before its text arrives: it was being fetched at the start, or it has
been found since. -/
inductive Begins (s t : Session Tree Value Listener) (id : UnitId) :
    SourceUnit Tree Value Listener → Prop
  | old {u : SourceUnit Tree Value Listener} (unit : s.cache.get? id = some u)
      (loading : u.state = .loading) : Begins s t id u
  | new {address : String} (absent : s.cache.get? id = none)
      (found : t.cache.lookup address .module = some id) : Begins s t id (.asked address)

/-- What a unit is when its text has arrived. -/
inductive Arrives (sources : Sources) (s t : Session Tree Value Listener)
    (u : SourceUnit Tree Value Listener) : SourceUnit Tree Value Listener → Prop
  | read {text : String} {imports : List UnitId} (answer : sources u.address = .ok text)
      (welcome : s.Welcomes u text) (found : FoundAt t.cache (s.importsIn u text) imports) :
      Arrives sources s t u
        (u.readAs (s.translate text) (s.reading u text).value imports)

/-- A unit at an address has been read since the start. -/
def ReadAt (s t : Session Tree Value Listener) (address : String) : Prop :=
  ∃ id v, t.cache.get? id = some v ∧ v.address = address ∧ v.state = .parsed ∧
    s.cache.isIn .parsed id = false

/-- A session before and after some of its fetches were answered, with none of them
failing and the barrier closed. -/
structure Grown (sources : Sources) (s t : Session Tree Value Listener) : Prop where
  size : s.cache.size ≤ t.cache.size
  unit : ∀ id v, t.cache.get? id = some v →
    (s.cache.get? id = some v ∧ v.state ≠ .loading) ∨
      ∃ u, Begins s t id u ∧ (v = u ∨ Arrives sources s t u v)
  ledTo : t.cache.LedTo s.cache.size
  resolver : t.project.resolver = s.project.resolver
  registered : ∀ address, ReadAt s t address →
    t.project.module? address = some ((s.project.module? address).getD ⟨address, []⟩)
  unregistered : ∀ address, ¬ ReadAt s t address →
    t.project.module? address = s.project.module? address
  ns : t.ns = s.ns
  outbox : t.outbox = s.outbox
  terms : SameTerms s t
  history : ∃ events, t.history = s.history ++ events ∧ ∀ e ∈ events, e.phase? ≠ some .evaluate

variable {sources : Sources} {s t : Session Tree Value Listener} {id : UnitId}
  {u v : SourceUnit Tree Value Listener}

theorem Begins.state (h : Begins s t id u) : u.state = .loading := by
  cases h with
  | old unit loading => exact loading
  | new absent found => rfl

theorem Arrives.state (h : Arrives sources s t u v) : v.state = .parsed := by
  cases h
  rfl

theorem Arrives.listeners (h : Arrives sources s t u v) : v.listeners = u.listeners := by
  cases h
  rfl

theorem Grown.refl (sources : Sources) (s : Session Tree Value Listener) :
    Grown sources s s where
  size := Nat.le_refl _
  unit := by
    intro id v hv
    by_cases hs : v.state = .loading
    · exact .inr ⟨v, .old hv hs, .inl rfl⟩
    · exact .inl ⟨hv, hs⟩
  ledTo := by
    intro id hle hlt
    omega
  resolver := rfl
  registered := by
    rintro address ⟨id, v, hv, -, hs, hn⟩
    simp [Cache.isIn_eq hv, hs] at hn
  unregistered := fun _ _ => rfl
  ns := rfl
  outbox := rfl
  terms := .refl s
  history := ⟨[], by simp, by simp⟩

theorem Grown.old (h : Grown sources s t) (hu : s.cache.get? id = some u) :
    ∃ v, t.cache.get? id = some v ∧
      (v = u ∨ u.state = .loading ∧ Arrives sources s t u v) := by
  have hlt := Cache.index_lt_of_get? hu
  obtain ⟨v, hv⟩ := Cache.get?_of_index_lt (Nat.lt_of_lt_of_le hlt h.size)
  refine ⟨v, hv, ?_⟩
  rcases h.unit id v hv with ⟨hsame, -⟩ | ⟨w, hbegins, hw⟩
  · exact .inl (Option.some.inj (hsame.symm.trans hu))
  · cases hbegins with
    | old unit loading =>
      obtain rfl := Option.some.inj (unit.symm.trans hu)
      exact hw.imp_right fun ha => ⟨loading, ha⟩
    | new absent found => simp [hu] at absent

theorem Grown.new (h : Grown sources s t) (hv : t.cache.get? id = some v)
    (hnone : s.cache.get? id = none) :
    t.cache.lookup v.address .module = some id ∧
      (v = .asked v.address ∨ Arrives sources s t (.asked v.address) v) := by
  rcases h.unit id v hv with ⟨hsame, -⟩ | ⟨w, hbegins, hw⟩
  · simp [hnone] at hsame
  · cases hbegins with
    | old unit loading => simp [hnone] at unit
    | @new address absent found =>
      have ha : v.address = address := by
        rcases hw with rfl | hw
        · rfl
        · cases hw
          rfl
      rw [ha]
      exact ⟨found, hw⟩

theorem Grown.keeps (h : Grown sources s t) : s.cache.Keeps t.cache := by
  intro id u hu
  obtain ⟨v, hv, rfl | ⟨-, ha⟩⟩ := h.old hu
  · exact ⟨v, hv, rfl, rfl, rfl⟩
  · cases ha
    exact ⟨_, hv, rfl, rfl, rfl⟩

theorem Grown.sameSettled (h : Grown sources s t) : SameSettled s t := by
  intro id u hs
  have hne : u.state ≠ .loading := fun he => by simp [he, State.isSettled] at hs
  constructor
  · intro hu
    obtain ⟨v, hv, rfl | ⟨he, -⟩⟩ := h.old hu
    · exact hv
    · exact absurd he hne
  · intro hu
    rcases h.unit id u hu with ⟨hsame, -⟩ | ⟨w, hbegins, rfl | ha⟩
    · exact hsame
    · exact absurd hbegins.state hne
    · simp [ha.state, State.isSettled] at hs

theorem SameSettled.isIn_error (h : SameSettled s t) (id : UnitId) :
    t.cache.isIn .error id = s.cache.isIn .error id := by
  rw [Bool.eq_iff_iff, Cache.isIn_iff, Cache.isIn_iff]
  refine exists_congr fun u => and_congr_left fun he => ?_
  exact (h id u (by rw [he]; rfl)).symm

theorem Grown.importsIn (h : Grown sources s t) (u : SourceUnit Tree Value Listener)
    (text : String) : t.importsIn u text = s.importsIn u text := by
  have hresolve : t.project.resolve = s.project.resolve := by
    funext specifier base
    simp only [Project.resolve, h.resolver]
  simp only [Session.importsIn, reading, h.terms.tools, h.terms.translate, h.terms.baseAddress,
    hresolve]

theorem Grown.reading (h : Grown sources s t) (u : SourceUnit Tree Value Listener)
    (text : String) : t.reading u text = s.reading u text := by
  simp only [Session.reading, h.terms.tools, h.terms.translate]

theorem Grown.welcomes_iff (h : Grown sources s t) (u : SourceUnit Tree Value Listener)
    (text : String) : t.Welcomes u text ↔ s.Welcomes u text := by
  have herror := h.sameSettled.isIn_error
  constructor
  · intro hw
    refine ⟨h.reading u text ▸ hw.sound, fun address ha d hd => ?_⟩
    rw [← herror]
    exact hw.imports address (h.importsIn u text ▸ ha) d (h.keeps.lookup hd)
  · intro hw
    refine ⟨(h.reading u text).symm ▸ hw.sound, fun address ha d hd => ?_⟩
    rw [herror]
    refine Bool.eq_false_iff.mpr fun he => ?_
    obtain ⟨v, hv, -⟩ := Cache.isIn_iff.mp he
    have hold := h.keeps.lookup_old hd (Cache.index_lt_of_get? hv)
    simp [hw.imports address (h.importsIn u text ▸ ha) d hold] at he

/-! ### A further text -/

variable {t' : Session Tree Value Listener} {text : String} {imports : List UnitId}

theorem Begins.mono (h : Begins s t id u) (hk : t.cache.Keeps t'.cache) : Begins s t' id u := by
  cases h with
  | old unit loading => exact .old unit loading
  | new absent found => exact .new absent (hk.lookup found)

theorem Arrives.mono (h : Arrives sources s t u v) (hk : t.cache.Keeps t'.cache) :
    Arrives sources s t' u v := by
  cases h with
  | read answer welcome found => exact .read answer welcome (found.imp fun _ _ hl => hk.lookup hl)

theorem Begins.isIn_parsed (h : Begins s t id u) : s.cache.isIn .parsed id = false := by
  cases h with
  | old unit loading => simp [Cache.isIn_eq unit, loading]
  | new absent found => simp [Cache.isIn, Cache.state?, absent]

theorem Grown.begins (h : Grown sources s t) (hu : t.cache.get? id = some u)
    (hs : u.state = .loading) : Begins s t id u := by
  rcases h.unit id u hu with ⟨-, hne⟩ | ⟨w, hbegins, rfl | ha⟩
  · exact absurd hs hne
  · exact hbegins
  · simp [ha.state] at hs

theorem Takes.keeps (h : Takes t t' id u text imports) (hu : t.cache.get? id = some u) :
    t.cache.Keeps t'.cache := by
  intro j v hv
  by_cases hj : id = j
  · subst hj
    obtain rfl := Option.some.inj (hu.symm.trans hv)
    exact ⟨_, h.unit, rfl, rfl, rfl⟩
  · exact ⟨v, h.other j v hj hv, rfl, rfl, rfl⟩

theorem Takes.readAt_iff (h : Takes t t' id u text imports) (hu : t.cache.get? id = some u)
    (hs : u.state = .loading) (hn : s.cache.isIn .parsed id = false) (address : String) :
    ReadAt s t' address ↔ u.address = address ∨ ReadAt s t address := by
  constructor
  · rintro ⟨j, v, hv, ha, hp, hnew⟩
    by_cases hj : id = j
    · subst hj
      obtain rfl := Option.some.inj (hv.symm.trans h.unit)
      exact .inl ha
    · cases hw : t.cache.get? j with
      | some w =>
        obtain rfl := Option.some.inj (hv.symm.trans (h.other j w hj hw))
        exact .inr ⟨j, v, hw, ha, hp, hnew⟩
      | none =>
        obtain ⟨-, a, rfl⟩ := h.fresh j v hv hw
        simp [SourceUnit.asked] at hp
  · rintro (rfl | ⟨j, v, hv, ha, hp, hnew⟩)
    · exact ⟨id, _, h.unit, rfl, rfl, hn⟩
    · have hj : id ≠ j := by
        rintro rfl
        obtain rfl := Option.some.inj (hu.symm.trans hv)
        simp [hs] at hp
      exact ⟨j, v, h.other j v hj hv, ha, hp, hnew⟩

theorem Takes.module? (h : Takes t t' id u text imports) (address : String) :
    t'.project.module? address =
      if u.address = address then some ((t.project.module? address).getD ⟨address, []⟩)
      else t.project.module? address := by
  have hsame : (((t.project.addFile ⟨u.address, t.translate text⟩).setParsed u.address)).module?
      address = t.project.module? address := Session.module?_setParsed _ _ _
  rw [h.project, Project.module?_addModule, hsame]
  by_cases ha : u.address = address
  · rw [if_pos ha, if_pos ha, ha]
  · rw [if_neg ha, if_neg ha]

theorem Takes.ledTo (h : Takes t t' id u text imports) (hu : t.cache.get? id = some u)
    (hd : u.dependencies = none) {n : Nat} (hled : t.cache.LedTo n) : t'.cache.LedTo n := by
  have hsize := (h.keeps hu).size_le
  intro j hle hlt
  obtain ⟨v, hv⟩ := Cache.get?_of_index_lt hlt
  cases hw : t.cache.get? j with
  | some w =>
    obtain ⟨p, hp, hdep⟩ := hled j hle (Cache.index_lt_of_get? hw)
    have hne : id ≠ p := by
      rintro rfl
      simp [Cache.dependencyIds_eq hu, SourceUnit.dependencyIds, hd] at hdep
    obtain ⟨x, hx⟩ := Cache.get?_of_index_lt (Nat.lt_trans hp (Cache.index_lt_of_get? hw))
    refine ⟨p, hp, ?_⟩
    rw [Cache.dependencyIds_eq (h.other p x hne hx)]
    rwa [Cache.dependencyIds_eq hx] at hdep
  | none =>
    have hbehind := Cache.get?_eq_none_iff.mp hw
    have hbefore := Cache.index_lt_of_get? hu
    refine ⟨id, by omega, ?_⟩
    rw [Cache.dependencyIds_eq h.unit]
    exact (h.fresh j v hv hw).1

theorem Grown.unit_of_takes (h : Grown sources s t) (htakes : Takes t t' id u text imports)
    (hu : t.cache.get? id = some u) (hs : u.state = .loading)
    (answer : sources u.address = .ok text) (welcome : t.Welcomes u text) {j : UnitId}
    (hv : t'.cache.get? j = some v) :
    (s.cache.get? j = some v ∧ v.state ≠ .loading) ∨
      ∃ w, Begins s t' j w ∧ (v = w ∨ Arrives sources s t' w v) := by
  have hkeeps := htakes.keeps hu
  by_cases hj : id = j
  · subst hj
    refine .inr ⟨u, (h.begins hu hs).mono hkeeps, .inr ?_⟩
    obtain rfl := Option.some.inj (hv.symm.trans htakes.unit)
    rw [h.terms.translate, h.reading]
    have hfound := htakes.found
    rw [h.importsIn] at hfound
    exact .read answer ((h.welcomes_iff u text).mp welcome) hfound
  · cases hw : t.cache.get? j with
    | some w =>
      obtain rfl := Option.some.inj (hv.symm.trans (htakes.other j w hj hw))
      refine (h.unit j v hw).imp_right ?_
      rintro ⟨x, hbegins, hx⟩
      exact ⟨x, hbegins.mono hkeeps, hx.imp_right fun ha => ha.mono hkeeps⟩
    | none =>
      obtain ⟨himport, address, rfl⟩ := htakes.fresh j v hv hw
      have habsent : s.cache.get? j = none := by
        have hbehind := Cache.get?_eq_none_iff.mp hw
        have hsize := h.size
        exact Cache.get?_eq_none_iff.mpr (by omega)
      obtain ⟨a, -, hl⟩ := htakes.found.exists_address himport
      obtain ⟨x, hx, -, ha, -⟩ := Cache.lookup_eq_some hl
      obtain rfl := Option.some.inj (hv.symm.trans hx)
      obtain rfl : address = a := ha
      exact .inr ⟨_, .new habsent hl, .inl rfl⟩

/-- A session that has grown grows on with each text that is welcome. -/
theorem Grown.takes (h : Grown sources s t) (hd : u.dependencies = none)
    (htakes : Takes t t' id u text imports) (hu : t.cache.get? id = some u)
    (hs : u.state = .loading) (answer : sources u.address = .ok text)
    (welcome : t.Welcomes u text) : Grown sources s t' := by
  have hkeeps := htakes.keeps hu
  have hread := htakes.readAt_iff hu hs (h.begins hu hs).isIn_parsed
  exact
    { size := Nat.le_trans h.size hkeeps.size_le
      unit := fun j v hv => h.unit_of_takes htakes hu hs answer welcome hv
      ledTo := htakes.ledTo hu hd h.ledTo
      resolver := by
        have hadd (p : Project) (address : String) : (p.addModule address).resolver = p.resolver := by
          simp only [Project.addModule]
          split <;> rfl
        have hset (p : Project) (name : String) : (p.setParsed name).resolver = p.resolver := by
          simp only [Project.setParsed]
          split <;> rfl
        rw [htakes.project, hadd, hset]
        exact h.resolver
      registered := by
        intro address hra
        rw [htakes.module?]
        by_cases ho : ReadAt s t address
        · rw [h.registered address ho]
          split <;> rfl
        · have ha : u.address = address := ((hread address).mp hra).resolve_right ho
          rw [if_pos ha, h.unregistered address ho]
      unregistered := by
        intro address hra
        have ho : ¬ ReadAt s t address := fun ho => hra ((hread address).mpr (.inr ho))
        have ha : u.address ≠ address := fun ha => hra ((hread address).mpr (.inl ha))
        rw [htakes.module?, if_neg ha, h.unregistered address ho]
      ns := htakes.ns.trans h.ns
      outbox := htakes.outbox.trans h.outbox
      terms := h.terms.trans htakes.terms
      history := by
        obtain ⟨before, hb, hpb⟩ := h.history
        obtain ⟨after, ha, hpa⟩ := htakes.history
        refine ⟨before ++ after, by rw [ha, hb, List.append_assoc], fun e he => ?_⟩
        exact (List.mem_append.mp he).elim (hpb e) (hpa e) }

theorem Grown.congr (h : Grown sources s t) (cache : t'.cache.units = t.cache.units)
    (project : t'.project = t.project) (ns : t'.ns = t.ns) (outbox : t'.outbox = t.outbox)
    (terms : SameTerms t t')
    (history : ∃ events, t'.history = t.history ++ events ∧
      ∀ e ∈ events, e.phase? ≠ some .evaluate) : Grown sources s t' := by
  have hget (id : UnitId) : t'.cache.get? id = t.cache.get? id := by simp only [Cache.get?, cache]
  have hkeeps : t.cache.Keeps t'.cache :=
    fun id u hu => ⟨u, (hget id).trans hu, rfl, rfl, rfl⟩
  have hsize : t'.cache.size = t.cache.size := by simp only [Cache.size, cache]
  have hread (address : String) : ReadAt s t' address ↔ ReadAt s t address := by
    simp only [ReadAt, hget]
  exact
    { size := hsize ▸ h.size
      unit := by
        intro id v hv
        refine (h.unit id v ((hget id).symm.trans hv)).imp_right ?_
        rintro ⟨u, hb, hu⟩
        exact ⟨u, hb.mono hkeeps, hu.imp_right fun ha => ha.mono hkeeps⟩
      ledTo := by
        intro id hle hlt
        obtain ⟨p, hp, hdep⟩ := h.ledTo id hle (hsize ▸ hlt)
        refine ⟨p, hp, ?_⟩
        rwa [Cache.dependencyIds, hget]
      resolver := by rw [project]; exact h.resolver
      registered := fun address hra => by
        rw [project]
        exact h.registered address ((hread address).mp hra)
      unregistered := fun address hra => by
        rw [project]
        exact h.unregistered address fun ho => hra ((hread address).mpr ho)
      ns := ns.trans h.ns
      outbox := outbox.trans h.outbox
      terms := h.terms.trans terms
      history := by
        obtain ⟨before, hb, hpb⟩ := h.history
        obtain ⟨after, ha, hpa⟩ := history
        refine ⟨before ++ after, by rw [ha, hb, List.append_assoc], fun e he => ?_⟩
        exact (List.mem_append.mp he).elim (hpb e) (hpa e) }

/-! ### Answers one after another -/

/-- A session whose fetches are being answered out of the sources, with the notices that
have been taken out of its outbox. Either no text has failed yet, or one has. -/
inductive Answered (sources : Sources) (s : Session Tree Value Listener) :
    List (Notification Value Listener) → Session Tree Value Listener → Prop
  | going {told : List (Notification Value Listener)} {m t : Session Tree Value Listener}
      (grown : Grown sources s m) (sound : Moment.Sound ⟨m, [], .nothing⟩)
      (notices : told ++ t.outbox = m.checkBarrier.outbox)
      (outside : t = { m.checkBarrier with
        sync := t.sync, fetcher := t.fetcher, channel := t.channel, outbox := t.outbox }) :
      Answered sources s told t
  | fallen {told : List (Notification Value Listener)} {m t : Session Tree Value Listener}
      {id : UnitId} {u : SourceUnit Tree Value Listener} (grown : Grown sources s m)
      (unit : m.cache.get? id = some u) (loading : u.state = .loading)
      (unwelcome : ∀ text, sources u.address = .ok text → ¬ s.Welcomes u text)
      (collapses : Collapses s t) : Answered sources s told t

variable {told : List (Notification Value Listener)}

theorem Collapses.of_sameSettled {m : Session Tree Value Listener} (h : Collapses m t)
    (hsame : SameSettled s m) : Collapses s t where
  settled := fun id u hu hs => h.settled id u ((hsame id u hs).mp hu) hs
  failed := by
    intro id v hv hopen
    refine h.failed id v hv fun u hu => Bool.eq_false_iff.mpr fun hs => ?_
    have := hopen u ((hsame id u hs).mpr hu)
    simp [hs] at this
  pending := h.pending

theorem Collapses.congr (h : Collapses s t) (cache : t'.cache = t.cache)
    (pending : t'.pending = t.pending) : Collapses s t' where
  settled := fun id u hu hs => by rw [cache]; exact h.settled id u hu hs
  failed := fun id v hv => h.failed id v (by rwa [cache] at hv)
  pending := pending.trans h.pending

theorem Answered.of_grown (grown : Grown sources s t) (sound : Moment.Sound ⟨t, [], .nothing⟩)
    (closed : t.barrierReached = false) : Answered sources s [] t := by
  have hsame := checkBarrier_of_closed closed
  refine .going grown sound (by rw [hsame, List.nil_append]) ?_
  rw [hsame]

theorem Answered.start (h : s.AtRest) (sources : Sources) : Answered sources s [] s :=
  .of_grown (.refl sources s) h.sound h.closed

theorem Answered.flush (h : Answered sources s told t) :
    Answered sources s (told ++ t.outbox) { t with outbox := [] } := by
  cases h with
  | going grown sound notices outside =>
    refine .going grown sound (by rw [List.append_nil, notices]) ?_
    rw [outside]
  | fallen grown unit loading unwelcome collapses =>
    exact .fallen grown unit loading unwelcome (collapses.congr rfl rfl)

theorem Answered.outside (h : Answered sources s told t) (sync : Bool) (fetcher : Fetcher)
    (channel : List Completion) :
    Answered sources s told { t with sync := sync, fetcher := fetcher, channel := channel } := by
  cases h with
  | going grown sound notices outside =>
    refine .going grown sound notices ?_
    rw [outside]
  | fallen grown unit loading unwelcome collapses =>
    exact .fallen grown unit loading unwelcome (collapses.congr rfl rfl)

/-- As long as fetches are under way, nothing but the fetcher tells a session from one
that has grown. -/
theorem Answered.grown_of_pending (h : Answered sources s told t) (outbox : s.outbox = [])
    (hp : t.pending ≠ []) : told = [] ∧ Grown sources s t := by
  cases h with
  | fallen grown unit loading unwelcome collapses => exact absurd collapses.pending hp
  | @going m _ grown sound notices outside =>
    cases hb : m.barrierReached with
    | true =>
      have hcalm := (calm_checkBarrier sound hb).pending
      rw [outside] at hp
      exact absurd hcalm hp
    | false =>
      rw [checkBarrier_of_closed hb] at notices outside
      rw [grown.outbox, outbox, List.append_eq_nil_iff] at notices
      refine ⟨notices.1, grown.congr (by rw [outside]) (by rw [outside]) (by rw [outside]) ?_ ?_
        ⟨[], by rw [outside, List.append_nil], by simp⟩⟩
      · rw [notices.2, grown.outbox, outbox]
      · rw [outside]
        exact ⟨rfl, rfl, rfl, rfl⟩

/-- An answer out of the sources is taken. -/
theorem Answered.complete (h : Answered sources s told t) (ht : t.AtRest)
    (sync : t.sync = false) (outbox : s.outbox = []) {c : Completion}
    (answer : c.unit ∈ t.pending → c.result = sources (t.cache.addressOf c.unit)) :
    Answered sources s told (t.complete c) := by
  by_cases hc : c.unit ∈ t.pending
  swap
  · rwa [complete_of_not_pending hc]
  -- A fetch is still under way, so the barrier has not opened and no text has failed.
  obtain ⟨rfl, hgrown⟩ := h.grown_of_pending outbox (List.ne_nil_of_mem hc)
  obtain ⟨u, hu⟩ := Cache.get?_of_index_lt (ht.sound.known _ hc)
  have hs : u.state = .loading := ((ht.sound.fits _ u hu).pending.mp hc).1
  have hresult : c.result = sources u.address := by rw [answer hc, Cache.addressOf_eq hu]
  by_cases hgood : ∃ text, sources u.address = .ok text ∧ t.Welcomes u text
  · obtain ⟨text, htext, hw⟩ := hgood
    obtain ⟨m, imports, htakes, hsound, hcomplete⟩ :=
      ht.takes sync hc hu (hresult.trans htext) hw
    have hd : u.dependencies = none := (ht.sound.fits _ u hu).proper.dependencies
      (by simp [hs, State.isPastParsing, State.rank])
    refine .going (hgrown.takes hd htakes hu hs htext hw) hsound ?_ ?_
    · rw [hcomplete, List.nil_append]
    · rw [hcomplete]
  · have hbad : ∀ text, sources u.address = .ok text → ¬ t.Welcomes u text :=
      fun text htext hw => hgood ⟨text, htext, hw⟩
    have hcollapses := ht.collapses hc hu fun text htext => hbad text (hresult.symm.trans htext)
    refine .fallen hgrown hu hs (fun text htext hw => ?_)
      (hcollapses.of_sameSettled hgrown.sameSettled)
    exact hbad text htext ((hgrown.welcomes_iff u text).mpr hw)

end Session

end UnitLoader
