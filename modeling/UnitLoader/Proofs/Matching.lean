import UnitLoader.Proofs.Abreast

/-! What is asked of two sessions that are alike. Both give the same unit for a request, both take
an answer or neither does, and they stay alike as long as the stages behind parsing report no
error. -/

namespace UnitLoader

variable {Tree Value Listener : Type}

namespace Session

variable {R : String → String → Prop} {L : Listener → Listener → Prop}
  {s s' : Session Tree Value Listener}

/-! ### Requests -/

theorem Alike.depth (h : Alike R L s s') : s.depth = s'.depth := by
  rw [Session.depth, Session.depth, h.fetcher.reach]

theorem Alike.resolveAddress (h : Alike R L s s') (address : String) :
    s.resolveAddress address = s'.resolveAddress address := by
  rw [Session.resolveAddress, Session.resolveAddress, Project.resolve, Project.resolve,
    h.build.resolver, h.baseAddress]

theorem Alike.find (h : Alike R L s s') (address : String) (kind : Kind) :
    (s.find address kind).id = (s'.find address kind).id ∧
      Alike R L (s.find address kind).session (s'.find address kind).session := by
  obtain ⟨hid, hunits⟩ := Cache.getOrInsert_rel SourceUnit.likens_alike h.build.cache
    (s.resolveAddress address) kind
  simp only [Session.find, ← h.resolveAddress]
  exact ⟨hid, { h with build := { h.build with cache := hunits } }⟩

theorem Alike.load (h : Alike R L s s') (address : String) (kind : Kind)
    (hs : (s.load address kind).session.Untroubled)
    (hs' : (s'.load address kind).session.Untroubled) :
    (s.load address kind).id = (s'.load address kind).id ∧
      Alike R L (s.load address kind).session (s'.load address kind).session := by
  obtain ⟨hid, hfound⟩ := h.find address kind
  simp only [Session.load, ← hid, ← h.depth] at hs hs' ⊢
  exact ⟨trivial, (loadsAlike_loadUnit s.depth).alike hfound _ hs hs'⟩

theorem Alike.withSync (h : Alike R L s s') (sync : Bool) :
    Alike R L { s with sync := sync } { s' with sync := sync } :=
  { h with sync := rfl }

theorem Alike.loadSync (h : Alike R L s s') (address : String) (kind : Kind)
    (hs : (s.loadSync address kind).session.Untroubled)
    (hs' : (s'.loadSync address kind).session.Untroubled) :
    (s.loadSync address kind).id = (s'.loadSync address kind).id ∧
      Alike R L (s.loadSync address kind).session (s'.loadSync address kind).session := by
  obtain ⟨hid, hfound⟩ := (h.withSync true).find address kind
  simp only [Session.loadSync, ← hid, ← h.depth, ← h.sync] at hs hs' ⊢
  exact ⟨trivial, ((loadsAlike_loadUnit s.depth).alike hfound _ hs hs').withSync s.sync⟩

theorem Alike.listening (h : Alike R L s s') (id : UnitId) {l l' : Listener} (hl : L l l') :
    Alike R L (s.listening id l) (s'.listening id l') :=
  h.modifyUnit id fun _ _ hu => { hu with listeners := List.rel_append hu.listeners (.cons hl .nil) }

/-- Both sessions take a listener, or both refuse it. -/
theorem Alike.addListener (h : Alike R L s s') (id : UnitId) {l l' : Listener} (hl : L l l') :
    (∃ e e', s.addListener id l = .error e ∧ s'.addListener id l' = .error e') ∨
      s.addListener id l = .ok (s.listening id l) ∧
        s'.addListener id l' = .ok (s'.listening id l') ∧
        Alike R L (s.listening id l) (s'.listening id l') := by
  rcases h.build.cache.cases id with ⟨hc, hd⟩ | ⟨u, v, hc, hd, hu⟩
  · exact .inl ⟨.unknownUnit id, .unknownUnit id, by rw [Session.addListener, hc],
      by rw [Session.addListener, hd]⟩
  · rcases s.addListener_cases id l with ⟨e, he, hsettled⟩ | ⟨w, hw, hopen, hok⟩
    · rcases s'.addListener_cases id l' with ⟨e', he', -⟩ | ⟨w', hw', hopen', -⟩
      · exact .inl ⟨e, e', he, he'⟩
      · obtain rfl := Option.some.inj (hd.symm.trans hw')
        rw [← hu.state, hsettled u hc] at hopen'
        cases hopen'
    · rcases s'.addListener_cases id l' with ⟨e', he', hsettled'⟩ | ⟨w', hw', hopen', hok'⟩
      · obtain rfl := Option.some.inj (hc.symm.trans hw)
        rw [hu.state, hsettled' v hd] at hopen
        cases hopen
      · exact .inr ⟨hok, hok', h.listening id hl⟩

/-- Both sessions load a unit for a listener, or both refuse the listener. -/
theorem Alike.loadWith (h : Alike R L s s') (address : String) (kind : Kind) {l l' : Listener}
    (hl : L l l') :
    (∃ e e' t t', s.loadWith address kind l = (.error e, t) ∧
      s'.loadWith address kind l' = (.error e', t') ∧ Alike R L t t') ∨
    ∃ id t t', s.loadWith address kind l = (.ok id, t) ∧
      s'.loadWith address kind l' = (.ok id, t') ∧
      (t.Untroubled → t'.Untroubled → Alike R L t t') := by
  obtain ⟨hid, hfound⟩ := h.find address kind
  simp only [Session.loadWith, ← hid]
  rcases hfound.addListener (s.find address kind).id hl with
    ⟨e, e', he, he'⟩ | ⟨hok, hok', hlistening⟩
  · simp only [he, he']
    exact .inl ⟨e, e', _, _, rfl, rfl, hfound⟩
  · simp only [hok, hok', ← h.depth]
    exact .inr ⟨_, _, _, rfl, rfl, (loadsAlike_loadUnit s.depth).alike hlistening _⟩

theorem Alike.evaluating (h : Alike R L s s') (code : String)
    {listener listener' : Option Listener}
    (hl : List.Forall₂ L listener.toList listener'.toList) :
    Alike R L (s.evaluating code listener) (s'.evaluating code listener') := by
  have hcache : (s.cache.insertEval s.baseAddress .script).cache.Alike s.tools L
      (s'.cache.insertEval s'.baseAddress .script).cache := by
    rw [← h.baseAddress]
    exact h.build.cache.insertEval s.baseAddress .script
  have hmade : Alike R L { s with cache := (s.cache.insertEval s.baseAddress .script).cache }
      { s' with cache := (s'.cache.insertEval s'.baseAddress .script).cache } :=
    { h with build := { h.build with cache := hcache } }
  rw [Session.evaluating, Session.evaluating, ← h.build.cache.size]
  refine hmade.modifyUnit _ fun u v hu => ?_
  exact { hu.withText (.refl s.tools code) with listeners := List.rel_append hu.listeners hl }

theorem Alike.eval (h : Alike R L s s') (code : String) {listener listener' : Option Listener}
    (hl : List.Forall₂ L listener.toList listener'.toList)
    (hs : (s.eval code listener).session.Untroubled)
    (hs' : (s'.eval code listener').session.Untroubled) :
    (s.eval code listener).id = (s'.eval code listener').id ∧
      Alike R L (s.eval code listener).session (s'.eval code listener').session := by
  have hsession (s : Session Tree Value Listener) (listener : Option Listener) :
      (s.eval code listener).session = Session.handleLoaded
        (Session.loadUnit (s.evaluating code listener).depth) (s.evaluating code listener)
        (s.eval code listener).id := rfl
  have hid : (s.eval code listener).id = (s'.eval code listener').id :=
    congrArg UnitId.mk h.build.cache.size
  have hevaluating := h.evaluating code hl
  rw [hsession] at hs hs' ⊢
  rw [hsession]
  rw [← hid, ← hevaluating.depth] at hs' ⊢
  exact ⟨rfl, hevaluating.handleLoaded (loadsAlike_loadUnit _) _ hs hs'⟩

theorem Alike.received (h : Alike R L s s') {c c' : Completion} (hc : c.Alike R c') :
    Alike R L (s.received c) (s'.received c') := by
  have herased : Alike R L { s with pending := s.pending.erase c.unit }
      { s' with pending := s'.pending.erase c'.unit } :=
    { h with pending := by rw [h.pending, hc.unit] }
  simp only [Session.received, hc.unit, hc.address]
  rw [hc.unit] at herased
  exact (herased.record _).modifyUnit _ fun _ _ hu => hu.withCancellable false

theorem Alike.complete (h : Alike R L s s') {c c' : Completion} (hc : c.Alike R c')
    (hs : (s.complete c).Untroubled) (hs' : (s'.complete c').Untroubled) :
    Alike R L (s.complete c) (s'.complete c') := by
  have hreceived := h.received hc
  have hwaited : (decide (c.unit ∈ s.pending) && s.cache.isIn .loading c.unit) =
      (decide (c'.unit ∈ s'.pending) && s'.cache.isIn .loading c'.unit) := by
    rw [h.pending, hc.unit, h.build.cache.isIn]
  have hcomplete (s : Session Tree Value Listener) (c : Completion) : s.complete c =
      if decide (c.unit ∈ s.pending) && s.cache.isIn .loading c.unit then
        Session.handleFetched (Session.loadUnit (s.received c).depth) (s.received c) c.unit c.result
      else { s with pending := s.pending.erase c.unit } := rfl
  rw [hcomplete] at hs hs' ⊢
  rw [hcomplete]
  rw [← hwaited] at hs' ⊢
  split
  · next waited =>
    rw [if_pos waited] at hs hs'
    rw [← hreceived.depth, ← hc.unit] at hs' ⊢
    exact hreceived.handleFetched (loadsAlike_loadUnit _) c.unit hc.result hs hs'
  · exact { h with pending := by rw [h.pending, hc.unit] }

/-- Both sessions have an answer to take, or neither has. -/
theorem Alike.receive? (h : Alike R L s s') : (s.receive? = none ∧ s'.receive? = none) ∨
    ∃ t t', s.receive? = some t ∧ s'.receive? = some t' ∧
      (t.Untroubled → t'.Untroubled → Alike R L t t') := by
  simp only [Session.receive?]
  rcases forall₂_cases h.channel with ⟨hc, hd⟩ | ⟨c, rest, c', rest', hc, hd, hfirst, hrest⟩
  · rw [hc, hd]
    exact .inl ⟨rfl, rfl⟩
  · rw [hc, hd]
    refine .inr ⟨_, _, rfl, rfl, fun ht ht' => ?_⟩
    have htaken : Alike R L { s with channel := rest } { s' with channel := rest' } :=
      { h with channel := hrest }
    exact htaken.complete hfirst ht ht'

/-! ### Fetchers -/

theorem Alike.answerParked (h : Alike R L s s') (answered : List Parked)
    {answer answer' : String → Except FetchError String}
    (answers : ∀ address, AnswersAlike R (answer address) (answer' address)) :
    Alike R L (s.answerParked answered answer) (s'.answerParked answered answer') := by
  refine { h with channel := List.rel_append h.channel ?_ }
  refine List.rel_filterMap (R := Eq) ?_ (List.forall₂_refl answered)
  rintro p _ rfl
  simp only [Fetcher.completionOf]
  split
  · exact .none
  · exact .some ⟨rfl, rfl, answers p.address⟩

theorem Alike.withParked (h : Alike R L s s') (parked : List Parked) :
    Alike R L { s with fetcher := { s.fetcher with parked := parked } }
      { s' with fetcher := { s'.fetcher with parked := parked } } :=
  { h with fetcher := { h.fetcher with parked := rfl } }

theorem Alike.release (h : Alike R L s s') (address : String) :
    (s.release address).1 = (s'.release address).1 ∧
      Alike R L (s.release address).2 (s'.release address).2 := by
  simp only [Session.release, ← h.fetcher.parked]
  exact ⟨trivial, (h.withParked _).answerParked _ h.fetcher.answer⟩

theorem Alike.releaseAll (h : Alike R L s s') :
    s.releaseAll.1 = s'.releaseAll.1 ∧ Alike R L s.releaseAll.2 s'.releaseAll.2 := by
  simp only [Session.releaseAll, ← h.fetcher.parked]
  exact ⟨trivial, (h.withParked _).answerParked _ h.fetcher.answer⟩

theorem Alike.respond (h : Alike R L s s') (address : String)
    {result result' : Except FetchError String} (answers : AnswersAlike R result result') :
    Alike R L (s.respond address result).2 (s'.respond address result').2 := by
  simp only [Session.respond, ← h.fetcher.parked]
  split
  · exact h
  · exact (h.withParked _).answerParked _ fun _ => answers

theorem Alike.insert (h : Alike R L s s') (address : String) {text text' : String}
    (texts : R text text') :
    Alike R L { s with fetcher := s.fetcher.insert address text }
      { s' with fetcher := s'.fetcher.insert address text' } :=
  { h with fetcher := h.fetcher.insert address texts }

/-- Namespaces are not looked at, unless somebody else is reading them. -/
theorem Alike.withNamespace (h : Alike R L s s') (ns ns' : Namespace Value) (held : Bool) :
    Alike R L { s with ns := ns, held := held } { s' with ns := ns', held := held } :=
  { h with held := rfl }

theorem Alike.define (h : Alike R L s s') (name : String) (value : Value) :
    (s.define name value = none ∧ s'.define name value = none) ∨ ∃ t t',
      s.define name value = some t ∧ s'.define name value = some t' ∧ Alike R L t t' := by
  have hheld := h.held
  cases held : s'.held with
  | true =>
    rw [held] at hheld
    exact .inl ⟨by simp [Session.define, hheld], by simp [Session.define, held]⟩
  | false =>
    rw [held] at hheld
    exact .inr ⟨{ s with ns := s.ns.define name value }, { s' with ns := s'.ns.define name value },
      by simp [Session.define, hheld], by simp [Session.define, held], { h with }⟩

theorem Alike.emptied (h : Alike R L s s') :
    Alike R L { s with outbox := [] } { s' with outbox := [] } :=
  { h with outbox := .nil }

end Session

end UnitLoader
