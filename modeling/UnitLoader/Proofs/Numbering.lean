import UnitLoader.Proofs.Awaiting

/-! How a cache numbers its units. Whatever it is asked, and in whatever order, each new unit
gets the next number and keeps it; a unit that was asked for is found again under its address
and kind, and one that was made for a given text never is. -/

namespace UnitLoader

namespace Cache

variable {Tree Value Listener : Type}

/-- What is asked of a cache: the unit at an address, or a unit for a given text. -/
inductive Call
  | find (address : String) (kind : Kind)
  | give (base : String) (kind : Kind)
deriving DecidableEq, Repr

namespace Call

def isFind : Call → Bool
  | find _ _ => true
  | give _ _ => false

def isGive : Call → Bool
  | find _ _ => false
  | give _ _ => true

end Call

def serve (c : Cache Tree Value Listener) : Call → Found Tree Value Listener
  | .find address kind => c.getOrInsert address kind
  | .give base kind => c.insertEval base kind

/-- Calls that are made one after another, with their answers. -/
def answers (c : Cache Tree Value Listener) : List Call → List (Call × Found Tree Value Listener)
  | [] => []
  | call :: rest => (call, c.serve call) :: (c.serve call).cache.answers rest

/-- The cache that calls leave behind. -/
def serveAll (c : Cache Tree Value Listener) (calls : List Call) : Cache Tree Value Listener :=
  calls.foldl (fun c call => (c.serve call).cache) c

/-- The unit that a call adds when it adds one. -/
def unitFor (c : Cache Tree Value Listener) : Call → SourceUnit Tree Value Listener
  | .find address kind => .new address kind .load
  | .give base kind => .new (c.nextEvalAddress base) kind .eval

variable {c d : Cache Tree Value Listener} {calls : List Call} {call : Call}
  {answer : Found Tree Value Listener} {address : String} {kind : Kind} {id : UnitId}

/-! ### One call -/

/-- A call finds a unit and changes none, or it adds one with the next number. -/
theorem serve_cases (c : Cache Tree Value Listener) (call : Call) :
    (∃ address kind, call = .find address kind ∧
      c.lookup address kind = some (c.serve call).id ∧ (c.serve call).created = false ∧
      (c.serve call).cache = { c with hits := c.hits + 1 }) ∨
    (∀ address kind, call = .find address kind → c.lookup address kind = none) ∧
      (c.serve call).created = true ∧ (c.serve call).id = ⟨c.size⟩ ∧
      (c.serve call).cache = c.push (c.unitFor call) := by
  cases call with
  | find address kind =>
    simp only [serve, getOrInsert]
    cases hl : c.lookup address kind with
    | some id => exact .inl ⟨address, kind, rfl, hl, rfl, rfl⟩
    | none =>
      refine .inr ⟨fun a k he => ?_, rfl, rfl, rfl⟩
      obtain ⟨rfl, rfl⟩ := Call.find.inj he
      exact hl
  | give base kind =>
    refine .inr ⟨fun a k he => ?_, rfl, rfl, rfl⟩
    cases he

theorem units_serve (c : Cache Tree Value Listener) (call : Call) :
    c.units <+: (c.serve call).cache.units := by
  rcases c.serve_cases call with ⟨-, -, -, -, -, hcache⟩ | ⟨-, -, -, hcache⟩
  · exact hcache ▸ List.prefix_rfl
  · exact hcache ▸ List.prefix_append _ _

theorem get?_of_units (h : c.units <+: d.units) {u : SourceUnit Tree Value Listener}
    (hu : c.get? id = some u) : d.get? id = some u := by
  obtain ⟨more, hmore⟩ := h
  have hlt := index_lt_of_get? hu
  simp only [get?, size] at hu hlt ⊢
  rw [← hmore, List.getElem?_append_left hlt, hu]

theorem lookup_push (c : Cache Tree Value Listener) (u : SourceUnit Tree Value Listener)
    (address : String) (kind : Kind) : (c.push u).lookup address kind =
      (c.lookup address kind).or (if isAt address kind u then some ⟨c.size⟩ else none) := by
  simp only [lookup, push, List.findIdx?_append, List.findIdx?_singleton, size]
  cases c.units.findIdx? (isAt address kind) with
  | some i => simp
  | none => by_cases h : isAt address kind u <;> simp [h]

theorem isAt_unitFor (c : Cache Tree Value Listener) (call : Call) (address : String)
    (kind : Kind) : isAt address kind (c.unitFor call) = true ↔ call = .find address kind := by
  cases call with
  | find a k =>
    simp only [unitFor, isAt, SourceUnit.new, Call.find.injEq, Bool.and_eq_true]
    exact and_congr ⟨fun h => of_decide_eq_true h.2, fun h => ⟨rfl, decide_eq_true h⟩⟩
      decide_eq_true_iff
  | give base k => simp [unitFor, isAt, SourceUnit.new]

/-- An address leads where it led before, or to the answer if it was asked for. -/
theorem lookup_serve (c : Cache Tree Value Listener) (call : Call) (address : String)
    (kind : Kind) (id : UnitId) : (c.serve call).cache.lookup address kind = some id ↔
      c.lookup address kind = some id ∨ call = .find address kind ∧ (c.serve call).id = id := by
  rcases c.serve_cases call with ⟨a, k, rfl, hl, -, hcache⟩ | ⟨hnone, -, hid, hcache⟩
  · have hsame : (c.serve (.find a k)).cache.lookup address kind = c.lookup address kind := by
      rw [hcache]
      rfl
    rw [hsame, or_iff_left_of_imp]
    rintro ⟨he, rfl⟩
    obtain ⟨rfl, rfl⟩ := Call.find.inj he
    exact hl
  · rw [hcache, lookup_push, hid]
    by_cases hcall : call = .find address kind
    · rw [hnone address kind hcall, if_pos ((c.isAt_unitFor call address kind).mpr hcall)]
      simp [hcall]
    · rw [if_neg (mt (c.isAt_unitFor call address kind).mp hcall), Option.or_none]
      simp [hcall]

/-! ### Calls one after another -/

theorem units_serveAll (c : Cache Tree Value Listener) (calls : List Call) :
    c.units <+: (c.serveAll calls).units := by
  induction calls generalizing c with
  | nil => exact List.prefix_rfl
  | cons call calls ih => exact (c.units_serve call).trans (ih _)

/-- Whatever was there when a call was answered is there still, in its place. -/
theorem units_of_answer (h : (call, answer) ∈ c.answers calls) :
    answer.cache.units <+: (c.serveAll calls).units := by
  induction calls generalizing c with
  | nil => cases h
  | cons first calls ih =>
    rcases List.mem_cons.mp h with he | h
    · obtain ⟨rfl, rfl⟩ := Prod.mk.inj he
      exact units_serveAll _ calls
    · exact ih h

theorem lookup_serveAll (c : Cache Tree Value Listener) (calls : List Call) (address : String)
    (kind : Kind) (id : UnitId) : (c.serveAll calls).lookup address kind = some id ↔
      c.lookup address kind = some id ∨
        ∃ answer, (.find address kind, answer) ∈ c.answers calls ∧ answer.id = id := by
  induction calls generalizing c with
  | nil => simp [serveAll, answers]
  | cons call calls ih =>
    have hsplit : (∃ answer, (.find address kind, answer) ∈ c.answers (call :: calls) ∧
        answer.id = id) ↔ call = .find address kind ∧ (c.serve call).id = id ∨
          ∃ answer, (.find address kind, answer) ∈ (c.serve call).cache.answers calls ∧
            answer.id = id := by
      constructor
      · rintro ⟨answer, hmem, hid⟩
        rcases List.mem_cons.mp hmem with he | hmem
        · obtain ⟨rfl, rfl⟩ := Prod.mk.inj he
          exact .inl ⟨rfl, hid⟩
        · exact .inr ⟨answer, hmem, hid⟩
      · rintro (⟨rfl, hid⟩ | ⟨answer, hmem, hid⟩)
        · exact ⟨_, List.mem_cons_self, hid⟩
        · exact ⟨answer, List.mem_cons_of_mem _ hmem, hid⟩
    rw [hsplit, ← or_assoc, ← lookup_serve]
    exact ih _

theorem ids_push (c : Cache Tree Value Listener) (u : SourceUnit Tree Value Listener) :
    (c.push u).ids = c.ids ++ [⟨c.size⟩] := by
  simp [ids, List.range_succ]

/-- The units that calls add are numbered on from those that were there. -/
theorem ids_serveAll (c : Cache Tree Value Listener) (calls : List Call) :
    (c.serveAll calls).ids =
      c.ids ++ ((c.answers calls).filter (·.2.created)).map (·.2.id) := by
  induction calls generalizing c with
  | nil => simp [serveAll, answers]
  | cons call calls ih =>
    have hstep : (c.serveAll (call :: calls)).ids = ((c.serve call).cache.serveAll calls).ids := rfl
    rw [hstep, ih, answers]
    rcases c.serve_cases call with ⟨-, -, -, -, hcreated, hcache⟩ | ⟨-, hcreated, hid, hcache⟩
    · have hids : (c.serve call).cache.ids = c.ids := ids_eq_of_size_eq (by rw [hcache]; rfl)
      rw [hids, List.filter_cons_of_neg (by simp [hcreated])]
    · rw [List.filter_cons_of_pos (by simp [hcreated]), List.map_cons, hid]
      rw [show (c.serve call).cache.ids = c.ids ++ [⟨c.size⟩] by rw [hcache, ids_push]]
      simp

theorem countOf_push (c : Cache Tree Value Listener) (u : SourceUnit Tree Value Listener)
    (origin : Origin) : (c.push u).countOf origin =
      c.countOf origin + if u.origin = origin then 1 else 0 := by
  by_cases h : u.origin = origin <;> simp [countOf, push, h]

theorem countOf_eval_serve (c : Cache Tree Value Listener) (call : Call) :
    (c.serve call).cache.countOf .eval = c.countOf .eval + if call.isGive then 1 else 0 := by
  rcases c.serve_cases call with ⟨a, k, rfl, -, -, hcache⟩ | ⟨-, -, -, hcache⟩
  · rw [hcache]
    rfl
  · rw [hcache, countOf_push]
    cases call <;> rfl

/-- A unit for a given text is numbered among its like as well, and that is in its address. -/
theorem get?_of_given {i : Nat} {base : String}
    (h : ((c.answers calls).filter (·.1.isGive))[i]? = some (.give base kind, answer)) :
    (c.serveAll calls).get? answer.id =
      some (.new (base ++ "#eval-" ++ toString (c.countOf .eval + i)) kind .eval) := by
  induction calls generalizing c i with
  | nil => cases h
  | cons call calls ih =>
    have hcount := c.countOf_eval_serve call
    rw [answers] at h
    cases call with
    | find a k =>
      rw [List.filter_cons_of_neg (by simp [Call.isGive])] at h
      have hget := ih h
      rw [hcount] at hget
      exact hget
    | give b k =>
      rw [List.filter_cons_of_pos rfl] at h
      cases i with
      | zero =>
        obtain ⟨hcall, rfl⟩ := Prod.mk.inj (Option.some.inj h)
        obtain ⟨rfl, rfl⟩ := Call.give.inj hcall
        refine get?_of_units (units_serveAll _ calls) ?_
        simp [serve, insertEval, get?_push, nextEvalAddress]
      | succ i =>
        have hget := ih h
        rw [hcount, Nat.add_assoc, Nat.add_comm _ i] at hget
        exact hget

theorem created_of_given {base : String} (h : (.give base kind, answer) ∈ c.answers calls) :
    answer.created = true := by
  induction calls generalizing c with
  | nil => cases h
  | cons call calls ih =>
    rcases List.mem_cons.mp h with he | h
    · obtain ⟨rfl, rfl⟩ := Prod.mk.inj he
      rfl
    · exact ih h

/-- Each time the unit at an address is asked for it was missing, or that was a hit. -/
theorem requests_serveAll (c : Cache Tree Value Listener) (calls : List Call) :
    (c.serveAll calls).stats.hits + (c.serveAll calls).stats.misses =
      c.stats.hits + c.stats.misses + calls.countP Call.isFind := by
  induction calls generalizing c with
  | nil => rfl
  | cons call calls ih =>
    have hstep : (c.serve call).cache.hits + (c.serve call).cache.countOf .load =
        c.hits + c.countOf .load + if call.isFind then 1 else 0 := by
      rcases c.serve_cases call with ⟨a, k, rfl, -, -, hcache⟩ | ⟨-, -, -, hcache⟩
      · rw [hcache]
        exact Nat.add_right_comm _ _ _
      · rw [hcache, countOf_push]
        cases call <;> rfl
    have hrest := ih (c.serve call).cache
    simp only [stats, serveAll, List.foldl_cons, List.countP_cons] at hrest ⊢
    omega

theorem countOf_add (c : Cache Tree Value Listener) :
    c.countOf .load + c.countOf .eval = c.size := by
  simp only [countOf, size]
  induction c.units with
  | nil => rfl
  | cons u units ih =>
    cases ho : u.origin <;> simp [ho] <;> omega

theorem countOf_eval_serveAll (c : Cache Tree Value Listener) (calls : List Call) :
    (c.serveAll calls).countOf .eval = c.countOf .eval + calls.countP Call.isGive := by
  induction calls generalizing c with
  | nil => rfl
  | cons call calls ih =>
    have hrest := ih (c.serve call).cache
    rw [countOf_eval_serve] at hrest
    simp only [serveAll, List.foldl_cons, List.countP_cons] at hrest ⊢
    omega

theorem find_id_of_answer (h : (.find address kind, answer) ∈ c.answers calls) :
    (c.serveAll calls).lookup address kind = some answer.id :=
  (lookup_serveAll c calls address kind answer.id).mpr (.inr ⟨answer, h, rfl⟩)

/-- What calls on a cache that was empty at first are answered, and the cache they leave. -/
structure Numbers (calls : List Call) (c : Cache Tree Value Listener)
    (answers : List (Call × Found Tree Value Listener)) : Prop where
  numbered : (answers.filter (·.2.created)).map (·.2.id) = (List.range c.size).map UnitId.mk
  kept : ∀ call answer, (call, answer) ∈ answers → answer.cache.units <+: c.units
  lookup_iff : ∀ address kind id, c.lookup address kind = some id ↔
    ∃ answer, (Call.find address kind, answer) ∈ answers ∧ answer.id = id
  found : ∀ address kind answer, (Call.find address kind, answer) ∈ answers →
    ∃ u, c.get? answer.id = some u ∧ u.origin = .load ∧ u.address = address ∧ u.kind = kind
  distinct : ∀ address kind answer address' kind' answer',
    (Call.find address kind, answer) ∈ answers → (Call.find address' kind', answer') ∈ answers →
      (answer.id = answer'.id ↔ address = address' ∧ kind = kind')
  created : ∀ base kind answer, (Call.give base kind, answer) ∈ answers → answer.created = true
  given : ∀ (i : Nat) base kind (answer : Found Tree Value Listener),
    (answers.filter (·.1.isGive))[i]? = some (Call.give base kind, answer) →
      c.get? answer.id = some (.new (base ++ "#eval-" ++ toString i) kind .eval)
  hidden : ∀ base kind answer, (Call.give base kind, answer) ∈ answers →
    (∀ address kind', c.lookup address kind' ≠ some answer.id) ∧
      ∀ address kind' answer', (Call.find address kind', answer') ∈ answers → answer'.id ≠ answer.id
  requests : c.stats.hits + c.stats.misses = calls.countP Call.isFind
  entries : c.stats.entries = c.stats.misses + calls.countP Call.isGive

theorem numbers_serveAll (calls : List Call) :
    Numbers calls ((empty : Cache Tree Value Listener).serveAll calls) (empty.answers calls) := by
  have hlookup (address : String) (kind : Kind) (id : UnitId) :
      ((empty : Cache Tree Value Listener).serveAll calls).lookup address kind = some id ↔
        ∃ answer : Found Tree Value Listener,
          (.find address kind, answer) ∈ empty.answers calls ∧ answer.id = id := by
    rw [lookup_serveAll, or_iff_right]
    exact nofun
  have hgiven (i : Nat) (base : String) (kind : Kind) (answer : Found Tree Value Listener)
      (h : ((empty.answers calls).filter (·.1.isGive))[i]? = some (.give base kind, answer)) :
      ((empty : Cache Tree Value Listener).serveAll calls).get? answer.id =
        some (.new (base ++ "#eval-" ++ toString i) kind .eval) := by
    have hget := get?_of_given h
    rwa [show (empty : Cache Tree Value Listener).countOf .eval = 0 from rfl, Nat.zero_add] at hget
  have hnever (base : String) (kind : Kind) (answer : Found Tree Value Listener)
      (h : (.give base kind, answer) ∈ empty.answers calls) (address : String) (kind' : Kind) :
      ((empty : Cache Tree Value Listener).serveAll calls).lookup address kind' ≠ some answer.id := by
    intro hl
    obtain ⟨u, hu, ho, -⟩ := lookup_eq_some hl
    obtain ⟨i, hi⟩ := List.mem_iff_getElem?.mp
      (List.mem_filter.mpr ⟨h, rfl⟩ : _ ∈ (empty.answers calls).filter (·.1.isGive))
    rw [hgiven i base kind answer hi] at hu
    obtain rfl := Option.some.inj hu
    cases ho
  refine ⟨(ids_serveAll empty calls).symm, fun _ _ => units_of_answer, hlookup, ?_, ?_,
    fun _ _ _ => created_of_given, hgiven, ?_, ?_, ?_⟩
  · exact fun address kind answer h => lookup_eq_some (find_id_of_answer h)
  · intro address kind answer address' kind' answer' h h'
    constructor
    · intro hid
      obtain ⟨u, hu, -, ha, hk⟩ := lookup_eq_some (find_id_of_answer h)
      obtain ⟨v, hv, -, ha', hk'⟩ := lookup_eq_some (find_id_of_answer h')
      rw [hid, hv] at hu
      obtain rfl := Option.some.inj hu
      exact ⟨ha.symm.trans ha', hk.symm.trans hk'⟩
    · rintro ⟨rfl, rfl⟩
      exact Option.some.inj ((find_id_of_answer h).symm.trans (find_id_of_answer h'))
  · exact fun base kind answer h => ⟨hnever base kind answer h,
      fun address kind' answer' h' he => hnever base kind answer h address kind'
        (he ▸ find_id_of_answer h')⟩
  · exact (requests_serveAll empty calls).trans (Nat.zero_add _)
  · have hadd := countOf_add (empty.serveAll calls : Cache Tree Value Listener)
    have heval := countOf_eval_serveAll (empty : Cache Tree Value Listener) calls
    rw [show (empty : Cache Tree Value Listener).countOf .eval = 0 from rfl, Nat.zero_add] at heval
    exact (heval ▸ hadd).symm

end Cache

end UnitLoader
