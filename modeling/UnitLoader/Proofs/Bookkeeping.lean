import UnitLoader.Proofs.Addressing
import UnitLoader.Proofs.Numbering
import UnitLoader.Table

/-! The bookkeeping of a table. Its keys, its serial number and its counters are kept beside
its units, and they stay in step with them: at any time they are what the units in their order
tell. So a table answers as the cache does that can be seen of it. -/

namespace UnitLoader

variable {Tree Value Listener : Type}

theorem insertKey_of_notMem {Key Value : Type} [BEq Key] [LawfulBEq Key] {key : Key}
    {entries : List (Key × Value)} (fresh : key ∉ entries.map (·.1)) (value : Value) :
    insertKey key value entries = entries ++ [(key, value)] := by
  induction entries with
  | nil => rfl
  | cons entry rest ih =>
    rw [List.map_cons, List.mem_cons, not_or] at fresh
    rw [insertKey, if_neg (by simpa using Ne.symm fresh.1), ih fresh.2, List.cons_append]

theorem map_modify {α β : Type} {f : α → α} {g : α → β} {h : β → β}
    (comm : ∀ x, g (f x) = h (g x)) (l : List α) (i : Nat) :
    (l.modify i f).map g = (l.map g).modify i h := by
  induction l generalizing i with
  | nil => cases i <;> rfl
  | cons x l ih => cases i <;> simp [comm, ih]

theorem map_modify_of_same {α β : Type} {f : α → α} {g : α → β} (same : ∀ x, g (f x) = g x)
    (l : List α) (i : Nat) : (l.modify i f).map g = l.map g := by
  rw [map_modify (h := id) same, List.modify_id]

namespace UnitKey

/-- The key of a unit, with the serial number that it has if it was made from given text. -/
def ofUnit (serial : Nat) (u : SourceUnit Tree Value Listener) : UnitKey :=
  match u.origin with
  | .load => .address u.address u.kind
  | .eval => .eval serial

/-- The keys of units in the order of their discovery. -/
def ofUnits (serial : Nat) : List (SourceUnit Tree Value Listener) → List UnitKey
  | [] => []
  | u :: units => ofUnit serial u :: ofUnits (serial + if u.origin = .eval then 1 else 0) units

theorem beq_ofUnit (address : String) (kind : Kind) (serial : Nat)
    (u : SourceUnit Tree Value Listener) :
    (UnitKey.address address kind == ofUnit serial u) = Cache.isAt address kind u := by
  rw [Bool.eq_iff_iff, beq_iff_eq]
  cases ho : u.origin with
  | load => simp [ofUnit, Cache.isAt, ho, eq_comm (a := u.address), eq_comm (a := u.kind)]
  | eval => simp [ofUnit, Cache.isAt, ho]

theorem eval_eq_ofUnit_iff {serial n : Nat} {u : SourceUnit Tree Value Listener} :
    .eval n = ofUnit serial u ↔ u.origin = .eval ∧ n = serial := by
  cases ho : u.origin <;> simp [ofUnit, ho]

theorem length_ofUnits (serial : Nat) (units : List (SourceUnit Tree Value Listener)) :
    (ofUnits serial units).length = units.length := by
  induction units generalizing serial with
  | nil => rfl
  | cons u units ih => rw [ofUnits, List.length_cons, ih, List.length_cons]

theorem ofUnits_append (serial : Nat) (units more : List (SourceUnit Tree Value Listener)) :
    ofUnits serial (units ++ more) = ofUnits serial units ++
      ofUnits (serial + units.countP (·.origin = .eval)) more := by
  induction units generalizing serial with
  | nil => rfl
  | cons u units ih =>
    simp only [List.cons_append, ofUnits, ih, List.countP_cons, decide_eq_true_eq]
    rw [Nat.add_assoc, Nat.add_comm (List.countP _ units)]

theorem of_eval_mem {serial n : Nat} {units : List (SourceUnit Tree Value Listener)}
    (h : .eval n ∈ ofUnits serial units) :
    serial ≤ n ∧ n < serial + units.countP (·.origin = .eval) := by
  induction units generalizing serial with
  | nil => cases h
  | cons u units ih =>
    simp only [List.countP_cons, decide_eq_true_eq]
    rcases List.mem_cons.mp h with he | h
    · obtain ⟨ho, rfl⟩ := eval_eq_ofUnit_iff.mp he
      rw [if_pos ho]
      omega
    · have := ih h
      omega

theorem exists_of_address_mem {serial : Nat} {units : List (SourceUnit Tree Value Listener)}
    {address : String} {kind : Kind} (h : .address address kind ∈ ofUnits serial units) :
    ∃ u ∈ units, Cache.isAt address kind u = true := by
  induction units generalizing serial with
  | nil => cases h
  | cons u units ih =>
    rcases List.mem_cons.mp h with he | h
    · exact ⟨u, List.mem_cons_self, (beq_ofUnit address kind serial u).symm.trans (beq_iff_eq.mpr he)⟩
    · obtain ⟨v, hv, hat⟩ := ih h
      exact ⟨v, List.mem_cons_of_mem _ hv, hat⟩

/-- Where no two units that were asked for are at one address, no two units have one key. -/
theorem nodup_ofUnits (serial : Nat) {units : List (SourceUnit Tree Value Listener)}
    (apart : units.Pairwise fun u v => v.origin = .load →
      Cache.isAt v.address v.kind u = false) : (ofUnits serial units).Nodup := by
  induction units generalizing serial with
  | nil => exact List.nodup_nil
  | cons u units ih =>
    obtain ⟨hfirst, hrest⟩ := List.pairwise_cons.mp apart
    refine List.nodup_cons.mpr ⟨fun hmem => ?_, ih _ hrest⟩
    cases ho : u.origin with
    | load =>
      rw [ofUnit, ho] at hmem
      obtain ⟨v, hv, hat⟩ := exists_of_address_mem hmem
      simp only [Cache.isAt, Bool.and_eq_true, decide_eq_true_eq] at hat
      have hnot := hfirst v hv hat.1.1
      simp [Cache.isAt, ho, hat] at hnot
    | eval =>
      rw [ofUnit, ho, if_pos rfl] at hmem
      have := (of_eval_mem hmem).1
      omega

theorem ofUnits_modify {f : SourceUnit Tree Value Listener → SourceUnit Tree Value Listener}
    (place : ∀ u, (f u).address = u.address ∧ (f u).kind = u.kind ∧ (f u).origin = u.origin)
    (serial : Nat) (units : List (SourceUnit Tree Value Listener)) (i : Nat) :
    ofUnits serial (units.modify i f) = ofUnits serial units := by
  have hkey (serial : Nat) (u : SourceUnit Tree Value Listener) :
      ofUnit serial (f u) = ofUnit serial u := by
    rw [ofUnit, ofUnit, (place u).1, (place u).2.1, (place u).2.2]
  induction units generalizing serial i with
  | nil => cases i <;> rfl
  | cons u units ih =>
    cases i with
    | zero => rw [List.modify_zero_cons, ofUnits, ofUnits, hkey, (place u).2.2]
    | succ i => rw [List.modify_succ_cons, ofUnits, ofUnits, ih]

/-- The key of an address and kind leads to the first unit that is there. -/
theorem lookup_zip_ofUnits (serial : Nat) (units : List (SourceUnit Tree Value Listener))
    (ids : List UnitId) (length : ids.length = units.length) (address : String) (kind : Kind) :
    ((ofUnits serial units).zip ids).lookup (.address address kind) =
      (units.findIdx? (Cache.isAt address kind)).bind (ids[·]?) := by
  induction units generalizing serial ids with
  | nil => rfl
  | cons u units ih =>
    obtain ⟨id, ids, rfl⟩ := List.exists_cons_of_length_eq_add_one length
    rw [ofUnits, List.zip_cons_cons, List.lookup_cons, beq_ofUnit, List.findIdx?_cons,
      ih _ ids (Nat.succ.inj length)]
    cases Cache.isAt address kind u with
    | true => rfl
    | false =>
      rw [if_neg Bool.false_ne_true, Option.bind_map]
      rfl

end UnitKey

namespace Table

variable {t : Table Tree Value Listener} {call : Cache.Call} {calls : List Cache.Call}
  {answer : Found Tree Value Listener} {address : String} {kind : Kind}

/-- What a caller sees of an answer. -/
def Found.view (found : Found Tree Value Listener) : Cache.Found Tree Value Listener :=
  ⟨found.id, found.created, found.table.view⟩

def serve (t : Table Tree Value Listener) : Cache.Call → Found Tree Value Listener
  | .find address kind => t.getOrInsert address kind
  | .give base kind => t.insertEval base kind

/-- Calls that are made one after another, with their answers. -/
def answers (t : Table Tree Value Listener) :
    List Cache.Call → List (Cache.Call × Found Tree Value Listener)
  | [] => []
  | call :: rest => (call, t.serve call) :: (t.serve call).table.answers rest

/-- The table that calls leave behind. -/
def serveAll (t : Table Tree Value Listener) (calls : List Cache.Call) :
    Table Tree Value Listener :=
  calls.foldl (fun t call => (t.serve call).table) t

/-- Every unit carries its number and is stored under its key, and no key occurs twice. -/
structure Keyed (t : Table Tree Value Listener) : Prop where
  numbered : t.entries.map (·.id) = t.ids
  keyed : t.keys = (UnitKey.ofUnits 0 t.units).zip t.ids
  distinct : (t.keys.map (·.1)).Nodup

/-- What is kept beside the units is what the units tell. -/
structure InStep (t : Table Tree Value Listener) : Prop extends t.Keyed where
  serial : t.nextEval = t.view.countOf .eval
  missed : t.misses = t.view.countOf .load

/-! ### A table in step -/

theorem length_ids (t : Table Tree Value Listener) : t.ids.length = t.units.length := by
  simp [ids, units, size]

theorem size_view (t : Table Tree Value Listener) : t.view.size = t.size := by
  simp [Cache.size, view, units, size]

theorem ids_getElem? {i : Nat} (h : i < t.size) : t.ids[i]? = some ⟨i⟩ := by
  simp [ids, h]

namespace Keyed

theorem keys_map (h : t.Keyed) : t.keys.map (·.1) = UnitKey.ofUnits 0 t.units := by
  rw [h.keyed, List.map_fst_zip (by rw [UnitKey.length_ofUnits, length_ids])]

/-- A table finds what can be seen to be there. -/
theorem lookup (h : t.Keyed) (address : String) (kind : Kind) :
    t.lookup address kind = t.view.lookup address kind := by
  rw [Table.lookup, h.keyed, UnitKey.lookup_zip_ofUnits 0 _ _ t.length_ids, Cache.lookup, view]
  cases hi : t.units.findIdx? (Cache.isAt address kind) with
  | none => rfl
  | some i =>
    obtain ⟨hlt, -⟩ := List.findIdx?_eq_some_iff_getElem.mp hi
    exact ids_getElem? (by simpa [units, size] using hlt)

theorem get? (h : t.Keyed) (id : UnitId) :
    t.get? id = (t.view.get? id).map (⟨id, ·⟩) := by
  have hid : (t.entries.map (·.id))[id.index]? = t.ids[id.index]? := by rw [h.numbered]
  rw [Table.get?, Cache.get?, view, units, List.getElem?_map, Option.map_map]
  rw [List.getElem?_map] at hid
  cases he : t.entries[id.index]? with
  | none => rfl
  | some e =>
    obtain ⟨hlt, -⟩ := List.getElem?_eq_some_iff.mp he
    rw [he, ids_getElem? hlt] at hid
    obtain rfl : e.id = id := Option.some.inj hid
    rfl

/-- A unit that is added under its key, a new one, is numbered and stored as the others. -/
theorem push (h : t.Keyed) {key : UnitKey} {address : String} {kind : Kind} {origin : Origin}
    (fresh : key ∉ t.keys.map (·.1))
    (own : key = UnitKey.ofUnit (t.view.countOf .eval)
      (.new address kind origin : SourceUnit Tree Value Listener)) :
    (t.push key address kind origin).table.Keyed := by
  have hids : (t.push key address kind origin).table.ids = t.ids ++ [⟨t.size⟩] := by
    simp [Table.push, ids, size, List.range_succ]
  refine ⟨?_, ?_, ?_⟩
  · rw [hids, ← h.numbered]
    simp [Table.push]
  · have hkeys := UnitKey.ofUnits_append 0 t.units [.new address kind origin]
    rw [Nat.zero_add] at hkeys
    have hunits : (t.push key address kind origin).table.units =
        t.units ++ [.new address kind origin] := by simp [Table.push, units]
    rw [hunits, hids, hkeys, List.zip_append (by rw [UnitKey.length_ofUnits, length_ids]),
      ← h.keyed]
    show insertKey key _ t.keys = _
    rw [insertKey_of_notMem fresh, own]
    rfl
  · show ((insertKey key _ t.keys).map (·.1)).Nodup
    rw [insertKey_of_notMem fresh, List.map_append]
    exact List.nodup_append_comm.mp (List.nodup_cons.mpr ⟨fresh, h.distinct⟩)

end Keyed

theorem InStep.stats (h : t.InStep) : t.stats = t.view.stats := by
  rw [Table.stats, Cache.stats, h.missed, size_view]
  rfl

theorem areAll_view (t : Table Tree Value Listener) (p : State → Bool) :
    t.view.areAll p = t.areAll p := by
  simp [Cache.areAll, areAll, view, units, List.all_map, Function.comp_def]

theorem hasAny_view (t : Table Tree Value Listener) (p : State → Bool) :
    t.view.hasAny p = t.hasAny p := by
  simp [Cache.hasAny, hasAny, view, units, List.any_map, Function.comp_def]

/-- A table in step is told by what can be seen of it. -/
theorem InStep.ext {t' : Table Tree Value Listener} (h : t.InStep) (h' : t'.InStep)
    (same : t.view = t'.view) : t = t' := by
  have hget (id : UnitId) : t.get? id = t'.get? id := by rw [h.get?, h'.get?, same]
  have hentries : t.entries = t'.entries := List.ext_getElem? fun i => hget ⟨i⟩
  have hids : t.ids = t'.ids := by rw [ids, ids, size, size, hentries]
  have hunits : t.units = t'.units := congrArg (·.units) same
  have hkeys : t.keys = t'.keys := by rw [h.keyed, h'.keyed, hids, hunits]
  have hserial : t.nextEval = t'.nextEval := by rw [h.serial, h'.serial, same]
  have hhits : t.hits = t'.hits := congrArg (·.hits) same
  have hmisses : t.misses = t'.misses := by rw [h.missed, h'.missed, same]
  cases t
  cases t'
  simp only at hentries hkeys hserial hhits hmisses
  rw [hentries, hkeys, hserial, hhits, hmisses]

theorem inStep_empty : (empty : Table Tree Value Listener).InStep :=
  ⟨⟨rfl, rfl, List.nodup_nil⟩, rfl, rfl⟩

theorem view_push (t : Table Tree Value Listener) (key : UnitKey) (address : String) (kind : Kind)
    (origin : Origin) : (t.push key address kind origin).view =
      ⟨⟨t.size⟩, true, t.view.push (.new address kind origin)⟩ := by
  simp [Found.view, push, view, units, Cache.push]

/-- The table that stores the units of a cache, as they tell it. -/
def ofCache (c : Cache Tree Value Listener) : Table Tree Value Listener :=
  ⟨(c.ids.zip c.units).map fun numbered => ⟨numbered.1, numbered.2⟩,
    (UnitKey.ofUnits 0 c.units).zip c.ids, c.countOf .eval, c.hits, c.countOf .load⟩

theorem view_ofCache (c : Cache Tree Value Listener) : (ofCache c).view = c := by
  have hlength : c.units.length ≤ c.ids.length := by simp [Cache.ids, Cache.size]
  rw [view, units, ofCache, List.map_map]
  exact congrArg (Cache.mk · c.hits) (List.map_snd_zip hlength)

/-- A cache in which each unit that was asked for is found again is seen of a table in step. -/
theorem inStep_ofCache {c : Cache Tree Value Listener}
    (finds : ∀ id u, c.get? id = some u → u.origin = .load →
      c.lookup u.address u.kind = some id) : (ofCache c).InStep := by
  have hlength : c.ids.length = c.units.length := by simp [Cache.ids, Cache.size]
  have hunits : (ofCache c).units = c.units := congrArg (·.units) (view_ofCache c)
  have hids : (ofCache c).ids = c.ids := by
    rw [ids, ← size_view, view_ofCache]
    rfl
  have hdistinct : (UnitKey.ofUnits 0 c.units).Nodup := by
    refine UnitKey.nodup_ofUnits 0 (List.pairwise_iff_getElem.mpr fun i j hi hj hij load => ?_)
    have hfound := finds ⟨j⟩ c.units[j] (List.getElem?_eq_getElem hj) load
    obtain ⟨k, hk, he⟩ := Option.map_eq_some_iff.mp hfound
    obtain rfl := UnitId.mk.inj he
    obtain ⟨_, _, hbefore⟩ := List.findIdx?_eq_some_iff_getElem.mp hk
    simpa using hbefore i hij
  refine ⟨⟨?_, ?_, ?_⟩, ?_, ?_⟩
  · rw [hids, ofCache, List.map_map]
    exact List.map_fst_zip hlength.le
  · rw [hids, hunits]
    rfl
  · rw [ofCache, List.map_fst_zip (by rw [UnitKey.length_ofUnits, hlength])]
    exact hdistinct
  · rw [view_ofCache]
    rfl
  · rw [view_ofCache]
    rfl

/-! ### One call -/

theorem view_serve (h : t.InStep) (call : Cache.Call) :
    (t.serve call).view = t.view.serve call := by
  cases call with
  | find address kind =>
    have hlookup := h.lookup address kind
    simp only [serve, getOrInsert, Cache.serve, Cache.getOrInsert, ← hlookup]
    cases t.lookup address kind with
    | some id => rfl
    | none => rw [view_push, size_view]; rfl
  | give base kind =>
    simp only [serve, insertEval, Cache.serve, Cache.insertEval, Cache.nextEvalAddress, ← h.serial]
    rw [view_push, size_view]
    rfl

theorem countOf_push (t : Table Tree Value Listener) (key : UnitKey) (address : String)
    (kind : Kind) (origin counted : Origin) :
    (t.push key address kind origin).table.view.countOf counted =
      t.view.countOf counted + if origin = counted then 1 else 0 := by
  have hview := congrArg (·.cache.countOf counted) (t.view_push key address kind origin)
  exact hview.trans (Cache.countOf_push _ _ _)

/-- An address that leads nowhere has no key. -/
theorem notMem_of_lookup (h : t.lookup address kind = none) :
    UnitKey.address address kind ∉ t.keys.map (·.1) := by
  intro hmem
  obtain ⟨entry, hentry, hkey⟩ := List.mem_map.mp hmem
  have hne := List.lookup_eq_none_iff.mp h entry hentry
  simp [hkey] at hne

/-- The next serial number has no key so far. -/
theorem InStep.notMem (h : t.InStep) : UnitKey.eval t.nextEval ∉ t.keys.map (·.1) := by
  intro hmem
  rw [h.keys_map] at hmem
  have hlt := (UnitKey.of_eval_mem hmem).2
  rw [Nat.zero_add, h.serial] at hlt
  exact lt_irrefl _ hlt

theorem InStep.serve (h : t.InStep) (call : Cache.Call) : (t.serve call).table.InStep := by
  cases call with
  | find address kind =>
    simp only [Table.serve, getOrInsert]
    cases hl : t.lookup address kind with
    | some id => exact ⟨⟨h.numbered, h.keyed, h.distinct⟩, h.serial, h.missed⟩
    | none =>
      have hkeyed : ({ t with misses := t.misses + 1 } : Table Tree Value Listener).Keyed :=
        ⟨h.numbered, h.keyed, h.distinct⟩
      refine ⟨hkeyed.push (notMem_of_lookup hl) rfl, ?_, ?_⟩
      · rw [countOf_push]
        exact h.serial
      · rw [countOf_push]
        exact congrArg (· + 1) h.missed
  | give base kind =>
    simp only [Table.serve, insertEval]
    have hkeyed : ({ t with nextEval := t.nextEval + 1 } : Table Tree Value Listener).Keyed :=
      ⟨h.numbered, h.keyed, h.distinct⟩
    refine ⟨hkeyed.push h.notMem (congrArg UnitKey.eval h.serial), ?_, ?_⟩
    · rw [countOf_push]
      exact congrArg (· + 1) h.serial
    · rw [countOf_push]
      exact h.missed

theorem units_modify (t : Table Tree Value Listener) (id : UnitId)
    (f : SourceUnit Tree Value Listener → SourceUnit Tree Value Listener) :
    (t.modify id f).units = t.units.modify id.index f :=
  map_modify (f := NumberedUnit.change f) (g := NumberedUnit.unit) (fun _ => rfl) t.entries id.index

theorem view_modify (t : Table Tree Value Listener) (id : UnitId)
    (f : SourceUnit Tree Value Listener → SourceUnit Tree Value Listener) :
    (t.modify id f).view = t.view.modify id f := by
  rw [view, units_modify]
  rfl

/-- A change of a unit that leaves it in its place leaves the table in step. -/
theorem InStep.modify (h : t.InStep) (id : UnitId)
    {f : SourceUnit Tree Value Listener → SourceUnit Tree Value Listener}
    (place : ∀ u, (f u).address = u.address ∧ (f u).kind = u.kind ∧ (f u).origin = u.origin) :
    (t.modify id f).InStep := by
  have horigins : (t.modify id f).units.map (·.origin) = t.units.map (·.origin) := by
    rw [units_modify, map_modify_of_same fun u => (place u).2.2]
  have hcount (origin : Origin) :
      (t.modify id f).view.countOf origin = t.view.countOf origin := by
    have hcount := congrArg (List.countP (· = origin)) horigins
    rwa [List.countP_map, List.countP_map] at hcount
  have hids : (t.modify id f).ids = t.ids := by simp [ids, size, Table.modify]
  refine ⟨⟨?_, ?_, h.distinct⟩, h.serial.trans (hcount _).symm, h.missed.trans (hcount _).symm⟩
  · rw [hids, ← h.numbered]
    exact map_modify_of_same (f := NumberedUnit.change f) (g := NumberedUnit.id) (fun _ => rfl)
      t.entries id.index
  · rw [hids, units_modify, UnitKey.ofUnits_modify place]
    exact h.keyed

/-! ### Calls one after another -/

theorem InStep.serveAll (h : t.InStep) (calls : List Cache.Call) : (t.serveAll calls).InStep := by
  induction calls generalizing t with
  | nil => exact h
  | cons call calls ih => exact ih (h.serve call)

theorem view_serveAll (h : t.InStep) (calls : List Cache.Call) :
    (t.serveAll calls).view = t.view.serveAll calls := by
  induction calls generalizing t with
  | nil => rfl
  | cons call calls ih =>
    have hview : (t.serve call).table.view = (t.view.serve call).cache :=
      congrArg (·.cache) (view_serve h call)
    exact (ih (h.serve call)).trans (by rw [hview]; rfl)

theorem view_answers (h : t.InStep) (calls : List Cache.Call) :
    (t.answers calls).map (fun served => (served.1, served.2.view)) = t.view.answers calls := by
  induction calls generalizing t with
  | nil => rfl
  | cons call calls ih =>
    have hview := view_serve h call
    have hrest : (t.serve call).table.view = (t.view.serve call).cache := congrArg (·.cache) hview
    rw [answers, List.map_cons, ih (h.serve call), hrest, hview]
    rfl

theorem entries_serve (t : Table Tree Value Listener) (call : Cache.Call) :
    t.entries <+: (t.serve call).table.entries := by
  cases call with
  | find address kind =>
    simp only [serve, getOrInsert]
    cases t.lookup address kind with
    | some id => exact List.prefix_rfl
    | none => exact List.prefix_append _ _
  | give base kind => exact List.prefix_append _ _

theorem entries_serveAll (t : Table Tree Value Listener) (calls : List Cache.Call) :
    t.entries <+: (t.serveAll calls).entries := by
  induction calls generalizing t with
  | nil => exact List.prefix_rfl
  | cons call calls ih => exact (t.entries_serve call).trans (ih _)

/-- Whatever was stored when a call was answered is stored still, in its place. -/
theorem entries_of_answer (h : (call, answer) ∈ t.answers calls) :
    answer.table.entries <+: (t.serveAll calls).entries := by
  induction calls generalizing t with
  | nil => cases h
  | cons first calls ih =>
    rcases List.mem_cons.mp h with he | h
    · obtain ⟨rfl, rfl⟩ := Prod.mk.inj he
      exact entries_serveAll _ calls
    · exact ih h

/-- What calls on a table that was empty at first are answered, and the table they leave. -/
structure Numbers (calls : List Cache.Call) (t : Table Tree Value Listener)
    (answers : List (Cache.Call × Found Tree Value Listener)) : Prop where
  inStep : t.InStep
  added : (answers.filter (·.2.created)).map (·.2.id) = t.ids
  kept : ∀ call answer, (call, answer) ∈ answers → answer.table.entries <+: t.entries
  lookup_iff : ∀ address kind id, t.lookup address kind = some id ↔
    ∃ answer, (Cache.Call.find address kind, answer) ∈ answers ∧ answer.id = id
  found : ∀ address kind answer, (Cache.Call.find address kind, answer) ∈ answers →
    ∃ e, t.get? answer.id = some e ∧ e.id = answer.id ∧
      e.unit.origin = .load ∧ e.unit.address = address ∧ e.unit.kind = kind
  apart : ∀ address kind answer address' kind' answer',
    (Cache.Call.find address kind, answer) ∈ answers →
      (Cache.Call.find address' kind', answer') ∈ answers →
        (answer.id = answer'.id ↔ address = address' ∧ kind = kind')
  created : ∀ base kind answer, (Cache.Call.give base kind, answer) ∈ answers →
    answer.created = true
  given : ∀ (i : Nat) base kind (answer : Found Tree Value Listener),
    (answers.filter (·.1.isGive))[i]? = some (Cache.Call.give base kind, answer) →
      t.get? answer.id = some ⟨answer.id, .new (base ++ "#eval-" ++ toString i) kind .eval⟩
  hidden : ∀ base kind answer, (Cache.Call.give base kind, answer) ∈ answers →
    (∀ address kind', t.lookup address kind' ≠ some answer.id) ∧
      ∀ address kind' answer', (Cache.Call.find address kind', answer') ∈ answers →
        answer'.id ≠ answer.id
  serials : t.nextEval = calls.countP Cache.Call.isGive
  requests : t.stats.hits + t.stats.misses = calls.countP Cache.Call.isFind
  entries : t.stats.entries = t.stats.misses + calls.countP Cache.Call.isGive

/-- A table in step is used as what can be seen of it is. -/
theorem InStep.numbers (h : t.InStep)
    {answers : List (Cache.Call × Found Tree Value Listener)}
    (kept : ∀ call answer, (call, answer) ∈ answers → answer.table.entries <+: t.entries)
    (serials : t.view.countOf .eval = calls.countP Cache.Call.isGive)
    (seen : Cache.Numbers calls t.view
      (answers.map fun served => (served.1, served.2.view))) : Numbers calls t answers := by
  have hmem {call : Cache.Call} {answer : Found Tree Value Listener}
      (ha : (call, answer) ∈ answers) :
      (call, answer.view) ∈ answers.map fun served => (served.1, served.2.view) :=
    List.mem_map_of_mem ha
  refine ⟨h, ?_, kept, ?_, ?_, ?_, ?_, ?_, ?_, h.serial.trans serials, ?_, ?_⟩
  · have hadded := seen.numbered
    rw [List.filter_map, List.map_map, size_view] at hadded
    exact hadded
  · intro address kind id
    rw [h.lookup, seen.lookup_iff]
    constructor
    · rintro ⟨_, hseen, rfl⟩
      obtain ⟨⟨call, answer⟩, ha, he⟩ := List.mem_map.mp hseen
      obtain ⟨rfl, rfl⟩ := Prod.mk.inj he
      exact ⟨answer, ha, rfl⟩
    · rintro ⟨answer, ha, rfl⟩
      exact ⟨answer.view, hmem ha, rfl⟩
  · intro address kind answer ha
    obtain ⟨u, hu, horigin, haddress, hkind⟩ := seen.found address kind answer.view (hmem ha)
    refine ⟨⟨answer.id, u⟩, ?_, rfl, horigin, haddress, hkind⟩
    rw [h.get?]
    exact congrArg (Option.map _) hu
  · exact fun _ _ _ _ _ _ ha ha' => seen.distinct _ _ _ _ _ _ (hmem ha) (hmem ha')
  · exact fun base kind answer ha => seen.created base kind answer.view (hmem ha)
  · intro i base kind answer ha
    have hget := seen.given i base kind answer.view (by
      rw [List.filter_map, List.getElem?_map]
      exact congrArg (Option.map _) ha)
    rw [h.get?]
    exact congrArg (Option.map _) hget
  · intro base kind answer ha
    obtain ⟨hnever, hother⟩ := seen.hidden base kind answer.view (hmem ha)
    refine ⟨fun address kind' => ?_, fun address kind' answer' ha' => ?_⟩
    · rw [h.lookup]
      exact hnever address kind'
    · exact hother address kind' answer'.view (hmem ha')
  · rw [h.stats]
    exact seen.requests
  · rw [h.stats]
    exact seen.entries

/-- Whatever is asked of a table, and in whatever order, its numbers, its keys, its serial number
and its counters stay in step with its units. -/
theorem keeps_in_step (calls : List Cache.Call) :
    Numbers calls ((empty : Table Tree Value Listener).serveAll calls) (empty.answers calls) := by
  have hview : ((empty : Table Tree Value Listener).serveAll calls).view =
      Cache.empty.serveAll calls := view_serveAll inStep_empty calls
  have hanswers : ((empty : Table Tree Value Listener).answers calls).map
      (fun served => (served.1, served.2.view)) = Cache.empty.answers calls :=
    view_answers inStep_empty calls
  refine (inStep_empty.serveAll calls).numbers (fun _ _ => entries_of_answer) ?_ ?_
  · rw [hview, Cache.countOf_eval_serveAll]
    exact Nat.zero_add _
  · rw [hview, hanswers]
    exact Cache.numbers_serveAll calls

/-- A script is asked for where a given text gets its unit, before and after. -/
example : ((empty : Table Unit Unit Unit).serveAll [.find "/#eval-0" .script, .give "/" .script,
    .find "/#eval-0" .script]).keys = [(.address "/#eval-0" .script, ⟨0⟩), (.eval 0, ⟨1⟩)] := by
  decide

end Table

/-- At any time in any run, the units of a session are what can be seen of a table in step, and
of no other. -/
theorem Host.Run.existsUnique_table {ledger : List Registration} {h : Host Tree Value}
    (run : Host.Run ledger h) {loader : Nat} {s : Session Tree Value (UnitLoader.Listener Value)}
    (hs : h.session? loader = some s) :
    ∃! t : Table Tree Value (UnitLoader.Listener Value), t.InStep ∧ t.view = s.cache := by
  have hstep := Table.inStep_ofCache (run.findsLoaded hs)
  refine ⟨.ofCache s.cache, ⟨hstep, Table.view_ofCache _⟩, fun t ht => ?_⟩
  exact ht.1.ext hstep (ht.2.trans (Table.view_ofCache _).symm)

end UnitLoader
