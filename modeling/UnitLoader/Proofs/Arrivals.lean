import Mathlib.Data.List.Perm.Subperm
import UnitLoader.Proofs.Growth

/-! How many texts can arrive. The units that a session finds are modules with different
addresses, and a fetcher has texts for so many addresses and no more. -/

namespace UnitLoader

variable {Tree Value Listener : Type}

namespace Fetcher

/-- Whether no more addresses are answered with a text than the fetcher gives as its reach. -/
def Reaches (f : Fetcher) : Prop :=
  ∀ addresses : List String, addresses.Nodup → (∀ a ∈ addresses, ∃ text, f.answer a = .ok text) →
    addresses.length ≤ f.reach

theorem mem_of_answerFrom {sources : List (String × Except FetchError String)}
    {address text : String} (h : answerFrom sources address = .ok text) :
    address ∈ sources.map (·.1) := by
  simp only [answerFrom] at h
  cases hl : sources.reverse.lookup address with
  | none => simp [hl] at h
  | some answer =>
    obtain ⟨before, after, he, -⟩ := List.lookup_eq_some_iff.mp hl
    have hmem : (address, answer) ∈ sources := List.mem_reverse.mp (by simp [he])
    exact List.mem_map.mpr ⟨_, hmem, rfl⟩

theorem reaches_ofList (sources : List (String × Except FetchError String)) (prompt : Bool) :
    (ofList sources prompt).Reaches := by
  intro addresses hnodup hanswered
  have hsub : addresses ⊆ sources.map (·.1) := fun a ha => by
    obtain ⟨text, htext⟩ := hanswered a ha
    exact mem_of_answerFrom htext
  simpa [ofList] using (hnodup.subperm hsub).length_le

end Fetcher

namespace Session

variable {s t : Session Tree Value Listener} {id : UnitId}

/-- The units that have been read and wait for their batch. -/
def parsedIds (t : Session Tree Value Listener) : List UnitId :=
  t.cache.ids.filter (t.cache.isIn .parsed)

theorem mem_parsedIds : id ∈ t.parsedIds ↔ t.cache.isIn .parsed id = true := by
  refine List.mem_filter.trans (and_iff_right_of_imp fun h => ?_)
  obtain ⟨u, hu, -⟩ := Cache.isIn_iff.mp h
  exact Cache.mem_ids_of_get? hu

theorem nodup_parsedIds (t : Session Tree Value Listener) : t.parsedIds.Nodup :=
  t.cache.nodup_ids.filter _

/-- With each text that is read there is one parsed unit more. -/
theorem Takes.parsedIds_lt {u : SourceUnit Tree Value Listener} {text : String}
    {imports : List UnitId} (h : Takes s t id u text imports) (new : s.cache.isIn .parsed id = false) :
    s.parsedIds.length < t.parsedIds.length := by
  have hnodup : (id :: s.parsedIds).Nodup :=
    List.nodup_cons.mpr ⟨fun hm => by simp [mem_parsedIds, new] at hm, s.nodup_parsedIds⟩
  refine (hnodup.subperm fun j hj => mem_parsedIds.mpr ?_).length_le
  rcases List.mem_cons.mp hj with rfl | hj
  · exact Cache.isIn_iff.mpr ⟨_, h.unit, rfl⟩
  · obtain ⟨v, hv, hs⟩ := Cache.isIn_iff.mp (mem_parsedIds.mp hj)
    have hne : id ≠ j := by
      rintro rfl
      simp [Cache.isIn_eq hv, hs] at new
    exact Cache.isIn_iff.mpr ⟨v, h.other j v hne hv, hs⟩

theorem Arrives.answered {sources : Sources} {u v : SourceUnit Tree Value Listener}
    (h : Arrives sources s t u v) : ∃ text, sources u.address = .ok text := by
  cases h with
  | read answer => exact ⟨_, answer⟩

/-- The units that have been read and were not there at the start. -/
def lateParsedIds (s t : Session Tree Value Listener) : List UnitId :=
  t.parsedIds.filter fun id => !decide (id.index < s.cache.size)

/-- What was found on the way can be found again by its address, so no two are at the same. -/
theorem Grown.lateParsedIds_le {f : Fetcher} (g : Grown f.answer s t) (reaches : f.Reaches) :
    (lateParsedIds s t).length ≤ f.reach := by
  have hnew : ∀ id ∈ lateParsedIds s t,
      t.cache.lookup (t.cache.addressOf id) .module = some id ∧
        ∃ text, f.answer (t.cache.addressOf id) = .ok text := by
    intro id hid
    obtain ⟨hparsed, hlate⟩ := List.mem_filter.mp hid
    obtain ⟨v, hv, hs⟩ := Cache.isIn_iff.mp (mem_parsedIds.mp hparsed)
    have hnone : s.cache.get? id = none :=
      Cache.get?_eq_none_iff.mpr (by simpa using hlate)
    obtain ⟨hlookup, hunit⟩ := g.new hv hnone
    rw [Cache.addressOf_eq hv]
    refine ⟨hlookup, ?_⟩
    rcases hunit with he | harrives
    · rw [he] at hs
      cases hs
    · exact harrives.answered
  have hlate := reaches ((lateParsedIds s t).map t.cache.addressOf)
    (List.Nodup.map_on (fun i hi j hj he => by
      have hlookup := (hnew i hi).1
      rw [he, (hnew j hj).1] at hlookup
      exact (Option.some.inj hlookup).symm) (t.nodup_parsedIds.filter _))
    (fun a ha => by
      obtain ⟨id, hid, rfl⟩ := List.mem_map.mp ha
      exact (hnew id hid).2)
  rwa [List.length_map] at hlate

/-- The old units among those that have been read count on top of the new ones. -/
theorem Grown.parsedIds_le_of_old {f : Fetcher} (g : Grown f.answer s t)
    (reaches : f.Reaches) (old : List UnitId)
    (among : ∀ id ∈ t.parsedIds, id.index < s.cache.size → id ∈ old) :
    t.parsedIds.length ≤ old.length + f.reach := by
  have hsplit := List.length_eq_length_filter_add (l := t.parsedIds)
    fun id : UnitId => decide (id.index < s.cache.size)
  have hold : (t.parsedIds.filter fun id => id.index < s.cache.size).length ≤ old.length := by
    refine ((t.nodup_parsedIds.filter _).subperm fun id hid => ?_).length_le
    obtain ⟨hparsed, hlt⟩ := List.mem_filter.mp hid
    exact among id hparsed (by simpa using hlt)
  have hlate : (t.parsedIds.filter fun id => !decide (id.index < s.cache.size)).length ≤ f.reach :=
    g.lateParsedIds_le reaches
  omega

theorem Grown.parsedIds_le {f : Fetcher} (g : Grown f.answer s t) (reaches : f.Reaches) :
    t.parsedIds.length ≤ s.cache.size + f.reach := by
  have hle := g.parsedIds_le_of_old reaches s.cache.ids fun id _ hlt => by
    obtain ⟨u, hu⟩ := Cache.get?_of_index_lt hlt
    exact Cache.mem_ids_of_get? hu
  simpa [Cache.ids] using hle

end Session

end UnitLoader
