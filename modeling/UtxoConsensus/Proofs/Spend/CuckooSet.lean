import Mathlib.Data.List.GetD
import UtxoConsensus.Spend.Cache

/-!
# What a cuckoo set holds

The set is looked at slot by slot: an entry is stored if some slot holds it. Filling a slot and
releasing one have an equation each, and an insertion, however many entries it moves, only fills
slots with the new entry and with entries that were stored before. So nothing can be found that was
never inserted. In the other direction, an entry is found right after its insertion if one of its
slots was free.
-/

namespace UtxoConsensus.CuckooSet

def Stored (s : CuckooSet) (entry : Hash256) : Prop :=
  ∃ location, s.holds entry location = true

theorem not_stored_withCapacity (elements : Nat) (entry : Hash256) :
    ¬ (withCapacity elements).Stored entry := by
  rintro ⟨location, h⟩
  simp [holds, withCapacity] at h

/-! ## Slots -/

theorem holds_put (s : CuckooSet) (location other : Nat) (entry old : Hash256) :
    (s.put location entry).holds old other =
      if location = other then entry == old else s.holds old other := by
  unfold holds put
  rw [Std.HashMap.getElem?_insert]
  by_cases h : location = other
  · simp [h]
  · simp [h]

theorem holds_put_self_iff {s : CuckooSet} {location other : Nat} {entry : Hash256} :
    (s.put location entry).holds entry other = true ↔
      location = other ∨ s.holds entry other = true := by
  rw [holds_put]
  by_cases h : location = other
  · simp [h]
  · simp [h]

theorem holds_put_iff_of_ne {s : CuckooSet} {location other : Nat} {entry old : Hash256}
    (hne : entry ≠ old) :
    (s.put location entry).holds old other = true ↔
      location ≠ other ∧ s.holds old other = true := by
  rw [holds_put]
  by_cases h : location = other
  · simp [h, hne]
  · simp [h]

/-- A released slot keeps its entry until it is overwritten. -/
@[simp] theorem holds_release (s : CuckooSet) (location other : Nat) (entry : Hash256) :
    (s.release location).holds entry other = s.holds entry other := by
  unfold holds release
  rw [Std.HashMap.getElem?_modify]
  by_cases h : location = other
  · subst h
    cases s.slots[location]? <;> simp
  · simp [h]

theorem isFree_put (s : CuckooSet) (location other : Nat) (entry : Hash256) :
    (s.put location entry).isFree other = if location = other then false else s.isFree other := by
  unfold isFree put
  rw [Std.HashMap.getElem?_insert]
  by_cases h : location = other
  · simp [h]
  · simp [h]

theorem isFree_release (s : CuckooSet) (location other : Nat) :
    (s.release location).isFree other = if location = other then true else s.isFree other := by
  unfold isFree release
  rw [Std.HashMap.getElem?_modify]
  by_cases h : location = other
  · subst h
    cases s.slots[location]? <;> simp
  · simp [h]

@[simp] theorem size_put (s : CuckooSet) (location : Nat) (entry : Hash256) :
    (s.put location entry).size = s.size := rfl

@[simp] theorem size_release (s : CuckooSet) (location : Nat) :
    (s.release location).size = s.size := rfl

/-- The candidate slots depend on the size of the set alone. -/
theorem locations_congr {s t : CuckooSet} (h : s.size = t.size) (entry : Hash256) :
    s.locations entry = t.locations entry := by
  simp only [locations, h]

@[simp] theorem length_locations (s : CuckooSet) (entry : Hash256) :
    (s.locations entry).length = slotsPerEntry := by
  unfold locations
  rw [List.length_map, Bytes.length_blocks (by omega), entry.length_bytes]
  rfl

theorem locations_ne_nil (s : CuckooSet) (entry : Hash256) : s.locations entry ≠ [] :=
  List.ne_nil_of_length_pos (by rw [length_locations]; exact Nat.succ_pos 7)

/-- An entry moves on among its own slots. -/
theorem nextLocation_mem (s : CuckooSet) (entry : Hash256) (last : Nat) :
    nextLocation (s.locations entry) last ∈ s.locations entry := by
  have hnext : ((s.locations entry).idxOf? last).elim 0 (fun i ↦ (i + 1) % slotsPerEntry) <
      (s.locations entry).length := by
    rw [length_locations]
    cases (s.locations entry).idxOf? last with
    | none => exact Nat.succ_pos 7
    | some i => exact Nat.mod_lt _ (Nat.succ_pos 7)
  unfold nextLocation
  rw [List.getD_eq_getElem _ _ hnext]
  exact List.getElem_mem hnext

theorem stored_put {s : CuckooSet} {location : Nat} {entry old : Hash256}
    (h : (s.put location entry).Stored old) : old = entry ∨ s.Stored old := by
  obtain ⟨other, hother⟩ := h
  rw [holds_put] at hother
  split at hother
  · exact .inl (eq_of_beq hother).symm
  · exact .inr ⟨other, hother⟩

/-! ## Look-up -/

/-- A look-up tries the slots of the entry. -/
theorem contains_fst_iff (s : CuckooSet) (entry : Hash256) (erase : Bool) :
    (s.contains entry erase).1 = true ↔ ∃ location ∈ s.locations entry, s.holds entry location := by
  unfold contains
  cases h : (s.locations entry).find? (s.holds entry) with
  | none =>
    rw [List.find?_eq_none] at h
    simpa using h
  | some location =>
    have hholds := List.find?_some h
    exact ⟨fun _ ↦ ⟨location, List.mem_of_find?_eq_some h, hholds⟩, fun _ ↦ rfl⟩

theorem stored_of_contains {s : CuckooSet} {entry : Hash256} {erase : Bool}
    (h : (s.contains entry erase).1 = true) : s.Stored entry := by
  obtain ⟨location, _, hholds⟩ := (contains_fst_iff s entry erase).1 h
  exact ⟨location, hholds⟩

/-- A look-up may release a slot, but stores nothing and loses nothing. -/
@[simp] theorem holds_contains_snd (s : CuckooSet) (entry old : Hash256) (erase : Bool)
    (location : Nat) : (s.contains entry erase).2.holds old location = s.holds old location := by
  unfold contains
  split
  · cases erase <;> simp
  · rfl

@[simp] theorem contains_snd_keep (s : CuckooSet) (entry : Hash256) :
    (s.contains entry false).2 = s := by
  unfold contains
  split <;> rfl

/-- Also a look-up that erases leaves the entries in their slots. -/
@[simp] theorem stored_contains_snd (s : CuckooSet) (entry old : Hash256) (erase : Bool) :
    (s.contains entry erase).2.Stored old ↔ s.Stored old := by
  simp [Stored]

@[simp] theorem size_contains_snd (s : CuckooSet) (entry : Hash256) (erase : Bool) :
    (s.contains entry erase).2.size = s.size := by
  unfold contains
  split
  · cases erase <;> simp
  · rfl

/-! ## Insertion -/

/-- The slot that an entry takes without driving out another: the first of its slots that is free or
holds it already. -/
def vacancy? (s : CuckooSet) (entry : Hash256) : Option Nat :=
  (s.locations entry).find? fun location ↦ s.isFree location || s.holds entry location

theorem exists_vacancy {s : CuckooSet} {entry : Hash256} {location : Nat}
    (hmem : location ∈ s.locations entry)
    (hopen : (s.isFree location || s.holds entry location) = true) :
    ∃ found, s.vacancy? entry = some found :=
  Option.isSome_iff_exists.mp (List.find?_isSome.mpr ⟨location, hmem, hopen⟩)

/-- An entry is put into the first vacancy. -/
theorem insertFrom_of_vacancy {s : CuckooSet} {entry : Hash256} {location : Nat}
    (h : s.vacancy? entry = some location) (last depth : Nat) :
    s.insertFrom entry last (depth + 1) = s.put location entry := by
  unfold vacancy? at h
  simp only [insertFrom, h]

/-- Without a vacancy all slots are taken by others. -/
theorem taken_of_no_vacancy {s : CuckooSet} {entry : Hash256} (h : s.vacancy? entry = none) :
    ∀ location ∈ s.locations entry, s.isFree location = false ∧ s.holds entry location = false := by
  simpa [vacancy?] using h

/-- Without a vacancy another entry is moved out, and it is inserted in turn. -/
theorem insertFrom_of_no_vacancy {s : CuckooSet} {entry : Hash256} (h : s.vacancy? entry = none)
    (last depth : Nat) :
    ∃ location ∈ s.locations entry, ∃ slot, s.slots[location]? = some slot ∧
      s.insertFrom entry last (depth + 1) =
        (s.put location entry).insertFrom slot.entry location depth := by
  have hmem := nextLocation_mem s entry last
  obtain ⟨slot, hslot⟩ : ∃ slot, s.slots[nextLocation (s.locations entry) last]? = some slot := by
    have hfree := (taken_of_no_vacancy h _ hmem).1
    unfold isFree at hfree
    exact Option.ne_none_iff_exists'.1 fun h ↦ by simp [h] at hfree
  refine ⟨_, hmem, slot, hslot, ?_⟩
  unfold vacancy? at h
  simp only [insertFrom, h, hslot]

/-- One move of an insertion: the entry takes a slot that is free or holds it already, or it drives
another entry out of one of its own slots, which is inserted in turn. -/
theorem insertFrom_succ (s : CuckooSet) (entry : Hash256) (last depth : Nat) :
    (∃ location ∈ s.locations entry, (s.isFree location || s.holds entry location) = true ∧
      s.insertFrom entry last (depth + 1) = s.put location entry) ∨
    (∃ location ∈ s.locations entry, ∃ slot, s.slots[location]? = some slot ∧
      (∀ l ∈ s.locations entry, s.isFree l = false ∧ s.holds entry l = false) ∧
      s.insertFrom entry last (depth + 1) =
        (s.put location entry).insertFrom slot.entry location depth) := by
  cases hvacancy : s.vacancy? entry with
  | some location =>
    have hfound := List.find?_some hvacancy
    exact .inl ⟨location, List.mem_of_find?_eq_some hvacancy, hfound,
      insertFrom_of_vacancy hvacancy last depth⟩
  | none =>
    obtain ⟨location, hmem, slot, hslot, heq⟩ := insertFrom_of_no_vacancy hvacancy last depth
    exact .inr ⟨location, hmem, slot, hslot, taken_of_no_vacancy hvacancy, heq⟩

/-- However often entries are moved, nothing is stored but the new entry and what was stored
before. -/
theorem stored_insertFrom {s : CuckooSet} {entry old : Hash256} {last depth : Nat}
    (h : (s.insertFrom entry last depth).Stored old) : old = entry ∨ s.Stored old := by
  induction depth generalizing s entry last with
  | zero => exact .inr h
  | succ depth ih =>
    obtain ⟨location, _, _, heq⟩ | ⟨location, _, slot, hslot, _, heq⟩ :=
      insertFrom_succ s entry last depth
    · rw [heq] at h
      exact stored_put h
    · rw [heq] at h
      -- The entry that is driven out was stored in the slot that is taken.
      have hdriven : s.Stored slot.entry := ⟨location, by simp [holds, hslot]⟩
      rcases ih h with rfl | hput
      · exact .inr hdriven
      · exact stored_put hput

/-- Nothing is stored but the new entry and older ones. -/
theorem stored_insert {s : CuckooSet} {entry old : Hash256} (h : (s.insert entry).Stored old) :
    old = entry ∨ s.Stored old :=
  stored_insertFrom h

@[simp] theorem size_insertFrom (s : CuckooSet) (entry : Hash256) (last depth : Nat) :
    (s.insertFrom entry last depth).size = s.size := by
  induction depth generalizing s entry last with
  | zero => rfl
  | succ depth ih =>
    obtain ⟨_, _, _, heq⟩ | ⟨_, _, _, _, _, heq⟩ := insertFrom_succ s entry last depth
    · rw [heq, size_put]
    · rw [heq, ih, size_put]

@[simp] theorem size_insert (s : CuckooSet) (entry : Hash256) : (s.insert entry).size = s.size :=
  size_insertFrom s entry _ _

theorem insert_of_vacancy {s : CuckooSet} {entry : Hash256} {location : Nat}
    (h : s.vacancy? entry = some location) : s.insert entry = s.put location entry :=
  insertFrom_of_vacancy h _ _

/-- An entry that finds a free slot, or itself, is found afterwards. -/
theorem contains_insert_of_free {s : CuckooSet} {entry : Hash256} {location : Nat}
    (hmem : location ∈ s.locations entry)
    (hfree : (s.isFree location || s.holds entry location) = true) (erase : Bool) :
    ((s.insert entry).contains entry erase).1 = true := by
  obtain ⟨found, hfound⟩ := exists_vacancy hmem hfree
  rw [insert_of_vacancy hfound, contains_fst_iff, locations_congr (size_put s found entry)]
  exact ⟨found, List.mem_of_find?_eq_some hfound, by simp [holds_put]⟩

theorem isFree_withCapacity (elements location : Nat) :
    (withCapacity elements).isFree location = true := by
  simp [isFree, withCapacity]

end UtxoConsensus.CuckooSet
