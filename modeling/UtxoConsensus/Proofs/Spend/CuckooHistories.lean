import UtxoConsensus.Proofs.Spend.CuckooSet

/-!
# Histories of a cuckoo set

Entries are inserted and looked up in any order. However many of them one insertion moves, it holds at
every moment all that was stored before and the new entry, but for the one that it has in hand, so that
at most one is lost at the end. Where the new entry finds a slot that is free, or itself, nothing is
moved at all, and only an entry whose slot was released can be overwritten. Every slot is filled by an
entry that may be there, which is why a look-up finds all that is stored.
-/

namespace UtxoConsensus

/-- An insertion, or a look-up that may release the slot in which the entry is found. -/
inductive CuckooOp where
  | insert (entry : Hash256)
  | contains (entry : Hash256) (erase : Bool)

namespace CuckooSet

def apply (s : CuckooSet) : CuckooOp → CuckooSet
  | .insert entry => s.insert entry
  | .contains entry erase => (s.contains entry erase).2

def applyAll (s : CuckooSet) (ops : List CuckooOp) : CuckooSet :=
  ops.foldl apply s

theorem applyAll_concat (s : CuckooSet) (ops : List CuckooOp) (op : CuckooOp) :
    s.applyAll (ops ++ [op]) = (s.applyAll ops).apply op := by
  unfold applyAll
  rw [List.foldl_append]
  rfl

/-- Every entry is in one of the slots that it may be in. -/
def IsPlaced (s : CuckooSet) : Prop :=
  ∀ entry location, s.holds entry location = true → location ∈ s.locations entry

/-- Some slot that is not released holds the entry. -/
def Retains (s : CuckooSet) (entry : Hash256) : Prop :=
  ∃ location : Nat, s.slots[location]? = some ⟨entry, false⟩

variable {s : CuckooSet}

/-! ## Places -/

theorem isPlaced_withCapacity (elements : Nat) : (withCapacity elements).IsPlaced := by
  intro entry location hholds
  exact absurd ⟨location, hholds⟩ (not_stored_withCapacity elements entry)

/-- An entry is put where it may stand. -/
theorem IsPlaced.put (h : s.IsPlaced) {entry : Hash256} {location : Nat}
    (hlocation : location ∈ s.locations entry) : (s.put location entry).IsPlaced := by
  intro old other hholds
  rw [locations_congr (size_put s location entry)]
  rw [holds_put] at hholds
  split at hholds
  · next hsame =>
    rw [← hsame, ← eq_of_beq hholds]
    exact hlocation
  · exact h old other hholds

/-- An entry that is driven out of its slot is put into another one of its own. -/
theorem IsPlaced.insertFrom (h : s.IsPlaced) (entry : Hash256) (last depth : Nat) :
    (s.insertFrom entry last depth).IsPlaced := by
  induction depth generalizing s entry last with
  | zero => exact h
  | succ depth ih =>
    obtain ⟨location, hlocation, -, heq⟩ | ⟨location, hlocation, slot, -, -, heq⟩ :=
      insertFrom_succ s entry last depth
    · rw [heq]
      exact h.put hlocation
    · rw [heq]
      exact ih (h.put hlocation) slot.entry location

/-- The step lemma: every operation leaves entries where they may stand. -/
theorem IsPlaced.apply (h : s.IsPlaced) (op : CuckooOp) : (s.apply op).IsPlaced := by
  cases op with
  | insert entry => exact h.insertFrom entry _ _
  | contains entry erase =>
    intro old location hholds
    change location ∈ (s.contains entry erase).2.locations old
    rw [locations_congr (size_contains_snd s entry erase)]
    exact h old location (by rwa [CuckooSet.apply, holds_contains_snd] at hholds)

/-- Whatever is done to a set, its entries stand where they may. -/
theorem IsPlaced.applyAll (h : s.IsPlaced) (ops : List CuckooOp) : (s.applyAll ops).IsPlaced := by
  induction ops generalizing s with
  | nil => exact h
  | cons op ops ih => exact ih (h.apply op)

/-- A look-up finds exactly what is stored. -/
theorem IsPlaced.contains_fst_iff_stored (h : s.IsPlaced) (entry : Hash256) (erase : Bool) :
    (s.contains entry erase).1 = true ↔ s.Stored entry := by
  constructor
  · exact stored_of_contains
  · rintro ⟨location, hholds⟩
    exact (contains_fst_iff s entry erase).mpr ⟨location, h entry location hholds, hholds⟩

/-! ## What is stored was inserted -/

/-- What is stored after an operation was inserted by it, or stored before. -/
theorem stored_apply {op : CuckooOp} {entry : Hash256} (h : (s.apply op).Stored entry) :
    op = .insert entry ∨ s.Stored entry := by
  cases op with
  | insert new =>
    rcases stored_insert h with rfl | hstored
    · exact .inl rfl
    · exact .inr hstored
  | contains other erase => exact .inr ((stored_contains_snd s other entry erase).mp h)

/-- By induction on the operations. -/
theorem stored_applyAll {ops : List CuckooOp} {entry : Hash256} (h : (s.applyAll ops).Stored entry) :
    .insert entry ∈ ops ∨ s.Stored entry := by
  induction ops generalizing s with
  | nil => exact .inr h
  | cons op ops ih =>
    rcases ih h with hmem | hstored
    · exact .inl (List.mem_cons_of_mem op hmem)
    · rcases stored_apply hstored with rfl | hbefore
      · exact .inl List.mem_cons_self
      · exact .inr hbefore

/-! ## What an insertion loses -/

theorem stored_put_self (s : CuckooSet) (location : Nat) (entry : Hash256) :
    (s.put location entry).Stored entry := by
  refine ⟨location, ?_⟩
  rw [holds_put, if_pos rfl, beq_self_eq_true]

/-- A slot that is filled loses the entry that it had, and no other. -/
theorem Stored.put {old : Hash256} (h : s.Stored old) (location : Nat) (entry : Hash256) :
    s.holds old location = true ∨ (s.put location entry).Stored old := by
  obtain ⟨other, hother⟩ := h
  by_cases hsame : location = other
  · exact .inl (hsame ▸ hother)
  · refine .inr ⟨other, ?_⟩
    rw [holds_put, if_neg hsame]
    exact hother

/-- A slot holds one entry. -/
theorem eq_of_holds {location : Nat} {slot : CuckooSlot} {old : Hash256}
    (hslot : s.slots[location]? = some slot) (h : s.holds old location = true) : old = slot.entry := by
  unfold holds at h
  rw [hslot, Option.any_some] at h
  exact (eq_of_beq h).symm

/-- All that was stored and the new entry are stored afterwards, with one exception at most. By induction
on the moves: what a move drives out is in hand, and is the entry of the next one. -/
theorem exists_lost_insertFrom (s : CuckooSet) (entry : Hash256) (last depth : Nat) :
    ∃ lost, ∀ old, old = entry ∨ s.Stored old →
      old ≠ lost → (s.insertFrom entry last depth).Stored old := by
  induction depth generalizing s entry last with
  | zero =>
    refine ⟨entry, fun old hold hne ↦ ?_⟩
    exact hold.resolve_left hne
  | succ depth ih =>
    obtain ⟨location, -, -, heq⟩ | ⟨location, -, slot, hslot, -, heq⟩ := insertFrom_succ s entry last depth
    · rw [heq]
      refine ⟨(s.slots[location]?).elim entry CuckooSlot.entry, fun old hold hne ↦ ?_⟩
      rcases hold with rfl | hstored
      · exact stored_put_self s location old
      · refine (hstored.put location entry).resolve_left fun hholds ↦ hne ?_
        cases hslot : s.slots[location]? with
        | none =>
          unfold holds at hholds
          rw [hslot] at hholds
          cases hholds
        | some slot => exact eq_of_holds hslot hholds
    · obtain ⟨lost, hlost⟩ := ih (s.put location entry) slot.entry location
      rw [heq]
      refine ⟨lost, fun old hold hne ↦ hlost old ?_ hne⟩
      rcases hold with rfl | hstored
      · exact .inr (stored_put_self s location old)
      · rcases hstored.put location entry with hholds | hput
        · exact .inl (eq_of_holds hslot hholds)
        · exact .inr hput

/-- An entry that finds a free slot, or itself, is put there. -/
theorem insert_of_free {entry : Hash256} {location : Nat} (hlocation : location ∈ s.locations entry)
    (hfree : (s.isFree location || s.holds entry location) = true) :
    ∃ found, (s.isFree found || s.holds entry found) = true ∧ s.insert entry = s.put found entry := by
  obtain ⟨found, hfound⟩ := exists_vacancy hlocation hfree
  have hopen := List.find?_some hfound
  exact ⟨found, hopen, insert_of_vacancy hfound⟩

/-- A slot that is free, or has the entry already, loses nothing that is not released. -/
theorem Retains.put {old entry : Hash256} {location : Nat} (h : s.Retains old)
    (hfree : (s.isFree location || s.holds entry location) = true) :
    (s.put location entry).Retains old := by
  obtain ⟨other, hother⟩ := h
  refine ⟨other, ?_⟩
  unfold CuckooSet.put
  rw [Std.HashMap.getElem?_insert]
  by_cases hsame : location = other
  · subst hsame
    have htaken : s.isFree location = false := by
      unfold isFree
      rw [hother]
      rfl
    rw [htaken, Bool.false_or] at hfree
    rw [if_pos (beq_self_eq_true location), eq_of_holds hother hfree]
  · rw [if_neg (by simpa using hsame)]
    exact hother

/-! ## Histories -/

/-- **A cuckoo set holds only what was inserted, and an insertion loses at most one entry.** After any
operations on an empty set of any capacity: a look-up finds only what was inserted; every entry is in one
of the slots that it may be in; an insertion leaves stored all that was stored and the new entry, but for
one entry at most; and where one of the slots of the new entry is empty, released or holds it already,
the new entry is stored afterwards and no entry of a slot that is not released is lost. -/
theorem applyAll_isSound (elements : Nat) (ops : List CuckooOp) :
    let s := (withCapacity elements).applyAll ops
    (∀ entry erase, (s.contains entry erase).1 = true → .insert entry ∈ ops) ∧
      (∀ entry location, s.holds entry location = true →
        location ∈ s.locations entry ∧ (s.locations entry).length = slotsPerEntry) ∧
      (∀ entry, ∃ lost, ∀ old, old = entry ∨ s.Stored old → old ≠ lost →
        ((s.insert entry).contains old false).1 = true) ∧
      ∀ entry, (∃ location ∈ s.locations entry, s.isFree location ∨ s.holds entry location) →
        ((s.insert entry).contains entry false).1 = true ∧
          ∀ old, s.Retains old → (s.insert entry).Retains old := by
  intro s
  have hplaced : s.IsPlaced := (isPlaced_withCapacity elements).applyAll ops
  have hplacedInsert (entry : Hash256) : (s.insert entry).IsPlaced := hplaced.apply (.insert entry)
  refine ⟨?_, ?_, ?_, ?_⟩
  · intro entry erase hfound
    exact (stored_applyAll (stored_of_contains hfound)).resolve_right
      (not_stored_withCapacity elements entry)
  · intro entry location hholds
    exact ⟨hplaced entry location hholds, length_locations s entry⟩
  · intro entry
    obtain ⟨lost, hlost⟩ := exists_lost_insertFrom s entry ((s.locations entry).headD 0) s.depthLimit
    refine ⟨lost, fun old hold hne ↦ ?_⟩
    rw [(hplacedInsert entry).contains_fst_iff_stored]
    exact hlost old hold hne
  · rintro entry ⟨location, hlocation, hfree⟩
    rw [← Bool.or_eq_true] at hfree
    obtain ⟨found, hfound, heq⟩ := insert_of_free hlocation hfree
    constructor
    · exact contains_insert_of_free hlocation hfree false
    · intro old hretains
      rw [heq]
      exact hretains.put hfound

end CuckooSet

end UtxoConsensus
