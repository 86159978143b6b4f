import Mathlib.Data.List.Induction
import UtxoConsensus.Proofs.Spend.CachedVerification
import UtxoConsensus.Proofs.Spend.CuckooHistories

/-!
# Entries in two slots

An insertion puts an entry into the first of its slots that is free or holds it. If the slot before
the one that holds it has become free in the meantime, the entry is stored a second time: it has been
overlooked. Nothing else makes a duplicate. While entries drive each other out, the one in hand is in
no slot, so that it can be put anywhere.

An entry is overlooked only after a look-up has released a slot of another one. So a set whose entries
are inserted once, or from which nothing is erased, holds no entry twice, and neither does a cache that
is used by one verifier after the other. Two verifiers that look for the same signature at the same time
may both insert it, and a slot may be released between the two insertions.
-/

open scoped List

namespace UtxoConsensus

namespace CuckooSet

/-- No two slots hold the entry. -/
def AtMostOnce (s : CuckooSet) (entry : Hash256) : Prop :=
  ∀ location other, s.holds entry location = true → s.holds entry other = true → location = other

def NoDuplicates (s : CuckooSet) : Prop :=
  ∀ entry, s.AtMostOnce entry

/-- The entry is stored, but a free slot comes before all slots that hold it: one of its first slots is
free, and none of these holds it. -/
def Overlooks (s : CuckooSet) (entry : Hash256) : Prop :=
  s.Stored entry ∧ ∃ first, first <+: s.locations entry ∧
    (∃ location ∈ first, s.isFree location = true) ∧ ∀ location ∈ first, s.holds entry location = false

variable {s : CuckooSet} {entry hand old : Hash256}

/-! ## At most one slot -/

theorem atMostOnce_of_not_stored (h : ¬ s.Stored entry) : s.AtMostOnce entry :=
  fun location _ hlocation _ ↦ absurd ⟨location, hlocation⟩ h

theorem noDuplicates_withCapacity (elements : Nat) : (withCapacity elements).NoDuplicates :=
  fun entry ↦ atMostOnce_of_not_stored (not_stored_withCapacity elements entry)

/-- A look-up moves nothing. -/
theorem AtMostOnce.contains (h : s.AtMostOnce old) (entry : Hash256) (erase : Bool) :
    (s.contains entry erase).2.AtMostOnce old := by
  intro location other hlocation hother
  rw [holds_contains_snd] at hlocation hother
  exact h location other hlocation hother

/-- While `hand` is outside of the set, the entry is in one slot at most, and in none if it is in
hand. -/
structure OnceBeside (s : CuckooSet) (hand entry : Hash256) : Prop where
  atMostOnce : s.AtMostOnce entry
  absent : hand = entry → ¬ s.Stored entry

theorem OnceBeside.put (h : s.OnceBeside hand entry) (location : Nat) :
    (s.put location hand).AtMostOnce entry := by
  intro first second hfirst hsecond
  by_cases hhand : hand = entry
  · subst hhand
    have hnone (other : Nat) : ¬ s.holds hand other = true := fun hother ↦ h.absent rfl ⟨other, hother⟩
    rw [holds_put_self_iff, or_iff_left (hnone _)] at hfirst hsecond
    exact hfirst.symm.trans hsecond
  · rw [holds_put_iff_of_ne hhand] at hfirst hsecond
    exact h.atMostOnce first second hfirst.2 hsecond.2

/-- The entry that is driven out was in no other slot. -/
theorem OnceBeside.move (h : s.OnceBeside hand entry) {location : Nat} {slot : CuckooSlot}
    (hslot : s.slots[location]? = some slot) (htaken : s.holds hand location = false) :
    (s.put location hand).OnceBeside slot.entry entry where
  atMostOnce := h.put location
  absent := by
    rintro rfl ⟨other, hother⟩
    have hdriven : s.holds slot.entry location = true := by simp [holds, hslot]
    have hne : hand ≠ slot.entry := by
      rintro rfl
      rw [hdriven] at htaken
      cases htaken
    rw [holds_put_iff_of_ne hne] at hother
    exact hother.1 (h.atMostOnce location other hdriven hother.2)

/-- Entries that are moved on are not doubled. By induction on the number of moves that are left. -/
theorem OnceBeside.insertFrom (h : s.OnceBeside hand entry) (last depth : Nat) :
    (s.insertFrom hand last depth).AtMostOnce entry := by
  induction depth generalizing s hand last with
  | zero => exact h.atMostOnce
  | succ depth ih =>
    obtain ⟨location, -, -, heq⟩ | ⟨location, hmem, slot, hslot, htaken, heq⟩ :=
      insertFrom_succ s hand last depth
    · rw [heq]
      exact h.put location
    · rw [heq]
      exact ih (h.move hslot (htaken location hmem).2) location

/-! ## Overlooked entries -/

/-- No free slot comes before the slot that the entry takes. -/
theorem mem_of_vacancy {location : Nat} (h : s.vacancy? entry = some location) {first : List Nat}
    (hfirst : first <+: s.locations entry) (hfree : ∃ other ∈ first, s.isFree other = true) :
    location ∈ first := by
  obtain ⟨free, hmem, hopen⟩ := hfree
  have hsome : (first.find? fun other ↦ s.isFree other || s.holds entry other).isSome :=
    List.find?_isSome.mpr ⟨free, hmem, by rw [hopen, Bool.true_or]⟩
  obtain ⟨found, hfound⟩ := Option.isSome_iff_exists.mp hsome
  have hsame := hfirst.find?_eq_some hfound
  unfold vacancy? at h
  rw [h] at hsame
  cases hsame
  exact List.mem_of_find?_eq_some hfound

/-- A stored entry takes a slot without driving out another, and it is overlooked if that slot does not
hold it. -/
theorem IsPlaced.overlooks_iff (hplaced : s.IsPlaced) (h : s.Stored entry) :
    ∃ location, s.vacancy? entry = some location ∧
      (s.Overlooks entry ↔ s.holds entry location = false) := by
  obtain ⟨own, hown⟩ := h
  obtain ⟨location, hvacancy⟩ := exists_vacancy (hplaced entry own hown) (by rw [hown, Bool.or_true])
  refine ⟨location, hvacancy, ?_, fun hother ↦ ⟨⟨own, hown⟩, ?_⟩⟩
  · rintro ⟨-, first, hfirst, hfree, hnone⟩
    exact hnone location (mem_of_vacancy hvacancy hfirst hfree)
  · obtain ⟨hopen, earlier, later, heq, hearlier⟩ := List.find?_eq_some_iff_append.mp hvacancy
    have hfree : s.isFree location = true := by simpa [hother] using hopen
    refine ⟨earlier ++ [location], ⟨later, by simp [heq]⟩, ⟨location, by simp, hfree⟩, ?_⟩
    intro l hl
    rcases List.mem_append.mp hl with hl | hl
    · have htaken := hearlier l hl
      simp only [Bool.not_eq_true', Bool.or_eq_false_iff] at htaken
      exact htaken.2
    · rw [List.mem_singleton.mp hl]
      exact hother

/-- An entry is overlooked already if it has the same slots, and all slots that have become free are its
own. -/
theorem Overlooks.of_same_slots {t : CuckooSet} (h : t.Overlooks entry) (hsize : t.size = s.size)
    (hholds : ∀ location, t.holds entry location = s.holds entry location)
    (hfree : ∀ location, s.holds entry location = false → t.isFree location = true →
      s.isFree location = true) : s.Overlooks entry := by
  obtain ⟨⟨own, hown⟩, first, hfirst, ⟨free, hmem, hopen⟩, hnone⟩ := h
  simp only [hholds] at hown hnone
  rw [locations_congr hsize] at hfirst
  exact ⟨⟨own, hown⟩, first, hfirst, ⟨free, hmem, hfree free (hnone free hmem) hopen⟩, hnone⟩

/-- Filling a slot frees no other. -/
theorem isFree_of_isFree_put {location other : Nat}
    (h : (s.put location entry).isFree other = true) : s.isFree other = true := by
  rw [isFree_put] at h
  split at h
  · cases h
  · exact h

/-- A slot that is taken for another entry is no longer free. -/
theorem Overlooks.of_put {location : Nat} (h : (s.put location entry).Overlooks old)
    (hholds : ∀ other, (s.put location entry).holds old other = s.holds old other) : s.Overlooks old :=
  h.of_same_slots (size_put s location entry) hholds fun _ _ hopen ↦ isFree_of_isFree_put hopen

/-- No entry is overlooked after a move, if the entry in hand was put before all free slots of its
own. -/
theorem OnceBeside.not_overlooks_put (h : s.OnceBeside hand entry) (hfound : ¬ s.Overlooks entry)
    {location : Nat}
    (hbefore : ∀ first, first <+: s.locations hand → (∃ other ∈ first, s.isFree other = true) →
      location ∈ first) : ¬ (s.put location hand).Overlooks entry := by
  intro hover
  by_cases hhand : hand = entry
  · subst hhand
    obtain ⟨-, first, hfirst, ⟨free, hmem, hopen⟩, hnone⟩ := hover
    rw [locations_congr (size_put s location hand)] at hfirst
    have hlocation := hbefore first hfirst ⟨free, hmem, isFree_of_isFree_put hopen⟩
    have hself : (s.put location hand).holds hand location = true := holds_put_self_iff.mpr (.inl rfl)
    rw [hnone location hlocation] at hself
    cases hself
  · obtain ⟨own, hown⟩ := hover.1
    rw [holds_put_iff_of_ne hhand] at hown
    -- The only slot of the entry is not the one that is filled, so the entry keeps it.
    have hholds (other : Nat) : (s.put location hand).holds entry other = s.holds entry other := by
      rw [Bool.eq_iff_iff, holds_put_iff_of_ne hhand, and_iff_right_iff_imp]
      rintro hother rfl
      exact hown.1 (h.atMostOnce _ _ hother hown.2)
    exact hfound (hover.of_put hholds)

theorem OnceBeside.not_overlooks_insertFrom (h : s.OnceBeside hand entry)
    (hfound : ¬ s.Overlooks entry) (last depth : Nat) :
    ¬ (s.insertFrom hand last depth).Overlooks entry := by
  induction depth generalizing s hand last with
  | zero => exact hfound
  | succ depth ih =>
    cases hvacancy : s.vacancy? hand with
    | some location =>
      rw [insertFrom_of_vacancy hvacancy]
      exact h.not_overlooks_put hfound fun first hfirst hfree ↦ mem_of_vacancy hvacancy hfirst hfree
    | none =>
      have htaken := taken_of_no_vacancy hvacancy
      obtain ⟨location, hmem, slot, hslot, heq⟩ := insertFrom_of_no_vacancy hvacancy last depth
      rw [heq]
      -- The entry in hand has no free slot at all.
      refine ih (h.move hslot (htaken location hmem).2) (h.not_overlooks_put hfound ?_) location
      rintro first hfirst ⟨free, hfree, hopen⟩
      rw [(htaken free (hfirst.subset hfree)).1] at hopen
      cases hopen

/-! ## Operations -/

/-- Inserting another entry does not double this one. -/
theorem AtMostOnce.insert_of_ne (h : s.AtMostOnce old) (hne : entry ≠ old) :
    (s.insert entry).AtMostOnce old :=
  OnceBeside.insertFrom ⟨h, fun heq ↦ absurd heq hne⟩ _ _

/-- An insertion makes a duplicate of its entry exactly if it overlooks it. -/
theorem IsPlaced.atMostOnce_insert_iff (hplaced : s.IsPlaced) (h : s.AtMostOnce entry) :
    (s.insert entry).AtMostOnce entry ↔ ¬ s.Overlooks entry := by
  by_cases hstored : s.Stored entry
  · obtain ⟨location, hvacancy, hover⟩ := hplaced.overlooks_iff hstored
    rw [insert_of_vacancy hvacancy, hover, Bool.not_eq_false]
    constructor
    · intro honce
      obtain ⟨own, hown⟩ := hstored
      have hsame : location = own :=
        honce location own (holds_put_self_iff.mpr (.inl rfl)) (holds_put_self_iff.mpr (.inr hown))
      rwa [hsame]
    · intro hown first second hfirst hsecond
      rw [holds_put_self_iff] at hfirst hsecond
      have hsame (other : Nat) (hother : location = other ∨ s.holds entry other = true) :
          location = other := hother.elim id (h location other hown)
      exact (hsame first hfirst).symm.trans (hsame second hsecond)
  · exact iff_of_true (OnceBeside.insertFrom ⟨h, fun _ ↦ hstored⟩ _ _) fun hover ↦ hstored hover.1

/-- An operation makes a duplicate of an entry exactly if it is an insertion that overlooks it. -/
theorem IsPlaced.atMostOnce_apply_iff (hplaced : s.IsPlaced) (h : s.AtMostOnce entry) (op : CuckooOp) :
    (s.apply op).AtMostOnce entry ↔ (op = .insert entry → ¬ s.Overlooks entry) := by
  cases op with
  | contains other erase => exact iff_of_true (h.contains other erase) fun heq ↦ by cases heq
  | insert other =>
    by_cases hsame : other = entry
    · subst hsame
      change (s.insert other).AtMostOnce other ↔ _
      rw [hplaced.atMostOnce_insert_iff h]
      exact ⟨fun hfound _ ↦ hfound, fun hfound ↦ hfound rfl⟩
    · exact iff_of_true (h.insert_of_ne hsame) fun heq ↦ absurd (CuckooOp.insert.inj heq) hsame

/-- No insertion makes an entry overlooked. -/
theorem IsPlaced.not_overlooks_insert (hplaced : s.IsPlaced) (h : s.AtMostOnce old)
    (hfound : ¬ s.Overlooks old) (entry : Hash256) : ¬ (s.insert entry).Overlooks old := by
  by_cases hstored : entry = old ∧ s.Stored old
  · obtain ⟨rfl, hstored⟩ := hstored
    obtain ⟨location, hvacancy, hiff⟩ := hplaced.overlooks_iff hstored
    have hown : s.holds entry location = true := by rwa [hiff, Bool.not_eq_false] at hfound
    rw [insert_of_vacancy hvacancy]
    intro hover
    refine hfound (hover.of_put fun other ↦ ?_)
    rw [Bool.eq_iff_iff, holds_put_self_iff, or_iff_right_iff_imp]
    rintro rfl
    exact hown
  · exact OnceBeside.not_overlooks_insertFrom ⟨h, fun heq hold ↦ hstored ⟨heq, hold⟩⟩ hfound _ _

/-- A look-up frees a slot only if it is told to, and then a slot of the entry that it finds. -/
theorem Overlooks.of_contains {erase : Bool} (h : (s.contains entry erase).2.Overlooks old) :
    s.Overlooks old ∨ entry ≠ old ∧ erase = true := by
  by_cases hother : entry ≠ old ∧ erase = true
  · exact .inr hother
  · refine .inl (h.of_same_slots (size_contains_snd s entry erase)
      (holds_contains_snd s entry old erase) fun location hholds hopen ↦ ?_)
    unfold CuckooSet.contains at hopen
    split at hopen
    · next found hfound =>
      have hown := List.find?_some hfound
      cases erase with
      | false => exact hopen
      | true =>
        have hsame : entry = old := by simpa using hother
        subst hsame
        rw [if_pos rfl, isFree_release] at hopen
        split at hopen
        · next heq =>
          rw [heq, hholds] at hown
          cases hown
        · exact hopen
    · exact hopen

/-! ## Histories -/

/-- The run lemma: an entry is never in two slots if and only if no insertion overlooks it. By induction
from the end, as the last operation is made on the set after all others. -/
theorem IsPlaced.atMostOnce_applyAll_iff (hplaced : s.IsPlaced) (h : s.AtMostOnce entry)
    (ops : List CuckooOp) :
    (∀ before, before <+: ops → (s.applyAll before).AtMostOnce entry) ↔
      ∀ before, before ++ [.insert entry] <+: ops → ¬ (s.applyAll before).Overlooks entry := by
  induction ops using List.reverseRecOn with
  | nil =>
    refine iff_of_true (fun before hbefore ↦ ?_) fun before hbefore ↦ ?_
    · rw [List.prefix_nil.mp hbefore]
      exact h
    · exact absurd (List.prefix_nil.mp hbefore) (List.append_ne_nil_of_right_ne_nil before (by simp))
  | append_singleton ops op ih =>
    have hstep (honce : (s.applyAll ops).AtMostOnce entry) :
        (s.applyAll (ops ++ [op])).AtMostOnce entry ↔
          (op = .insert entry → ¬ (s.applyAll ops).Overlooks entry) := by
      rw [applyAll_concat]
      exact (hplaced.applyAll ops).atMostOnce_apply_iff honce op
    constructor
    · intro honce before hbefore
      have hops (before : List CuckooOp) (hbefore : before <+: ops) :
          (s.applyAll before).AtMostOnce entry := honce before (hbefore.trans (List.prefix_append _ _))
      rcases List.prefix_concat_iff.mp hbefore with heq | hbefore
      · obtain ⟨rfl, hop⟩ := List.append_inj' heq rfl
        exact (hstep (hops before (List.prefix_refl _))).mp (honce _ (List.prefix_refl _))
          (List.singleton_inj.mp hop).symm
      · exact ih.mp hops before hbefore
    · intro hfound before hbefore
      have hops := ih.mpr fun before hbefore ↦ hfound before (hbefore.trans (List.prefix_append _ _))
      rcases List.prefix_concat_iff.mp hbefore with rfl | hbefore
      · refine (hstep (hops ops (List.prefix_refl _))).mpr ?_
        rintro rfl
        exact hfound ops (List.prefix_refl _)
      · exact hops before hbefore

/-- What has happened to an entry: it is in one slot at most, and has been overlooked only after another
entry was erased, or else it has been inserted again after that. -/
theorem applyAll_cases (elements : Nat) (ops : List CuckooOp) (entry : Hash256) :
    let s := (withCapacity elements).applyAll ops
    (s.AtMostOnce entry ∧ (s.Overlooks entry →
      ∃ other, other ≠ entry ∧ [.insert entry, .contains other true] <+ ops)) ∨
    ∃ other, other ≠ entry ∧ [.insert entry, .contains other true, .insert entry] <+ ops := by
  induction ops using List.reverseRecOn with
  | nil =>
    have hstored := not_stored_withCapacity elements entry
    exact .inl ⟨atMostOnce_of_not_stored hstored, fun hover ↦ absurd hover.1 hstored⟩
  | append_singleton ops op ih =>
    have hplaced := (isPlaced_withCapacity elements).applyAll ops
    have hafter {pattern : List CuckooOp} (h : pattern <+ ops) : pattern <+ ops ++ [op] :=
      h.trans (List.sublist_append_left _ _)
    simp only [applyAll_concat]
    rcases ih with ⟨honce, herased⟩ | ⟨other, hother, hpattern⟩
    · cases op with
      | contains other erase =>
        refine .inl ⟨honce.contains other erase, fun hover ↦ ?_⟩
        rcases Overlooks.of_contains hover with hbefore | ⟨hother, rfl⟩
        · obtain ⟨other, hother, hpattern⟩ := herased hbefore
          exact ⟨other, hother, hafter hpattern⟩
        · -- A slot of another entry was released, and this one is stored, so it was inserted before.
          have hinserted : .insert entry ∈ ops :=
            (stored_applyAll ((stored_contains_snd _ _ _ _).mp hover.1)).resolve_right
              (not_stored_withCapacity elements entry)
          exact ⟨other, hother, (List.singleton_sublist.mpr hinserted).append (List.Sublist.refl _)⟩
      | insert new =>
        by_cases hover : ((withCapacity elements).applyAll ops).Overlooks entry
        · obtain ⟨other, hother, hpattern⟩ := herased hover
          by_cases hsame : new = entry
          · subst hsame
            exact .inr ⟨other, hother, hpattern.append (List.Sublist.refl _)⟩
          · exact .inl ⟨honce.insert_of_ne hsame, fun _ ↦ ⟨other, hother, hafter hpattern⟩⟩
        · have hnew := (hplaced.atMostOnce_apply_iff honce (.insert new)).mpr fun _ ↦ hover
          exact .inl ⟨hnew, fun h ↦ absurd h (hplaced.not_overlooks_insert honce hover new)⟩
    · exact .inr ⟨other, hother, hafter hpattern⟩

/-- **When an entry is stored twice.** After any operations on an empty set of any capacity: an entry was
in one slot at most at every moment, if and only if none of its insertions overlooked it; and if it is
in two slots, then it was inserted, a look-up was told to erase another entry, and it was inserted
again. -/
theorem applyAll_atMostOnce_iff (elements : Nat) (ops : List CuckooOp) (entry : Hash256) :
    ((∀ before, before <+: ops → ((withCapacity elements).applyAll before).AtMostOnce entry) ↔
      ∀ before, before ++ [.insert entry] <+: ops →
        ¬ ((withCapacity elements).applyAll before).Overlooks entry) ∧
    (¬ ((withCapacity elements).applyAll ops).AtMostOnce entry →
      ∃ other, other ≠ entry ∧ [.insert entry, .contains other true, .insert entry] <+ ops) := by
  constructor
  · exact (isPlaced_withCapacity elements).atMostOnce_applyAll_iff
      (noDuplicates_withCapacity elements entry) ops
  · intro htwice
    exact (applyAll_cases elements ops entry).resolve_left fun honce ↦ htwice honce.1

/-- The entry whose first slot is the first of the set and whose other slots are the last one. -/
def spread : Hash256 :=
  ⟨List.replicate 4 0 ++ List.replicate 28 255, by rw [List.length_append]; rfl⟩

/-- Two verifiers look for the same entry and do not find it, while its first slot is taken. Between their
insertions the first slot is released. -/
def lateInsertion : List CuckooOp :=
  [.insert .zero, .contains spread false, .contains spread false, .insert spread, .contains .zero true,
    .insert spread]

theorem locations_zero (s : CuckooSet) : s.locations .zero = List.replicate 8 0 := by
  simp [locations, Hash256.zero, Hash256.filled, Bytes.blocks, Bytes.toNat, List.replicate]

theorem locations_spread (h : s.size = 2) : s.locations spread = [0, 1, 1, 1, 1, 1, 1, 1] := by
  simp [locations, h, spread, Bytes.blocks, Bytes.toNat, List.replicate, UInt32.size]

/-- The entry is inserted into its second slot, the first one is released, and then it is inserted
again. -/
theorem applyAll_lateInsertion :
    (withCapacity 2).applyAll lateInsertion =
      ((((withCapacity 2).put 0 .zero).put 1 spread).release 0).put 0 spread := by
  have hne : (Hash256.zero == spread) = false := by decide
  let one := (withCapacity 2).put 0 .zero
  let both := one.put 1 spread
  have hfirst : (withCapacity 2).insert .zero = one := by
    apply insert_of_vacancy
    simp [vacancy?, locations_zero, isFree_withCapacity]
  have hsecond : one.insert spread = both := by
    apply insert_of_vacancy
    have hlocations : one.locations spread = _ := locations_spread rfl
    simp [vacancy?, hlocations, one, isFree_put, isFree_withCapacity, holds_put, hne]
  have hreleased : (both.contains .zero true).2 = both.release 0 := by
    simp [contains, locations_zero, both, one, holds_put]
  have hlast : (both.release 0).insert spread = (both.release 0).put 0 spread := by
    apply insert_of_vacancy
    have hlocations : (both.release 0).locations spread = _ := locations_spread rfl
    simp [vacancy?, hlocations, isFree_release]
  simp only [lateInsertion, applyAll, List.foldl_cons, List.foldl_nil, apply, hfirst, contains_snd_keep,
    hsecond, hreleased, hlast]
  rfl

/-- An entry in both slots of a set. A look-up that is told to erase it releases one of them only. -/
theorem not_noDuplicates_lateInsertion :
    let s := (withCapacity 2).applyAll lateInsertion
    s.holds spread 0 = true ∧ s.holds spread 1 = true ∧ ¬ s.NoDuplicates ∧
      (s.contains spread true).2.Retains spread := by
  intro s
  have heq : s = _ := applyAll_lateInsertion
  have hzero : s.holds spread 0 = true := by simp [heq, holds_put]
  have hone : s.holds spread 1 = true := by simp [heq, holds_put]
  have hlocations : s.locations spread = _ := locations_spread (by rw [heq]; rfl)
  refine ⟨hzero, hone, fun h ↦ absurd (h spread 0 1 hzero hone) Nat.zero_ne_one, 1, ?_⟩
  have hreleased : (s.contains spread true).2 = s.release 0 := by
    simp [contains, hlocations, hzero]
  -- The second slot is as the first insertion left it.
  rw [hreleased, heq]
  simp only [release, put, Std.HashMap.getElem?_modify, Std.HashMap.getElem?_insert]
  rfl

/-! ## Verifiers -/

theorem NoDuplicates.contains (h : s.NoDuplicates) (entry : Hash256) (erase : Bool) :
    (s.contains entry erase).2.NoDuplicates :=
  fun old ↦ (h old).contains entry erase

/-- An entry that is not stored yet is stored once. -/
theorem NoDuplicates.insert (h : s.NoDuplicates) (hplaced : s.IsPlaced) (hstored : ¬ s.Stored entry) :
    (s.insert entry).NoDuplicates :=
  fun old ↦ (hplaced.atMostOnce_apply_iff (h old) (.insert entry)).mpr
    fun heq hover ↦ hstored (CuckooOp.insert.inj heq ▸ hover.1)

end CuckooSet

/-- One call of a cached verifier inserts its entry only if it has just missed it. -/
theorem Checker.cachedVerify_noDuplicates (inner : Bytes → Bytes → Hash256 → StateM σ Bool) (store : Bool)
    (t : SignedMessage) (state : σ) {cache : SignatureCache} (hplaced : cache.set.IsPlaced)
    (h : cache.set.NoDuplicates) :
    let r := (cachedVerify inner store t.sig t.key t.message).run (state, cache)
    r.2.2.set.IsPlaced ∧ r.2.2.set.NoDuplicates := by
  intro r
  let entry := cache.entry t.message t.key t.sig
  have hfound : (cache.get entry !store).2.set.IsPlaced := hplaced.apply (.contains entry !store)
  have honce : (cache.get entry !store).2.set.NoDuplicates := h.contains entry !store
  cases hit : (cache.get entry !store).1 with
  | true =>
    have heq : r = _ := cachedVerify_of_hit inner store state t cache hit
    rw [heq]
    exact ⟨hfound, honce⟩
  | false =>
    have heq : r = _ := cachedVerify_of_miss inner store state t cache hit
    have hstored : ¬ (cache.get entry !store).2.set.Stored entry := by
      intro hafter
      have hbefore := (CuckooSet.stored_contains_snd cache.set entry entry !store).mp hafter
      rw [← hplaced.contains_fst_iff_stored entry !store] at hbefore
      exact Bool.false_ne_true (hit.symm.trans hbefore)
    rw [heq]
    split
    · exact ⟨hfound.apply (.insert entry), honce.insert hfound hstored⟩
    · exact ⟨hfound, honce⟩

/-- Verifiers insert only after a miss. -/
theorem cachedAnswers_keep_noDuplicates (inner : Checker σ) (calls : List CachedCall)
    {start : σ × SignatureCache} (hplaced : start.2.set.IsPlaced) (h : start.2.set.NoDuplicates) :
    ((cachedAnswers inner calls).run start).2.2.set.NoDuplicates := by
  induction calls generalizing start with
  | nil => exact h
  | cons call calls ih =>
    obtain ⟨hnext, honce⟩ :=
      Checker.cachedVerify_noDuplicates inner.verifySignature call.store call.question start.1 hplaced h
    unfold cachedAnswers
    rw [List.mapM_cons]
    exact ih hnext honce

/-- **One verifier after the other stores no entry twice.** Whatever calls are made on a fresh cache, each
after the one before has been answered. -/
theorem cachedAnswers_noDuplicates (inner : Checker σ) (calls : List CachedCall) (state : σ)
    (nonce : Hash256) (mib : Nat) :
    ((cachedAnswers inner calls).run (state, .ofMiB nonce mib)).2.2.set.NoDuplicates :=
  cachedAnswers_keep_noDuplicates inner calls (CuckooSet.isPlaced_withCapacity _)
    (CuckooSet.noDuplicates_withCapacity _)

end UtxoConsensus
