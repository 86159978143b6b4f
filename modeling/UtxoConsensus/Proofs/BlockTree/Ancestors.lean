import UtxoConsensus.BlockTree.Basic

/-!
# Ancestors

The parents of entries make a tree, and a walk that also takes skip ancestors does not leave the path to
the root. It is enough that every skip ancestor is on this path and has the height that was computed for
it: then each step of a walk goes to an ancestor, not past the target, and to a lower height. Heights
are words and could start again from zero above the largest one. A walk does not cross such a place, as it
goes down from one height to a smaller one by single heights or to a height that is computed to be lower.
-/

namespace UtxoConsensus

/-! ## Skip heights -/

theorem clearLowestBit_le (n : UInt32) : clearLowestBit n ≤ n := by
  rw [UInt32.le_iff_toNat_le, clearLowestBit, UInt32.toNat_and]
  exact Nat.and_le_left

theorem clearLowestBit_lt {n : UInt32} (hn : n ≠ 0) : clearLowestBit n < n := by
  have hpos : 0 < n.toNat := Nat.pos_of_ne_zero fun hzero ↦ hn (UInt32.toNat_inj.mp hzero)
  have hpred : (n - 1).toNat = n.toNat - 1 := UInt32.toNat_sub_of_le n 1 (UInt32.le_iff_toNat_le.mpr hpos)
  rw [UInt32.lt_iff_toNat_lt, clearLowestBit, UInt32.toNat_and, hpred]
  have hle : n.toNat &&& (n.toNat - 1) ≤ n.toNat - 1 := Nat.and_le_right
  omega

/-- The skip ancestor of a block is below it. -/
theorem skipHeight_lt {height : UInt32} (hheight : height ≠ 0) : skipHeight height < height := by
  have hpos : 0 < height.toNat := Nat.pos_of_ne_zero fun hzero ↦ hheight (UInt32.toNat_inj.mp hzero)
  unfold skipHeight
  split
  · exact UInt32.lt_iff_toNat_lt.mpr hpos
  · next hlarge =>
    rw [UInt32.lt_iff_toNat_lt, Nat.not_lt] at hlarge
    have htwo : 2 ≤ height.toNat := hlarge
    split
    · have hpred : (height - 1).toNat = height.toNat - 1 :=
        UInt32.toNat_sub_of_le height 1 (UInt32.le_iff_toNat_le.mpr hpos)
      have hne : height - 1 ≠ 0 := by
        intro hzero
        rw [hzero, UInt32.toNat_zero] at hpred
        omega
      have hfirst : (clearLowestBit (height - 1)).toNat < (height - 1).toNat :=
        UInt32.lt_iff_toNat_lt.mp (clearLowestBit_lt hne)
      have hsecond : (clearLowestBit (clearLowestBit (height - 1))).toNat ≤
          (clearLowestBit (height - 1)).toNat :=
        UInt32.le_iff_toNat_le.mp (clearLowestBit_le _)
      have hbound : height.toNat < 2 ^ 32 := height.toNat_lt
      rw [UInt32.lt_iff_toNat_lt, UInt32.toNat_add, UInt32.toNat_one, Nat.mod_eq_of_lt (by omega)]
      omega
    · exact clearLowestBit_lt hheight

/-- The skip ancestor of a child is not above its parent, even where heights start again from zero. -/
theorem skipHeight_add_one_le (height : UInt32) : (skipHeight (height + 1)).toNat ≤ height.toNat := by
  by_cases hzero : height + 1 = 0
  · rw [hzero]
    exact Nat.zero_le _
  · have hlt : (skipHeight (height + 1)).toNat < (height + 1).toNat :=
      UInt32.lt_iff_toNat_lt.mp (skipHeight_lt hzero)
    have hsum : (height + 1).toNat ≤ height.toNat + 1 := by
      rw [UInt32.toNat_add]
      exact Nat.mod_le _ _
    omega

/-- Heights do not start again from zero between a block and a child above height zero. -/
theorem toNat_eq_succ_of_pos {height parent : UInt32} (hheight : height = parent + 1)
    (hpos : 0 < height.toNat) : height.toNat = parent.toNat + 1 := by
  have hbound : parent.toNat < 2 ^ 32 := parent.toNat_lt
  have hsum : height.toNat = (parent.toNat + 1) % 2 ^ 32 := by
    rw [hheight, UInt32.toNat_add, UInt32.toNat_one]
  omega

namespace BlockTree

variable {t t' : BlockTree}

/-! ## Ancestors -/

/-- An entry that is reached by parent links, the entry itself included. -/
inductive IsAncestor (t : BlockTree) : BlockId → BlockId → Prop where
  | refl (id : BlockId) : IsAncestor t id id
  | step {a p id : BlockId} {entry : BlockEntry} (hentry : t.get? id = some entry)
      (hparent : entry.parent = some p) (h : IsAncestor t a p) : IsAncestor t a id

theorem IsAncestor.trans {a b c : BlockId} (hab : t.IsAncestor a b) (hbc : t.IsAncestor b c) :
    t.IsAncestor a c := by
  induction hbc with
  | refl => exact hab
  | step hentry hparent _ ih => exact .step hentry hparent ih

/-- The ancestors of an entry are the entry itself and those of its parent. -/
theorem isAncestor_iff {a id : BlockId} {entry : BlockEntry} (hentry : t.get? id = some entry) :
    t.IsAncestor a id ↔ a = id ∨ ∃ p, entry.parent = some p ∧ t.IsAncestor a p := by
  constructor
  · intro h
    cases h with
    | refl => exact .inl rfl
    | step hsame hparent h =>
      rw [hentry] at hsame
      cases hsame
      exact .inr ⟨_, hparent, h⟩
  · rintro (rfl | ⟨p, hparent, h⟩)
    · exact .refl a
    · exact .step hentry hparent h

/-- The greatest timestamp of an entry and its ancestors. -/
structure IsLatestTime (t : BlockTree) (id : BlockId) (time : UInt32) : Prop where
  exists_eq : ∃ a ancestor, t.IsAncestor a id ∧ t.get? a = some ancestor ∧
    ancestor.header.timestamp = time
  le : ∀ a ancestor, t.IsAncestor a id → t.get? a = some ancestor →
    ancestor.header.timestamp ≤ time

/-- Entries of one tree are entries of the other. -/
def Grows (t t' : BlockTree) : Prop :=
  ∀ id entry, t.get? id = some entry → t'.get? id = some entry

theorem IsAncestor.mono {a id : BlockId} (hgrows : Grows t t') (h : t.IsAncestor a id) :
    t'.IsAncestor a id := by
  induction h with
  | refl => exact .refl a
  | step hentry hparent _ ih => exact .step (hgrows _ _ hentry) hparent ih

/-! ## Places in the tree -/

structure IsRoot (entry : BlockEntry) : Prop where
  parent_eq : entry.parent = none
  height_eq : entry.height = 0
  skip_eq : entry.skip = none
  chainWork_eq : entry.chainWork = blockProof entry.header.bits
  timeMax_eq : entry.timeMax = entry.header.timestamp

structure IsBelow (t : BlockTree) (entry : BlockEntry) (p : BlockId) (parent : BlockEntry) : Prop where
  parent_eq : entry.parent = some p
  previous_eq : parent.hash = entry.header.previous
  height_eq : entry.height = parent.height + 1
  /-- The skip ancestor is an ancestor of the parent, at the height that is computed for it. -/
  skip_eq : ∃ s skip, entry.skip = some s ∧ t.IsAncestor s p ∧ t.get? s = some skip ∧
    skip.height = skipHeight entry.height
  /-- The work is added up, as far as it fits into 256 bits. -/
  chainWork_eq : entry.chainWork.toNat =
    (parent.chainWork.toNat + (blockProof entry.header.bits).toNat) % Word256.size
  timeMax_eq : entry.timeMax = max parent.timeMax entry.header.timestamp

theorem IsBelow.mono {entry parent : BlockEntry} {p : BlockId} (hgrows : Grows t t')
    (h : t.IsBelow entry p parent) : t'.IsBelow entry p parent := by
  obtain ⟨s, skip, hs, hancestor, hskip, hheight⟩ := h.skip_eq
  exact { h with skip_eq := ⟨s, skip, hs, hancestor.mono hgrows, hgrows s skip hskip, hheight⟩ }

/-! ## Walks -/

/-- A skip ancestor that helps is not past the target. -/
theorem le_of_skipHelps {height target : Nat} (h : skipHelps height target = true) :
    target ≤ (skipHeight (UInt32.ofNat height)).toNat := by
  unfold skipHelps at h
  simp only [Bool.or_eq_true, Bool.and_eq_true, beq_iff_eq, decide_eq_true_eq] at h
  omega

/-- The height that the next step of a walk leads to. -/
def nextHeight (height target : Nat) : Nat :=
  if skipHelps height target then (skipHeight (UInt32.ofNat height)).toNat else height - 1

section Heights

variable {height target : Nat}

theorem nextHeight_of_skipHelps (h : skipHelps height target = true) :
    nextHeight height target = (skipHeight (UInt32.ofNat height)).toNat :=
  if_pos h

theorem nextHeight_of_not_skipHelps (h : ¬skipHelps height target = true) :
    nextHeight height target = height - 1 :=
  if_neg h

/-- A step does not go past the target. -/
theorem le_nextHeight (h : target < height) : target ≤ nextHeight height target := by
  unfold nextHeight
  split
  · next hhelps => exact le_of_skipHelps hhelps
  · exact Nat.le_sub_one_of_lt h

/-- Every step goes down. -/
theorem nextHeight_lt (h : target < height) : nextHeight height target < height := by
  unfold nextHeight
  split
  · have hle : (UInt32.ofNat height).toNat ≤ height := by
      rw [UInt32.toNat_ofNat']
      exact Nat.mod_le _ _
    by_cases hzero : UInt32.ofNat height = 0
    · rw [hzero]
      exact Nat.zero_lt_of_lt h
    · exact Nat.lt_of_lt_of_le (UInt32.lt_iff_toNat_lt.mp (skipHeight_lt hzero)) hle
  · exact Nat.sub_one_lt_of_lt h

end Heights

/-- The number of steps of a walk from one height to a lower one. -/
def hops (height target : Nat) : Nat :=
  if hdone : height ≤ target then 0 else hops (nextHeight height target) target + 1
termination_by height
decreasing_by exact nextHeight_lt (Nat.lt_of_not_le hdone)

theorem hops_of_le {height target : Nat} (h : height ≤ target) : hops height target = 0 := by
  rw [hops, dif_pos h]

theorem hops_of_lt {height target : Nat} (h : target < height) :
    hops height target = hops (nextHeight height target) target + 1 := by
  rw [hops, dif_neg (Nat.not_le_of_lt h)]

theorem ancestorWithSteps?_of_le {id : BlockId} {entry : BlockEntry} {height : Nat}
    (hentry : t.get? id = some entry) (hheight : height ≤ entry.height.toNat) :
    t.ancestorWithSteps? id height = t.walk height id entry.height.toNat 0 := by
  unfold ancestorWithSteps?
  rw [hentry]
  exact if_neg (Nat.not_lt_of_le hheight)

/-- Above an entry there is no ancestor. -/
theorem ancestorWithSteps?_of_lt {id : BlockId} {entry : BlockEntry} {height : Nat}
    (hentry : t.get? id = some entry) (hheight : entry.height.toNat < height) :
    t.ancestorWithSteps? id height = none := by
  unfold ancestorWithSteps?
  rw [hentry]
  exact if_pos hheight

/-- What walks rely on: every entry with a parent is one block above it, as words count, and its skip
ancestor is an ancestor at the height that is computed for it. There may be several entries without a
parent, all of them at height zero. -/
structure IsSkipList (t : BlockTree) : Prop where
  height_eq_zero : ∀ id entry, t.get? id = some entry → entry.parent = none → entry.height = 0
  below : ∀ id entry p, t.get? id = some entry → entry.parent = some p →
    ∃ parent s skip, t.get? p = some parent ∧ entry.height = parent.height + 1 ∧
      entry.skip = some s ∧ t.IsAncestor s id ∧ t.get? s = some skip ∧
        skip.height = skipHeight entry.height

namespace IsSkipList

/-- One step of a walk goes to an ancestor. -/
theorem stepBack?_eq_some (h : t.IsSkipList) {id : BlockId} {entry : BlockEntry} {target : Nat}
    (hentry : t.get? id = some entry) (htarget : target < entry.height.toNat) :
    ∃ p next nextEntry, entry.parent = some p ∧
      stepBack? entry entry.height.toNat target = some (next, nextHeight entry.height.toNat target) ∧
      t.get? next = some nextEntry ∧ nextEntry.height.toNat = nextHeight entry.height.toNat target ∧
      t.IsAncestor next id := by
  cases hp : entry.parent with
  | none =>
    rw [h.height_eq_zero id entry hentry hp] at htarget
    exact absurd htarget (Nat.not_lt_zero target)
  | some p =>
    obtain ⟨parent, s, skip, hparent, hheight, hs, hancestor, hskip, hskipHeight⟩ :=
      h.below id entry p hentry hp
    by_cases hhelps : skipHelps entry.height.toNat target = true
    · rw [nextHeight_of_skipHelps hhelps, UInt32.ofNat_toNat]
      refine ⟨p, s, skip, rfl, ?_, hskip, congrArg _ hskipHeight, hancestor⟩
      unfold stepBack?
      rw [hs]
      dsimp only
      rw [if_pos hhelps, UInt32.ofNat_toNat]
    · rw [nextHeight_of_not_skipHelps hhelps]
      have hsucc := toNat_eq_succ_of_pos hheight (Nat.zero_lt_of_lt htarget)
      refine ⟨p, p, parent, rfl, ?_, hparent, (Nat.sub_eq_of_eq_add hsucc).symm, .step hentry hp (.refl p)⟩
      unfold stepBack?
      rw [hs]
      dsimp only
      rw [if_neg hhelps, hp]
      rfl

/-- A walk ends at an ancestor at the height that is asked for, after as many steps as the two heights
tell. -/
theorem walk_eq_some (h : t.IsSkipList) {id : BlockId} {entry : BlockEntry} {target : Nat}
    (hentry : t.get? id = some entry) (htarget : target ≤ entry.height.toNat) (steps : Nat) :
    ∃ a found, t.walk target id entry.height.toNat steps =
        some (a, steps + hops entry.height.toNat target) ∧
      t.IsAncestor a id ∧ t.get? a = some found ∧ found.height.toNat = target := by
  -- By induction on the height: each step leads to a smaller one.
  induction hheight : entry.height.toNat using Nat.strongRecOn generalizing id entry steps with
  | ind height ih =>
    subst hheight
    unfold walk
    by_cases hdone : entry.height.toNat ≤ target
    · rw [dif_pos hdone, hops_of_le hdone]
      exact ⟨id, entry, rfl, .refl id, hentry, Nat.le_antisymm hdone htarget⟩
    · have habove : target < entry.height.toNat := Nat.lt_of_not_le hdone
      obtain ⟨-, next, nextEntry, -, hstep, hnext, hlower, hancestor⟩ := h.stepBack?_eq_some hentry habove
      have hle : target ≤ nextEntry.height.toNat := hlower ▸ le_nextHeight habove
      have hlt : nextHeight entry.height.toNat target < entry.height.toNat := nextHeight_lt habove
      obtain ⟨a, found, hwalk, hrest, hfound, hat⟩ := ih _ (hlower ▸ hlt) hnext hle (steps + 1) rfl
      rw [dif_neg hdone, hentry, Option.bind_some, hstep]
      dsimp only
      rw [dif_pos hlt, hops_of_lt habove, ← hlower]
      refine ⟨a, found, ?_, hrest.trans hancestor, hfound, hat⟩
      rw [hwalk, Nat.add_assoc, Nat.add_comm 1]

/-- Every height up to that of an entry has an ancestor, and the walk finds it. -/
theorem ancestorWithSteps?_eq_some (h : t.IsSkipList) {id : BlockId} {entry : BlockEntry} {height : Nat}
    (hentry : t.get? id = some entry) (hheight : height ≤ entry.height.toNat) :
    ∃ a found, t.ancestorWithSteps? id height = some (a, hops entry.height.toNat height) ∧
      t.IsAncestor a id ∧ t.get? a = some found ∧ found.height.toNat = height := by
  obtain ⟨a, found, hwalk, hancestor, hfound, hat⟩ := h.walk_eq_some hentry hheight 0
  refine ⟨a, found, ?_, hancestor, hfound, hat⟩
  rw [ancestorWithSteps?_of_le hentry hheight, hwalk, Nat.zero_add]

end IsSkipList

/-! ## Linked trees -/

/-- All entries but the first are below earlier ones. -/
structure IsLinked (t : BlockTree) : Prop where
  root : ∀ entry, t.get? 0 = some entry → IsRoot entry
  below : ∀ id entry, t.get? id = some entry → id ≠ 0 →
    ∃ p parent, p < id ∧ t.get? p = some parent ∧ t.IsBelow entry p parent

namespace IsLinked

/-- The first entry of a tree is the only one without a parent. -/
theorem parent_eq_none_iff (h : t.IsLinked) {id : BlockId} {entry : BlockEntry}
    (hentry : t.get? id = some entry) : entry.parent = none ↔ id = 0 := by
  constructor
  · intro hnone
    apply Classical.byContradiction
    intro hid
    obtain ⟨p, parent, -, -, hbelow⟩ := h.below id entry hentry hid
    rw [hbelow.parent_eq] at hnone
    cases hnone
  · rintro rfl
    exact (h.root entry hentry).parent_eq

/-- Heights do not exceed numbers, so that they are exact as long as numbers of entries fit a word. -/
theorem height_le (h : t.IsLinked) {id : BlockId} {entry : BlockEntry}
    (hentry : t.get? id = some entry) : entry.height.toNat ≤ id := by
  induction id using Nat.strongRecOn generalizing entry with
  | ind id ih =>
    by_cases hid : id = 0
    · subst hid
      rw [(h.root entry hentry).height_eq]
      exact Nat.le_refl 0
    · obtain ⟨p, parent, hp, hparent, hbelow⟩ := h.below id entry hentry hid
      have hle : parent.height.toNat ≤ p := ih p hp hparent
      rw [hbelow.height_eq, UInt32.toNat_add, UInt32.toNat_one]
      calc (parent.height.toNat + 1) % 2 ^ 32
        _ ≤ parent.height.toNat + 1 := Nat.mod_le _ _
        _ ≤ p + 1 := Nat.succ_le_succ hle
        _ ≤ id := hp

/-- Trees of headers have the links that walks need. -/
theorem isSkipList (h : t.IsLinked) : t.IsSkipList where
  height_eq_zero := by
    intro id entry hentry hnone
    rw [h.parent_eq_none_iff hentry] at hnone
    subst hnone
    exact (h.root entry hentry).height_eq
  below := by
    intro id entry p hentry hp
    have hid : id ≠ 0 := by
      intro hzero
      rw [(h.parent_eq_none_iff hentry).mpr hzero] at hp
      cases hp
    obtain ⟨q, parent, -, hparent, hbelow⟩ := h.below id entry hentry hid
    rw [hbelow.parent_eq] at hp
    cases hp
    obtain ⟨s, skip, hs, hancestor, hskip, hheight⟩ := hbelow.skip_eq
    exact ⟨parent, s, skip, hparent, hbelow.height_eq, hs, .step hentry hbelow.parent_eq hancestor, hskip,
      hheight⟩

theorem ancestor?_eq_some (h : t.IsLinked) {id : BlockId} {entry : BlockEntry} {height : Nat}
    (hentry : t.get? id = some entry) (hheight : height ≤ entry.height.toNat) :
    ∃ a found, t.ancestor? id height = some a ∧ t.IsAncestor a id ∧ t.get? a = some found ∧
      found.height.toNat = height := by
  obtain ⟨a, found, hwalk, hrest⟩ := h.isSkipList.ancestorWithSteps?_eq_some hentry hheight
  refine ⟨a, found, ?_, hrest⟩
  rw [ancestor?, hwalk]
  rfl

/-! ## Times -/

/-- The later of two times. -/
theorem latest_cases (a b : UInt32) : a ≤ max a b ∧ b ≤ max a b ∧ (max a b = a ∨ max a b = b) := by
  have hmax : max a b = if a ≤ b then b else a := rfl
  rw [hmax]
  split
  · next hle => exact ⟨hle, UInt32.le_refl b, .inr rfl⟩
  · next hlt => exact ⟨UInt32.le_refl a, UInt32.le_of_lt (UInt32.not_le.mp hlt), .inl rfl⟩

/-- The time that is kept with an entry is the latest one on the way to the root. -/
theorem isLatestTime (h : t.IsLinked) {id : BlockId} {entry : BlockEntry}
    (hentry : t.get? id = some entry) : t.IsLatestTime id entry.timeMax := by
  induction id using Nat.strongRecOn generalizing entry with
  | ind id ih =>
    by_cases hid : id = 0
    · subst hid
      have hroot : IsRoot entry := h.root entry hentry
      rw [hroot.timeMax_eq]
      refine ⟨⟨0, entry, .refl 0, hentry, rfl⟩, ?_⟩
      intro a ancestor hancestor ha
      rcases (isAncestor_iff hentry).mp hancestor with rfl | ⟨p, hparent, -⟩
      · rw [hentry] at ha
        cases ha
        exact UInt32.le_refl _
      · rw [hroot.parent_eq] at hparent
        cases hparent
    · obtain ⟨p, parent, hp, hparent, hbelow⟩ := h.below id entry hentry hid
      have hlatest : t.IsLatestTime p parent.timeMax := ih p hp hparent
      obtain ⟨hleft, hright, hcases⟩ := latest_cases parent.timeMax entry.header.timestamp
      rw [hbelow.timeMax_eq]
      constructor
      case exists_eq =>
        rcases hcases with heq | heq
        · obtain ⟨a, ancestor, hancestor, ha, htime⟩ := hlatest.exists_eq
          exact ⟨a, ancestor, .step hentry hbelow.parent_eq hancestor, ha, htime.trans heq.symm⟩
        · exact ⟨id, entry, .refl id, hentry, heq.symm⟩
      case le =>
        intro a ancestor hancestor ha
        rcases (isAncestor_iff hentry).mp hancestor with rfl | ⟨q, hq, habove⟩
        · rw [hentry] at ha
          cases ha
          exact hright
        · rw [hbelow.parent_eq] at hq
          cases hq
          exact UInt32.le_trans (hlatest.le a ancestor habove ha) hleft

end IsLinked

end BlockTree

end UtxoConsensus
