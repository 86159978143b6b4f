import UtxoConsensus.ActiveChain.Basic
import UtxoConsensus.Proofs.BlockTree.Paths

/-!
# Changing the tip

However the tip is changed, the blocks of the active chain are the path of its tip. The array is rewritten
from the new tip downwards and left as it is below the first block that has its place already. This is
right as the old blocks are a path: below a block of a path everything is as on the path of this block.
-/

namespace UtxoConsensus.ActiveChain

variable {t : BlockTree}

/-! ## One block -/

/-- A block that is written stands at its height, in front of those above it. -/
theorem drop_place (blocks : Array BlockId) (above : List BlockId) (height : Nat) (id : BlockId) :
    (place blocks above height id).1.toList.drop height ++ (place blocks above height id).2 =
      id :: (blocks.toList.drop (height + 1) ++ above) := by
  unfold place
  by_cases hlt : height < blocks.size
  · rw [if_pos hlt]
    have hlength : height < (blocks.toList.set height id).length := by
      rwa [List.length_set, Array.length_toList]
    rw [Array.toList_setIfInBounds, List.drop_eq_getElem_cons hlength, List.getElem_set_self,
      List.drop_set_of_lt (Nat.lt_succ_self height), List.cons_append]
  · rw [if_neg hlt]
    have hle : blocks.toList.length ≤ height := by
      rw [Array.length_toList]
      exact Nat.le_of_not_lt hlt
    rw [List.drop_eq_nil_of_le hle, List.drop_eq_nil_of_le (Nat.le_succ_of_le hle)]
    rfl

/-- The blocks below it stay as they are. -/
theorem take_place (blocks : Array BlockId) (above : List BlockId) (height : Nat) (id : BlockId) :
    (place blocks above height id).1.toList.take height = blocks.toList.take height := by
  unfold place
  split
  · rw [Array.toList_setIfInBounds, List.take_set_of_le (Nat.le_refl height)]
  · rfl

/-! ## All blocks down to the old ones -/

/-- Up to a height, each block stands on its own path. -/
def HasPaths (t : BlockTree) (blocks : List BlockId) (height : Nat) : Prop :=
  ∀ k ≤ height, ∀ a, blocks[k]? = some a → blocks.take (k + 1) = t.path a

theorem HasPaths.of_take_eq {blocks blocks' : List BlockId} {height low : Nat}
    (h : HasPaths t blocks height) (hle : low + 1 ≤ height)
    (htake : blocks'.take (low + 1) = blocks.take (low + 1)) : HasPaths t blocks' low := by
  intro k hk a ha
  have hlt : k < low + 1 := Nat.lt_succ_of_le hk
  have hget : blocks[k]? = some a := by
    rw [← List.getElem?_take_of_lt hlt, ← htake, List.getElem?_take_of_lt hlt, ha]
  calc blocks'.take (k + 1)
    _ = (blocks'.take (low + 1)).take (k + 1) := by rw [List.take_take, Nat.min_eq_left hlt]
    _ = (blocks.take (low + 1)).take (k + 1) := by rw [htake]
    _ = blocks.take (k + 1) := by rw [List.take_take, Nat.min_eq_left hlt]
    _ = t.path a := h k (Nat.le_of_lt (Nat.lt_of_lt_of_le hlt hle)) a hget

/-- Nothing has to be written where the entry has its place already. -/
theorem toList_of_placed {id : BlockId} {height : Nat} {blocks : Array BlockId}
    (hpaths : HasPaths t blocks.toList height) (hplaced : blocks[height]? = some id)
    (above : List BlockId) :
    (blocks.appendList above).toList = t.path id ++ (blocks.toList.drop (height + 1) ++ above) := by
  have htake : blocks.toList.take (height + 1) = t.path id :=
    hpaths height (Nat.le_refl height) id (by rw [Array.getElem?_toList, hplaced])
  rw [Array.appendList_eq_append, Array.toList_appendList, ← htake, ← List.append_assoc,
    List.take_append_drop]

/-- The entry and its ancestors are written, and the blocks above the entry stay. -/
theorem toList_rewriteFrom (h : t.IsLinked) (hfit : t.HeightsFit) {id : BlockId} {entry : BlockEntry}
    (hentry : t.get? id = some entry) {blocks : Array BlockId} {above : List BlockId}
    (hpaths : HasPaths t blocks.toList entry.height.toNat) :
    (rewriteFrom t blocks above id).toList =
      t.path id ++ (blocks.toList.drop (entry.height.toNat + 1) ++ above) := by
  -- By induction along the parents: what has been written is always the path from some ancestor up.
  induction id, entry, hentry using h.induction generalizing blocks above with
  | root entry hentry hroot =>
    rw [rewriteFrom, hentry]
    dsimp only
    by_cases hplaced : blocks[entry.height.toNat]? = some 0
    · rw [if_pos hplaced, toList_of_placed hpaths hplaced]
    · have hdrop := drop_place blocks above entry.height.toNat 0
      rw [if_neg hplaced, hroot, BlockTree.path_of_root hentry hroot]
      dsimp only
      rw [Array.appendList_eq_append, Array.toList_appendList]
      rw [h.height_eq_zero hentry, List.drop_zero] at hdrop
      rw [h.height_eq_zero hentry]
      exact hdrop
  | below id entry p parent hentry hparent hp hlt ih =>
    have hheight : entry.height.toNat = parent.height.toNat + 1 :=
      h.height_eq_succ hfit hentry hp hparent
    rw [rewriteFrom, hentry]
    dsimp only
    by_cases hplaced : blocks[entry.height.toNat]? = some id
    · rw [if_pos hplaced, toList_of_placed hpaths hplaced]
    · have htake := take_place blocks above entry.height.toNat id
      have hrest : HasPaths t (place blocks above entry.height.toNat id).1.toList
          parent.height.toNat := by
        apply hpaths.of_take_eq (Nat.le_of_eq hheight.symm)
        rwa [hheight] at htake ⊢
      rw [if_neg hplaced, hp]
      dsimp only
      rw [dif_pos hlt, ih hrest, ← hheight, drop_place,
        BlockTree.path_of_parent hentry hp hlt, List.append_assoc]
      rfl

/-! ## Chains -/

/-- The blocks of a chain are those of a path, or there are none. -/
def IsPath (c : ActiveChain) (t : BlockTree) : Prop :=
  c.blocks = #[] ∨ ∃ tip entry, t.get? tip = some entry ∧ c.blocks.toList = t.path tip

theorem isPath_empty (t : BlockTree) : empty.IsPath t :=
  .inl rfl

/-- New entries leave the old paths as they are. -/
theorem IsPath.mono {t' : BlockTree} {c : ActiveChain} (hpath : c.IsPath t) (h : t.IsLinked)
    (hgrows : BlockTree.Grows t t') : c.IsPath t' := by
  rcases hpath with hempty | ⟨tip, entry, hentry, hblocks⟩
  · exact .inl hempty
  · exact .inr ⟨tip, entry, hgrows tip entry hentry, by rw [hblocks, h.path_mono hgrows hentry]⟩

/-- The blocks of a path stand on their own paths, however many of them are kept. -/
theorem IsPath.hasPaths {c : ActiveChain} (hpath : c.IsPath t) (h : t.IsLinked) (hfit : t.HeightsFit)
    (height : Nat) : HasPaths t (c.blocks.toList.take (height + 1)) height := by
  intro k hk a ha
  have hlt : k < height + 1 := Nat.lt_succ_of_le hk
  rw [List.getElem?_take_of_lt hlt] at ha
  rw [List.take_take, Nat.min_eq_left hlt]
  rcases hpath with hempty | ⟨tip, entry, hentry, hblocks⟩
  · rw [hempty] at ha
    cases ha
  · rw [hblocks] at ha ⊢
    exact h.take_path hfit hentry ((h.getElem?_path_eq_some_iff hfit hentry).mp ha)

/-- Whatever the old tip was, the blocks are those of the path of the new one. -/
theorem toList_setTip {c : ActiveChain} (hpath : c.IsPath t) (h : t.IsLinked) (hfit : t.HeightsFit)
    {tip : BlockId} {entry : BlockEntry} (hentry : t.get? tip = some entry) :
    (c.setTip t (some tip)).blocks.toList = t.path tip := by
  have hkept : (c.blocks.take (entry.height.toNat + 1)).toList =
      c.blocks.toList.take (entry.height.toNat + 1) := by
    simp only [Array.take_eq_extract, Array.toList_extract, List.extract_eq_take_drop, Nat.sub_zero,
      List.drop_zero]
  have hpaths : HasPaths t (c.blocks.take (entry.height.toNat + 1)).toList entry.height.toNat := by
    rw [hkept]
    exact hpath.hasPaths h hfit entry.height.toNat
  have hdrop : (c.blocks.take (entry.height.toNat + 1)).toList.drop (entry.height.toNat + 1) = [] := by
    apply List.drop_eq_nil_of_le
    rw [hkept]
    exact List.length_take_le _ _
  have hset : c.setTip t (some tip) =
      ⟨rewriteFrom t (c.blocks.take (entry.height.toNat + 1)) [] tip⟩ := by
    unfold setTip
    dsimp only
    rw [hentry]
  rw [hset, toList_rewriteFrom h hfit hentry hpaths, hdrop, List.append_nil, List.append_nil]

/-- Whatever the new tip is, the blocks are a path again. -/
theorem IsPath.setTip {c : ActiveChain} (hpath : c.IsPath t) (h : t.IsLinked) (hfit : t.HeightsFit)
    (tip : Option BlockId) : (c.setTip t tip).IsPath t := by
  cases tip with
  | none => exact isPath_empty t
  | some tip =>
    cases hentry : t.get? tip with
    | none =>
      unfold ActiveChain.setTip
      dsimp only
      rwa [hentry]
    | some entry => exact .inr ⟨tip, entry, hentry, toList_setTip hpath h hfit hentry⟩

/-! ## What is read from a chain -/

/-- A chain with a tip: as many blocks as the tip has ancestors, each of them at its height. -/
structure EndsAt (c : ActiveChain) (t : BlockTree) (tip : BlockId) : Prop where
  tip?_eq : c.tip? = some tip
  size_eq : ∃ entry, t.get? tip = some entry ∧ c.size = entry.height.toNat + 1
  get?_eq_some_iff : ∀ height a, c.get? height = some a ↔ t.IsAncestorAt a tip height

theorem endsAt_of_toList {c : ActiveChain} (h : t.IsLinked) (hfit : t.HeightsFit) {tip : BlockId}
    {entry : BlockEntry} (hentry : t.get? tip = some entry) (hblocks : c.blocks.toList = t.path tip) :
    c.EndsAt t tip where
  tip?_eq := by
    unfold tip?
    rw [← Array.getLast?_toList, hblocks, BlockTree.getLast?_path]
  size_eq := by
    refine ⟨entry, hentry, ?_⟩
    rw [← h.length_path hfit hentry, ← hblocks]
    exact Array.length_toList.symm
  get?_eq_some_iff height a := by
    rw [← h.getElem?_path_eq_some_iff hfit hentry, ← hblocks, Array.getElem?_toList]
    rfl

/-- A path has no blocks, or it has a tip. -/
theorem IsPath.cases {c : ActiveChain} (hpath : c.IsPath t) (h : t.IsLinked) (hfit : t.HeightsFit) :
    c.blocks = #[] ∨ ∃ tip, c.EndsAt t tip := by
  rcases hpath with hempty | ⟨tip, entry, hentry, hblocks⟩
  · exact .inl hempty
  · exact .inr ⟨tip, endsAt_of_toList h hfit hentry hblocks⟩

theorem IsPath.endsAt_of_tip? {c : ActiveChain} (hpath : c.IsPath t) (h : t.IsLinked)
    (hfit : t.HeightsFit) {tip : BlockId} (htip : c.tip? = some tip) : c.EndsAt t tip := by
  rcases hpath.cases h hfit with hblocks | ⟨last, hends⟩
  · unfold tip? at htip
    rw [hblocks] at htip
    cases htip
  · rw [hends.tip?_eq] at htip
    cases htip
    exact hends

theorem contains_empty (t : BlockTree) (id : BlockId) : empty.contains t id = false := by
  unfold contains
  cases t.get? id <;> rfl

theorem next?_empty (t : BlockTree) (id : BlockId) : empty.next? t id = none := by
  unfold next?
  cases t.get? id <;> rfl

namespace EndsAt

variable {c : ActiveChain} {tip : BlockId}

/-- The blocks of a chain are the ancestors of its tip. -/
theorem contains_iff (hends : c.EndsAt t tip) (h : t.IsLinked) {id : BlockId} :
    c.contains t id = true ↔ t.IsAncestor id tip := by
  obtain ⟨last, hlast, -⟩ := hends.size_eq
  unfold contains
  constructor
  · intro hcontains
    obtain ⟨entry, hentry, hget⟩ := (Option.any_eq_true _ _).mp hcontains
    exact ((hends.get?_eq_some_iff _ _).mp (beq_iff_eq.mp hget)).1
  · intro hancestor
    obtain ⟨entry, hentry⟩ := h.get?_of_isAncestor hlast hancestor
    have hget : c.get? entry.height.toNat = some id :=
      (hends.get?_eq_some_iff _ _).mpr ⟨hancestor, entry, hentry, rfl⟩
    rw [hentry, Option.any_some, hget, beq_self_eq_true]

/-- A block has a successor on the chain as long as a word can hold the height of one. -/
theorem next?_eq_some_iff (hends : c.EndsAt t tip) (h : t.IsLinked) (hfit : t.HeightsFit)
    {id next : BlockId} (hid : t.HasHeightBelow id) : c.next? t id = some next ↔
      t.IsAncestor next tip ∧ ∃ entry, t.get? next = some entry ∧ entry.parent = some id := by
  obtain ⟨last, hlast, -⟩ := hends.size_eq
  constructor
  · intro hnext
    obtain ⟨entry, hentry, hget⟩ := Option.bind_eq_some_iff.mp hnext
    split at hget
    · next hplaced =>
      have hhere : t.IsAncestorAt id tip entry.height.toNat := (hends.get?_eq_some_iff _ _).mp hplaced
      rw [hid.toNat_succ hentry] at hget
      obtain ⟨hancestor, found, hfound, hheight⟩ := (hends.get?_eq_some_iff _ _).mp hget
      have hne : found.parent ≠ none := by
        intro hroot
        rw [h.parent_eq_none_iff hfound] at hroot
        subst hroot
        rw [h.height_eq_zero hfound] at hheight
        cases hheight
      obtain ⟨p, hp⟩ := Option.ne_none_iff_exists'.mp hne
      have hparent : t.IsAncestor p tip := .trans (.step hfound hp (.refl p)) hancestor
      obtain ⟨above, habove⟩ := h.get?_of_isAncestor hlast hparent
      have hbelow : above.height.toNat = entry.height.toNat := by
        have hsucc := h.height_eq_succ hfit hfound hp habove
        omega
      obtain rfl : p = id :=
        h.isAncestorAt_unique hfit hlast ⟨hparent, above, habove, hbelow⟩ hhere
      exact ⟨hancestor, found, hfound, hp⟩
    · cases hget
  · rintro ⟨hancestor, found, hfound, hp⟩
    have hparent : t.IsAncestor id tip := .trans (.step hfound hp (.refl id)) hancestor
    obtain ⟨entry, hentry⟩ := h.get?_of_isAncestor hlast hparent
    have hplaced : c.get? entry.height.toNat = some id :=
      (hends.get?_eq_some_iff _ _).mpr ⟨hparent, entry, hentry, rfl⟩
    have hget : c.get? (entry.height + 1).toNat = some next := by
      rw [hid.toNat_succ hentry]
      exact (hends.get?_eq_some_iff _ _).mpr
        ⟨hancestor, found, hfound, h.height_eq_succ hfit hfound hp hentry⟩
    unfold next?
    rw [hentry]
    exact (if_pos hplaced).trans hget

/-- Above the last height of a word the count starts again, so that the first block seems to follow. -/
theorem next?_of_last_height (hends : c.EndsAt t tip) {id : BlockId} {entry : BlockEntry}
    (hancestor : t.IsAncestor id tip) (hentry : t.get? id = some entry)
    (hlast : entry.height.toNat + 1 = UInt32.size) : c.next? t id = c.genesis? := by
  have hplaced : c.get? entry.height.toNat = some id :=
    (hends.get?_eq_some_iff _ _).mpr ⟨hancestor, entry, hentry, rfl⟩
  have hwrapped : (entry.height + 1).toNat = 0 := by
    rw [UInt32.toNat_add, UInt32.toNat_one, hlast]
    exact Nat.mod_self _
  unfold next?
  rw [hentry]
  refine (if_pos hplaced).trans ?_
  rw [hwrapped]
  rfl

end EndsAt

end UtxoConsensus.ActiveChain
