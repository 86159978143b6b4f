import UtxoConsensus.Proofs.BlockTree.Acceptance

/-!
# Paths

The path of an entry lists the entries from the first one down to it, each the parent of the next. As
long as no height overflows, the position of an entry on a path is its height. So an entry has exactly one
ancestor at each height up to its own, and every beginning of its path is the path of such an ancestor.
-/

namespace UtxoConsensus.BlockTree

variable {t t' : BlockTree}

/-! ## Heights -/

/-- No height of the tree has overflowed: an entry whose height starts again from zero would have it, and
only the first entry does. -/
def HeightsFit (t : BlockTree) : Prop :=
  ∀ id entry, t.get? id = some entry → entry.height = 0 → id = 0

theorem HeightsFit.of_grows (hfit : t'.HeightsFit) (hgrows : Grows t t') : t.HeightsFit :=
  fun id entry hentry ↦ hfit id entry (hgrows id entry hentry)

/-- Heights do not overflow as long as a word can number the entries. -/
theorem IsSound.heightsFit (h : t.IsSound) (hsize : t.size ≤ UInt32.size) : t.HeightsFit := by
  intro id entry hentry hzero
  apply Classical.byContradiction
  intro hid
  obtain ⟨p, parent, -, hparent, hbelow⟩ := h.below id entry hentry hid
  have hsucc : entry.height.toNat = parent.height.toNat + 1 :=
    h.height_eq hsize hentry hbelow.parent_eq hparent
  rw [hzero] at hsucc
  exact absurd hsucc.symm (Nat.succ_ne_zero _)

/-- A word can hold the height that a block below an entry has. -/
def HasHeightBelow (t : BlockTree) (id : BlockId) : Prop :=
  ∀ entry, t.get? id = some entry → entry.height.toNat + 1 < UInt32.size

theorem HasHeightBelow.toNat_succ {id : BlockId} {entry : BlockEntry} (h : t.HasHeightBelow id)
    (hentry : t.get? id = some entry) : (entry.height + 1).toNat = entry.height.toNat + 1 := by
  rw [UInt32.toNat_add, UInt32.toNat_one]
  exact Nat.mod_eq_of_lt (h entry hentry)

theorem IsSound.hasHeightBelow (h : t.IsSound) (hsize : t.size < UInt32.size) (id : BlockId) :
    t.HasHeightBelow id := by
  intro entry hentry
  calc entry.height.toNat + 1
    _ ≤ id + 1 := Nat.succ_le_succ (h.height_le hentry)
    _ ≤ t.size := lt_size hentry
    _ < UInt32.size := hsize

namespace IsLinked

/-- The first entry stands at height zero. -/
theorem height_eq_zero (h : t.IsLinked) {entry : BlockEntry} (hentry : t.get? 0 = some entry) :
    entry.height.toNat = 0 := by
  rw [(h.root entry hentry).height_eq]
  rfl

/-- Where heights do not overflow, a child is one block above its parent. -/
theorem height_eq_succ (h : t.IsLinked) (hfit : t.HeightsFit) {id p : BlockId}
    {entry parent : BlockEntry} (hentry : t.get? id = some entry) (hp : entry.parent = some p)
    (hparent : t.get? p = some parent) : entry.height.toNat = parent.height.toNat + 1 := by
  have hid : id ≠ 0 := by
    intro hzero
    rw [(h.parent_eq_none_iff hentry).mpr hzero] at hp
    cases hp
  obtain ⟨q, above, -, habove, hbelow⟩ := h.below id entry hentry hid
  rw [hbelow.parent_eq] at hp
  cases hp
  rw [hparent] at habove
  cases habove
  have hne : entry.height.toNat ≠ 0 := fun hzero ↦ hid (hfit id entry hentry (UInt32.toNat_inj.mp hzero))
  exact toNat_eq_succ_of_pos hbelow.height_eq (Nat.pos_of_ne_zero hne)

/-- What holds of the first entry, and of an entry if it holds of its parent, holds of all entries. -/
@[elab_as_elim]
theorem induction (h : t.IsLinked) {motive : ∀ id entry, t.get? id = some entry → Prop}
    (root : ∀ entry (hentry : t.get? 0 = some entry), entry.parent = none → motive 0 entry hentry)
    (below : ∀ id entry p parent (hentry : t.get? id = some entry) (hparent : t.get? p = some parent),
      entry.parent = some p → p < id → motive p parent hparent → motive id entry hentry)
    (id : BlockId) (entry : BlockEntry) (hentry : t.get? id = some entry) : motive id entry hentry := by
  induction id using Nat.strongRecOn generalizing entry with
  | ind id ih =>
    by_cases hid : id = 0
    · subst hid
      exact root entry hentry (h.root entry hentry).parent_eq
    · obtain ⟨p, parent, hp, hparent, hbelow⟩ := h.below id entry hentry hid
      exact below id entry p parent hentry hparent hbelow.parent_eq hp (ih p hp parent hparent)

end IsLinked

/-! ## Paths -/

/-- The entries from the first one down to the given one. -/
def path (t : BlockTree) (id : BlockId) : List BlockId :=
  match (t.get? id).bind BlockEntry.parent with
  | none => [id]
  | some p => if _h : p < id then path t p ++ [id] else [id]
termination_by id

theorem path_of_root {id : BlockId} {entry : BlockEntry} (hentry : t.get? id = some entry)
    (hparent : entry.parent = none) : t.path id = [id] := by
  unfold path
  rw [hentry, Option.bind_some, hparent]

theorem path_of_parent {id p : BlockId} {entry : BlockEntry} (hentry : t.get? id = some entry)
    (hp : entry.parent = some p) (hlt : p < id) : t.path id = t.path p ++ [id] := by
  rw [path, hentry, Option.bind_some, hp]
  exact dif_pos hlt

theorem getLast?_path (t : BlockTree) (id : BlockId) : (t.path id).getLast? = some id := by
  unfold path
  split
  · rfl
  · split
    · exact List.getLast?_concat
    · rfl

/-- An ancestor of an entry, itself included, and its height. -/
def IsAncestorAt (t : BlockTree) (a id : BlockId) (height : Nat) : Prop :=
  t.IsAncestor a id ∧ ∃ entry, t.get? a = some entry ∧ entry.height.toNat = height

/-- An ancestor at a height is the entry at its own height, or one of its parent. -/
theorem isAncestorAt_iff {a id : BlockId} {entry : BlockEntry} {height : Nat}
    (hentry : t.get? id = some entry) : t.IsAncestorAt a id height ↔
      a = id ∧ entry.height.toNat = height ∨
        ∃ p, entry.parent = some p ∧ t.IsAncestorAt a p height := by
  constructor
  · rintro ⟨hancestor, found, hfound, hheight⟩
    rcases (isAncestor_iff hentry).mp hancestor with rfl | ⟨p, hp, hrest⟩
    · rw [hentry] at hfound
      cases hfound
      exact .inl ⟨rfl, hheight⟩
    · exact .inr ⟨p, hp, hrest, found, hfound, hheight⟩
  · rintro (⟨rfl, hheight⟩ | ⟨p, hp, hancestor, hfound⟩)
    · exact ⟨.refl a, entry, hentry, hheight⟩
    · exact ⟨.step hentry hp hancestor, hfound⟩

namespace IsLinked

variable {id : BlockId} {entry : BlockEntry}

/-- Paths stay when a tree grows. -/
theorem path_mono (h : t.IsLinked) (hgrows : Grows t t') (hentry : t.get? id = some entry) :
    t'.path id = t.path id := by
  induction id, entry, hentry using h.induction with
  | root entry hentry hroot => rw [path_of_root hentry hroot, path_of_root (hgrows 0 entry hentry) hroot]
  | below id entry p parent hentry _ hp hlt ih =>
    rw [path_of_parent hentry hp hlt, path_of_parent (hgrows id entry hentry) hp hlt, ih]

/-- A path has one entry for each height from zero on. -/
theorem length_path (h : t.IsLinked) (hfit : t.HeightsFit) (hentry : t.get? id = some entry) :
    (t.path id).length = entry.height.toNat + 1 := by
  induction id, entry, hentry using h.induction with
  | root entry hentry hroot =>
    rw [path_of_root hentry hroot, h.height_eq_zero hentry]
    rfl
  | below id entry p parent hentry hparent hp hlt ih =>
    rw [path_of_parent hentry hp hlt, List.length_append, ih, h.height_eq_succ hfit hentry hp hparent]
    rfl

/-- The position of an entry on a path is its height. -/
theorem getElem?_path_eq_some_iff (h : t.IsLinked) (hfit : t.HeightsFit)
    (hentry : t.get? id = some entry) {height : Nat} {a : BlockId} :
    (t.path id)[height]? = some a ↔ t.IsAncestorAt a id height := by
  induction id, entry, hentry using h.induction generalizing height with
  | root entry hentry hroot =>
    rw [path_of_root hentry hroot, isAncestorAt_iff hentry, hroot, h.height_eq_zero hentry,
      List.getElem?_singleton]
    simp [eq_comm, and_comm]
  | below id entry p parent hentry hparent hp hlt ih =>
    have hlength : (t.path p).length = entry.height.toNat := by
      rw [h.length_path hfit hparent, h.height_eq_succ hfit hentry hp hparent]
    rw [path_of_parent hentry hp hlt, isAncestorAt_iff hentry, hp]
    simp only [Option.some.injEq, exists_eq_left', ← ih]
    rcases Nat.lt_trichotomy height entry.height.toNat with hless | heq | hmore
    · rw [List.getElem?_append_left (hlength ▸ hless)]
      simp [Nat.ne_of_gt hless]
    · subst heq
      rw [← hlength, List.getElem?_concat_length, List.getElem?_eq_none (Nat.le_refl _)]
      simp [eq_comm]
    · have hlong : (t.path p ++ [id]).length ≤ height := by
        rw [List.length_append, hlength]
        exact hmore
      rw [List.getElem?_eq_none hlong, List.getElem?_eq_none (hlength ▸ Nat.le_of_lt hmore)]
      simp [Nat.ne_of_lt hmore]

/-- Ancestors are entries of the tree. -/
theorem get?_of_isAncestor (h : t.IsLinked) (hentry : t.get? id = some entry) {a : BlockId}
    (ha : t.IsAncestor a id) : ∃ found, t.get? a = some found := by
  induction id, entry, hentry using h.induction with
  | root entry hentry hroot =>
    rcases (isAncestor_iff hentry).mp ha with rfl | ⟨p, hp, -⟩
    · exact ⟨entry, hentry⟩
    · rw [hroot] at hp
      cases hp
  | below id entry p parent hentry hparent hp hlt ih =>
    rcases (isAncestor_iff hentry).mp ha with rfl | ⟨q, hq, habove⟩
    · exact ⟨entry, hentry⟩
    · rw [hp] at hq
      cases hq
      exact ih habove

/-- All entries descend from the first one. -/
theorem isAncestor_zero (h : t.IsLinked) (hentry : t.get? id = some entry) : t.IsAncestor 0 id := by
  induction id, entry, hentry using h.induction with
  | root entry hentry hroot => exact .refl 0
  | below id entry p parent hentry hparent hp hlt ih => exact .step hentry hp ih

/-- No ancestor is above the entry. -/
theorem le_height (h : t.IsLinked) (hfit : t.HeightsFit) (hentry : t.get? id = some entry)
    {a : BlockId} {height : Nat} (ha : t.IsAncestorAt a id height) : height ≤ entry.height.toNat := by
  have hget := (h.getElem?_path_eq_some_iff hfit hentry).mpr ha
  obtain ⟨hlt, -⟩ := List.getElem?_eq_some_iff.mp hget
  rw [h.length_path hfit hentry] at hlt
  exact Nat.le_of_lt_succ hlt

/-- Every height up to that of an entry has an ancestor. -/
theorem exists_isAncestorAt (h : t.IsLinked) (hfit : t.HeightsFit) (hentry : t.get? id = some entry)
    {height : Nat} (hle : height ≤ entry.height.toNat) : ∃ a, t.IsAncestorAt a id height := by
  have hlt : height < (t.path id).length := by
    rw [h.length_path hfit hentry]
    exact Nat.lt_succ_of_le hle
  exact ⟨_, (h.getElem?_path_eq_some_iff hfit hentry).mp (List.getElem?_eq_getElem hlt)⟩

/-- There is one ancestor at a height. -/
theorem isAncestorAt_unique (h : t.IsLinked) (hfit : t.HeightsFit) (hentry : t.get? id = some entry)
    {a b : BlockId} {height : Nat} (ha : t.IsAncestorAt a id height) (hb : t.IsAncestorAt b id height) :
    a = b := by
  rw [← h.getElem?_path_eq_some_iff hfit hentry] at ha hb
  rw [ha] at hb
  exact Option.some.inj hb

/-- Every beginning of a path is the path of its last entry. -/
theorem take_path (h : t.IsLinked) (hfit : t.HeightsFit) (hentry : t.get? id = some entry)
    {a : BlockId} {height : Nat} (ha : t.IsAncestorAt a id height) :
    (t.path id).take (height + 1) = t.path a := by
  induction id, entry, hentry using h.induction with
  | root entry hentry hroot =>
    rcases (isAncestorAt_iff hentry).mp ha with ⟨rfl, -⟩ | ⟨p, hp, -⟩
    · rw [path_of_root hentry hroot, List.take_succ_cons, List.take_nil]
    · rw [hroot] at hp
      cases hp
  | below id entry p parent hentry hparent hp hlt ih =>
    rcases (isAncestorAt_iff hentry).mp ha with ⟨rfl, rfl⟩ | ⟨q, hq, habove⟩
    · rw [← h.length_path hfit hentry, List.take_length]
    · rw [hp] at hq
      cases hq
      have hle : height + 1 ≤ (t.path p).length := by
        rw [h.length_path hfit hparent]
        exact Nat.succ_le_succ (h.le_height hfit hparent habove)
      rw [path_of_parent hentry hp hlt, List.take_append_of_le_length hle, ih habove]

/-- Of two ancestors of an entry the lower one is an ancestor of the other. -/
theorem isAncestorAt_of_le (h : t.IsLinked) (hfit : t.HeightsFit) (hentry : t.get? id = some entry)
    {a b : BlockId} {low high : Nat} (ha : t.IsAncestorAt a id low) (hb : t.IsAncestorAt b id high)
    (hle : low ≤ high) : t.IsAncestorAt a b low := by
  obtain ⟨found, hfound, -⟩ := hb.2
  rw [← h.getElem?_path_eq_some_iff hfit hfound, ← h.take_path hfit hentry hb,
    List.getElem?_take_of_lt (Nat.lt_succ_of_le hle)]
  exact (h.getElem?_path_eq_some_iff hfit hentry).mpr ha

end IsLinked

end UtxoConsensus.BlockTree
