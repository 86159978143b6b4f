import UtxoConsensus.Proofs.ActiveChain.Forks
import UtxoConsensus.Proofs.ActiveChain.Histories

/-!
# Fork points

Where two entries have their last common ancestor is found in two ways. In the tree both walk back together
from the same height. They may skip as long as they land on different entries: an ancestor that both have
is then below, as each has only one ancestor at a height. In the active chain the search looks for the first
ancestor with a place in the array. Both find the one block that all common ancestors are ancestors of.
-/

namespace UtxoConsensus

open BlockTree (rootHeader childHeader)

namespace BlockTree

variable {t : BlockTree} {a b c d : BlockId} {x y : BlockEntry}

/-! ## Last common ancestors -/

/-- Parents were accepted before their children. -/
theorem IsLinked.parent_lt (h : t.IsLinked) (hx : t.get? a = some x) {p : BlockId}
    (hp : x.parent = some p) : p < a := by
  have ha : a ≠ 0 := by
    intro hzero
    rw [(h.parent_eq_none_iff hx).mpr hzero] at hp
    cases hp
  obtain ⟨q, parent, hlt, hparent, hbelow⟩ := h.below a x hx ha
  rw [hbelow.parent_eq] at hp
  cases hp
  exact hlt

/-- Ancestors were accepted before. -/
theorem IsLinked.le_of_isAncestor (h : t.IsLinked) (ha : t.IsAncestor a b) : a ≤ b := by
  induction ha with
  | refl => exact Nat.le_refl _
  | step hentry hp _ ih => exact Nat.le_trans ih (Nat.le_of_lt (h.parent_lt hentry hp))

theorem IsLinked.isAncestor_antisymm (h : t.IsLinked) (hab : t.IsAncestor a b)
    (hba : t.IsAncestor b a) : a = b :=
  Nat.le_antisymm (h.le_of_isAncestor hab) (h.le_of_isAncestor hba)

/-- An entry and its descendants fork at the entry itself. -/
theorem isFork_of_isAncestor (hab : t.IsAncestor a b) : t.IsFork a a b :=
  ⟨.refl a, hab, fun _ ha _ ↦ ha⟩

theorem IsFork.symm {fork : BlockId} (hfork : t.IsFork fork a b) : t.IsFork fork b a :=
  ⟨hfork.right, hfork.left, fun e hb ha ↦ hfork.last e ha hb⟩

/-- Two entries have one last common ancestor. -/
theorem IsFork.unique (h : t.IsLinked) {fork other : BlockId} (hfork : t.IsFork fork a b)
    (hother : t.IsFork other a b) : fork = other :=
  h.isAncestor_antisymm (hother.last fork hfork.left hfork.right)
    (hfork.last other hother.left hother.right)

/-! ## Going back without losing a common ancestor -/

/-- Two ancestors, one of each entry, that still have all common ancestors of the entries. -/
structure KeepShared (t : BlockTree) (c d a b : BlockId) : Prop where
  left : t.IsAncestor c a
  right : t.IsAncestor d b
  shared : ∀ e, t.IsAncestor e a → t.IsAncestor e b → t.IsAncestor e c ∧ t.IsAncestor e d

/-- Steps that lose no common ancestor do not lose the last one. -/
theorem KeepShared.isFork {fork : BlockId} (hkeep : t.KeepShared c d a b) (hfork : t.IsFork fork c d) :
    t.IsFork fork a b where
  left := hfork.left.trans hkeep.left
  right := hfork.right.trans hkeep.right
  last e ha hb :=
    have hshared := hkeep.shared e ha hb
    hfork.last e hshared.1 hshared.2

namespace IsLinked

variable {level : Nat}

/-- Where entries have different ancestors at a height, their common ancestors are below it. -/
theorem lt_of_isAncestorAt_ne (h : t.IsLinked) (hfit : t.HeightsFit) (hx : t.get? a = some x)
    (hy : t.get? b = some y) (hc : t.IsAncestorAt c a level) (hd : t.IsAncestorAt d b level)
    (hne : c ≠ d) {e : BlockId} {height : Nat} (ha : t.IsAncestorAt e a height)
    (hb : t.IsAncestor e b) : height < level := by
  apply Nat.lt_of_not_le
  intro hle
  obtain ⟨common, hcommon, -⟩ := ha.2
  have hleft : t.IsAncestorAt c e level := h.isAncestorAt_of_le hfit hx hc ha hle
  have hright : t.IsAncestorAt d e level := h.isAncestorAt_of_le hfit hy hd ⟨hb, ha.2⟩ hle
  exact hne (h.isAncestorAt_unique hfit hcommon hleft hright)

/-- Ancestors at one height keep the common ancestors if none of these is above. -/
theorem keepShared_of_le (h : t.IsLinked) (hfit : t.HeightsFit) (hx : t.get? a = some x)
    (hy : t.get? b = some y) (hc : t.IsAncestorAt c a level) (hd : t.IsAncestorAt d b level)
    (hlow : ∀ e height, t.IsAncestorAt e a height → t.IsAncestor e b → height ≤ level) :
    t.KeepShared c d a b where
  left := hc.1
  right := hd.1
  shared e ha hb := by
    obtain ⟨common, hcommon⟩ := h.get?_of_isAncestor hx ha
    have hat : t.IsAncestorAt e a common.height.toNat := ⟨ha, common, hcommon, rfl⟩
    have hle := hlow e _ hat hb
    exact ⟨(h.isAncestorAt_of_le hfit hx hat hc hle).1,
      (h.isAncestorAt_of_le hfit hy ⟨hb, hat.2⟩ hd hle).1⟩

/-- Entries that are brought to one height keep their common ancestors. -/
theorem align?_eq_some (h : t.IsLinked) (hfit : t.HeightsFit) (hx : t.get? a = some x)
    (hy : t.get? b = some y) : ∃ c d v w, t.align? a b = some (c, d) ∧ t.get? c = some v ∧
      t.get? d = some w ∧ v.height.toNat = w.height.toNat ∧ t.KeepShared c d a b ∧ (c = a ∨ d = b) := by
  unfold align?
  simp only [hx, hy, Option.bind_eq_bind, Option.bind_some]
  rcases Nat.lt_trichotomy x.height.toNat y.height.toNat with hlt | heq | hgt
  · obtain ⟨d, w, hd, hancestor, hw, hheight⟩ := h.ancestor?_eq_some hy (Nat.le_of_lt hlt)
    rw [if_neg (Nat.lt_asymm hlt), if_pos hlt, hd]
    refine ⟨a, d, x, w, rfl, hx, hw, hheight.symm, ?_, .inl rfl⟩
    apply h.keepShared_of_le hfit hx hy ⟨.refl a, x, hx, rfl⟩ ⟨hancestor, w, hw, hheight⟩
    exact fun e height ha _ ↦ h.le_height hfit hx ha
  · rw [if_neg (Nat.not_lt_of_le (Nat.le_of_eq heq)), if_neg (Nat.not_lt_of_le (Nat.le_of_eq heq.symm))]
    exact ⟨a, b, x, y, rfl, hx, hy, heq, ⟨.refl a, .refl b, fun e ha hb ↦ ⟨ha, hb⟩⟩, .inl rfl⟩
  · obtain ⟨c, v, hc, hancestor, hv, hheight⟩ := h.ancestor?_eq_some hx (Nat.le_of_lt hgt)
    rw [if_pos hgt, hc]
    refine ⟨c, b, v, y, rfl, hv, hy, hheight, ?_, .inr rfl⟩
    apply h.keepShared_of_le hfit hx hy ⟨hancestor, v, hv, hheight⟩ ⟨.refl b, y, hy, rfl⟩
    exact fun e height ha hb ↦ h.le_height hfit hy ⟨hb, ha.2⟩

/-- All entries but the first have a parent and a skip ancestor. -/
theorem exists_links (h : t.IsLinked) (hfit : t.HeightsFit) (hx : t.get? a = some x) (ha : a ≠ 0) :
    ∃ p s, x.parent = some p ∧ x.skip = some s ∧ p < a ∧ s < a ∧
      t.IsAncestorAt p a (x.height.toNat - 1) ∧ t.IsAncestorAt s a (skipHeight x.height).toNat := by
  obtain ⟨p, parent, hlt, hparent, hbelow⟩ := h.below a x hx ha
  obtain ⟨s, skip, hs, hancestor, hskip, hheight⟩ := hbelow.skip_eq
  have hp : t.IsAncestor p a := .step hx hbelow.parent_eq (.refl p)
  have hsucc := h.height_eq_succ hfit hx hbelow.parent_eq hparent
  exact ⟨p, s, hbelow.parent_eq, hs, hlt, Nat.lt_of_le_of_lt (h.le_of_isAncestor hancestor) hlt,
    ⟨hp, parent, hparent, Nat.eq_sub_of_add_eq hsucc.symm⟩,
    ⟨hancestor.trans hp, skip, hskip, congrArg _ hheight⟩⟩

/-- Different entries at one height go back to entries at one lower height. -/
theorem stepBackTogether?_eq_some (h : t.IsLinked) (hfit : t.HeightsFit) (hx : t.get? a = some x)
    (hy : t.get? b = some y) (hheight : x.height.toNat = y.height.toNat) (hne : a ≠ b) :
    ∃ c d level, stepBackTogether? x y = some (c, d) ∧ c < a ∧ t.IsAncestorAt c a level ∧
      t.IsAncestorAt d b level ∧ t.KeepShared c d a b := by
  -- Only the first entry is at height zero, and so it is neither of the two.
  have hword : x.height = y.height := UInt32.toNat_inj.mp hheight
  have ha : a ≠ 0 := by
    rintro rfl
    exact hne (hfit b y hy (hword ▸ UInt32.toNat_inj.mp (h.height_eq_zero hx))).symm
  have hb : b ≠ 0 := by
    rintro rfl
    exact hne (hfit a x hx (hword ▸ UInt32.toNat_inj.mp (h.height_eq_zero hy)))
  obtain ⟨p, s, hp, hs, hplt, hslt, hpat, hsat⟩ := h.exists_links hfit hx ha
  obtain ⟨q, r, hq, hr, -, -, hqat, hrat⟩ := h.exists_links hfit hy hb
  rw [← hheight] at hqat
  rw [← hword] at hrat
  unfold stepBackTogether?
  rw [hs, hr]
  by_cases hsame : s = r
  · refine ⟨p, q, x.height.toNat - 1, ?_, hplt, hpat, hqat, h.keepShared_of_le hfit hx hy hpat hqat ?_⟩
    · rw [hp, hq]
      exact if_pos hsame
    · intro e height he heb
      have hlt := h.lt_of_isAncestorAt_ne hfit hx hy ⟨.refl a, x, hx, rfl⟩ ⟨.refl b, y, hy, hheight.symm⟩
        hne he heb
      exact Nat.le_sub_one_of_lt hlt
  · refine ⟨s, r, _, if_neg hsame, hslt, hsat, hrat, h.keepShared_of_le hfit hx hy hsat hrat ?_⟩
    intro e height he heb
    exact Nat.le_of_lt (h.lt_of_isAncestorAt_ne hfit hx hy hsat hrat hsame he heb)

/-- Two entries at one height meet at their last common ancestor. By induction on the number of the first:
it gets smaller with every step back. -/
theorem meet?_eq_some (h : t.IsLinked) (hfit : t.HeightsFit) (hx : t.get? a = some x)
    (hy : t.get? b = some y) (hheight : x.height.toNat = y.height.toNat) :
    ∃ fork, t.meet? a b = some fork ∧ t.IsFork fork a b := by
  induction a using Nat.strongRecOn generalizing b x y with
  | ind a ih =>
    rw [meet?]
    by_cases hsame : a = b
    · subst hsame
      exact ⟨a, if_pos rfl, isFork_of_isAncestor (.refl a)⟩
    · obtain ⟨c, d, level, hstep, hlt, ⟨-, v, hv, hvheight⟩, ⟨-, w, hw, hwheight⟩, hkeep⟩ :=
        h.stepBackTogether?_eq_some hfit hx hy hheight hsame
      obtain ⟨fork, hmeet, hfork⟩ := ih c hlt hv hw (hvheight.trans hwheight.symm)
      refine ⟨fork, ?_, hkeep.isFork hfork⟩
      rw [if_neg hsame]
      simp only [hx, hy, Option.bind_eq_bind, Option.bind_some, hstep]
      rw [dif_pos hlt, hmeet]

/-- Any two entries have a last common ancestor, and the walk finds it. -/
theorem lastCommonAncestor?_eq_some (h : t.IsLinked) (hfit : t.HeightsFit) (hx : t.get? a = some x)
    (hy : t.get? b = some y) :
    ∃ fork, t.lastCommonAncestor? a b = some fork ∧ t.IsFork fork a b := by
  obtain ⟨c, d, v, w, halign, hv, hw, hheight, hkeep, -⟩ := h.align?_eq_some hfit hx hy
  obtain ⟨fork, hmeet, hfork⟩ := h.meet?_eq_some hfit hv hw hheight
  refine ⟨fork, ?_, hkeep.isFork hfork⟩
  unfold lastCommonAncestor?
  rw [halign]
  exact hmeet

/-- Entries at one height of which one is an ancestor of the other are the same. -/
theorem eq_of_isAncestor_of_height (h : t.IsLinked) (hfit : t.HeightsFit) (hx : t.get? a = some x)
    (hy : t.get? b = some y) (hheight : x.height.toNat = y.height.toNat) (hab : t.IsAncestor a b) :
    a = b :=
  h.isAncestorAt_unique hfit hy ⟨hab, x, hx, hheight⟩ ⟨.refl b, y, hy, rfl⟩

/-- One of two entries descends from the other if it is where they fork. -/
theorem onSameFork_iff (h : t.IsLinked) (hfit : t.HeightsFit) (hx : t.get? a = some x)
    (hy : t.get? b = some y) {fork : BlockId} (hfork : t.IsFork fork a b) :
    t.onSameFork a b = true ↔ fork = a ∨ fork = b := by
  obtain ⟨c, d, v, w, halign, hv, hw, hheight, hkeep, hone⟩ := h.align?_eq_some hfit hx hy
  unfold onSameFork
  rw [halign, Option.any_some]
  dsimp only
  rw [beq_iff_eq]
  constructor
  · rintro rfl
    rcases hone with rfl | rfl
    · exact .inl (hfork.unique h (isFork_of_isAncestor hkeep.right))
    · exact .inr (hfork.unique h (isFork_of_isAncestor hkeep.left).symm)
  · rintro (rfl | rfl)
    · -- The first entry is a common ancestor, so that nothing is above it on its own side.
      obtain ⟨hleft, hright⟩ := hkeep.shared fork (.refl fork) hfork.right
      obtain rfl : c = fork := h.isAncestor_antisymm hkeep.left hleft
      exact h.eq_of_isAncestor_of_height hfit hv hw hheight hright
    · obtain ⟨hleft, hright⟩ := hkeep.shared fork hfork.left (.refl fork)
      obtain rfl : d = fork := h.isAncestor_antisymm hkeep.right hright
      exact (h.eq_of_isAncestor_of_height hfit hw hv hheight.symm hleft).symm

end IsLinked

end BlockTree

/-! ## The active chain -/

namespace ActiveChain

variable {t : BlockTree} {c : ActiveChain} {tip id : BlockId} {entry : BlockEntry}

/-- Without an active chain there is no fork. -/
theorem findFork?_of_no_blocks (hblocks : c.blocks = #[]) (t : BlockTree) (id : BlockId) :
    c.findFork? t id = none := by
  unfold findFork? height?
  rw [hblocks]
  rfl

/-- The search in the array and the walk in the tree find the same block. -/
theorem EndsAt.findFork?_eq_lastCommonAncestor? (hends : c.EndsAt t tip) (h : t.IsLinked)
    (hfit : t.HeightsFit) (hentry : t.get? id = some entry) :
    c.findFork? t id = t.lastCommonAncestor? tip id := by
  obtain ⟨last, hlast, -⟩ := hends.size_eq
  obtain ⟨fork, hsearch, hfork⟩ := hends.findFork?_eq_some h hfit hentry
  obtain ⟨met, hmet, hcommon⟩ := h.lastCommonAncestor?_eq_some hfit hlast hentry
  rw [hsearch, hmet, hfork.symm.unique h hcommon]

end ActiveChain

/-! ## Histories -/

namespace HeaderStore

/-- **Fork points.** After any changes of an empty store, in a tree in which no height has overflowed: every
two entries have a last common ancestor, which the walk in the tree finds, and one of them descends from the
other exactly if it is this ancestor. If the active chain has a tip, the search in the chain finds the last
common ancestor with the tip; in a chain without blocks it finds nothing. -/
theorem changeAll_forkPoints (params : Option WorkParams) (changes : List StoreChange)
    (hfit : ((empty params).changeAll changes).tree.HeightsFit) :
    let s := (empty params).changeAll changes
    (∀ a b x y, s.tree.get? a = some x → s.tree.get? b = some y →
      ∃ fork, s.tree.lastCommonAncestor? a b = some fork ∧ s.tree.IsFork fork a b ∧
        (s.tree.onSameFork a b = true ↔ fork = a ∨ fork = b)) ∧
    ∀ id entry, s.tree.get? id = some entry →
      (∀ tip, s.chain.tip? = some tip →
        s.chain.findFork? s.tree id = s.tree.lastCommonAncestor? tip id) ∧
      (s.chain.blocks = #[] → s.chain.findFork? s.tree id = none) := by
  intro s
  have hempty : (empty params).tree.IsSound := BlockTree.isSound_empty params
  have h : s.tree.IsLinked := (isSound_changeAll hempty changes).toIsLinked
  have hpath : s.chain.IsPath s.tree :=
    isPath_changeAll hempty (ActiveChain.isPath_empty _) changes hfit
  constructor
  · intro a b x y hx hy
    obtain ⟨fork, hmet, hfork⟩ := h.lastCommonAncestor?_eq_some hfit hx hy
    exact ⟨fork, hmet, hfork, h.onSameFork_iff hfit hx hy hfork⟩
  · intro id entry hentry
    refine ⟨fun tip htip ↦ ?_, fun hblocks ↦ ActiveChain.findFork?_of_no_blocks hblocks _ _⟩
    exact (hpath.endsAt_of_tip? h hfit htip).findFork?_eq_lastCommonAncestor? h hfit hentry

/-- The two branches fork at the first block, wherever one looks for it. -/
theorem changeAll_forkPoints_forkedTree :
    let s := (empty none).changeAll
      [.accept rootHeader, .accept childHeader, .accept siblingHeader, .moveTip (some 1)]
    s.tree.HeightsFit ∧ s.chain.tip? = some 1 ∧ s.tree.lastCommonAncestor? 1 2 = some 0 ∧
      s.tree.onSameFork 1 2 = false ∧ s.chain.findFork? s.tree 2 = some 0 := by
  intro s
  obtain ⟨-, child, sibling, -, hchild, hsibling, -, hparent, -⟩ := get?_forkedTree
  have hlinked : forkedTree.IsLinked := isSound_forkedTree.toIsLinked
  have hblocks := ActiveChain.toList_setTip (ActiveChain.isPath_empty forkedTree) hlinked
    heightsFit_forkedTree hchild
  have hends := ActiveChain.endsAt_of_toList hlinked heightsFit_forkedTree hchild hblocks
  obtain ⟨htrees, hchains⟩ := changeAll_forkPoints none
    [.accept rootHeader, .accept childHeader, .accept siblingHeader, .moveTip (some 1)] heightsFit_forkedTree
  obtain ⟨fork, hmet, hfork, hbranch⟩ := htrees 1 2 child sibling hchild hsibling
  have hright : fork = 2 ∨ fork ≤ 0 := by
    rcases (BlockTree.isAncestor_iff hsibling).mp hfork.right with htwo | ⟨p, hp, hzero⟩
    · exact .inl htwo
    · rw [hparent] at hp
      cases hp
      exact .inr (hlinked.le_of_isAncestor hzero)
  have hroot : fork = 0 := by
    rcases hright with rfl | hzero
    · exact absurd (hlinked.le_of_isAncestor hfork.left) (by decide)
    · exact Nat.le_zero.mp hzero
  subst hroot
  refine ⟨heightsFit_forkedTree, hends.tip?_eq, hmet, ?_, ?_⟩
  · rw [Bool.eq_false_iff]
    intro hsame
    rcases hbranch.mp hsame with hone | htwo
    · cases hone
    · cases htwo
  · exact ((hchains 2 sibling hsibling).1 1 hends.tip?_eq).trans hmet

end HeaderStore

end UtxoConsensus
