import UtxoConsensus.ActiveChain.HeaderStore
import UtxoConsensus.Proofs.ActiveChain.Tips

/-!
# Histories of a header store

Headers are accepted and the tip of the active chain is changed, in any order. After every change the
blocks of the active chain are the path of its tip: the tree only grows, so that paths stay what they are,
and a change of the tip makes the array the path of the new one. All that is read from the array follows.
-/

namespace UtxoConsensus

open BlockTree (rootHeader childHeader hash_childHeader_ne)

/-- A change of the tree, or of the tip of the active chain. -/
inductive StoreChange where
  | accept (header : BlockHeader)
  | moveTip (tip : Option BlockId)

namespace HeaderStore

/-- A header that is not accepted changes nothing. -/
def change (s : HeaderStore) : StoreChange → HeaderStore
  | .accept header => { s with tree := (s.tree.submit header).2 }
  | .moveTip tip => { s with chain := s.chain.setTip s.tree tip }

def changeAll (s : HeaderStore) (changes : List StoreChange) : HeaderStore :=
  changes.foldl change s

/-! ## One change -/

variable {s : HeaderStore}

theorem grows_change (s : HeaderStore) (c : StoreChange) : BlockTree.Grows s.tree (s.change c).tree := by
  cases c with
  | accept header => exact BlockTree.grows_submit s.tree header
  | moveTip tip => exact fun _ _ hentry ↦ hentry

theorem isSound_change (h : s.tree.IsSound) (c : StoreChange) : (s.change c).tree.IsSound := by
  cases c with
  | accept header => exact h.submit header
  | moveTip tip => exact h

/-- A header leaves the path as it is, and a new tip rewrites it. -/
theorem isPath_change (h : s.tree.IsSound) (hpath : s.chain.IsPath s.tree) (c : StoreChange)
    (hfit : (s.change c).tree.HeightsFit) : (s.change c).chain.IsPath (s.change c).tree := by
  cases c with
  | accept header => exact hpath.mono h.toIsLinked (grows_change s (.accept header))
  | moveTip tip => exact hpath.setTip h.toIsLinked hfit tip

/-! ## All changes -/

theorem grows_changeAll (s : HeaderStore) (changes : List StoreChange) :
    BlockTree.Grows s.tree (s.changeAll changes).tree := by
  induction changes generalizing s with
  | nil => exact fun _ _ hentry ↦ hentry
  | cons c changes ih =>
    intro id entry hentry
    exact ih (s.change c) id entry (grows_change s c id entry hentry)

theorem isSound_changeAll (h : s.tree.IsSound) (changes : List StoreChange) :
    (s.changeAll changes).tree.IsSound := by
  induction changes generalizing s with
  | nil => exact h
  | cons c changes ih => exact ih (isSound_change h c)

/-- Every change keeps the path, as heights that fit at the end fitted all the time. -/
theorem isPath_changeAll (h : s.tree.IsSound) (hpath : s.chain.IsPath s.tree)
    (changes : List StoreChange) (hfit : (s.changeAll changes).tree.HeightsFit) :
    (s.changeAll changes).chain.IsPath (s.changeAll changes).tree := by
  induction changes generalizing s with
  | nil => exact hpath
  | cons c changes ih =>
    have hfirst : (s.change c).tree.HeightsFit := hfit.of_grows (grows_changeAll _ changes)
    exact ih (isSound_change h c) (isPath_change h hpath c hfirst) hfit

theorem changeAll_append (s : HeaderStore) (first second : List StoreChange) :
    s.changeAll (first ++ second) = (s.changeAll first).changeAll second :=
  List.foldl_append

/-- Headers are accepted by the tree, and the active chain stays what it is. -/
theorem changeAll_accept (s : HeaderStore) (headers : List BlockHeader) :
    s.changeAll (headers.map .accept) = { s with tree := s.tree.submitAll headers } := by
  induction headers generalizing s with
  | nil => rfl
  | cons header headers ih => exact ih (s.change (.accept header))

/-- A change adds at most one entry. -/
theorem size_changeAll_le (s : HeaderStore) (changes : List StoreChange) :
    (s.changeAll changes).tree.size ≤ s.tree.size + changes.length := by
  induction changes generalizing s with
  | nil => exact Nat.le_refl _
  | cons c changes ih =>
    have hfirst : (s.change c).tree.size ≤ s.tree.size + 1 := by
      cases c with
      | accept header => exact BlockTree.size_submit_le s.tree header
      | moveTip tip => exact Nat.le_succ _
    calc ((s.change c).changeAll changes).tree.size
      _ ≤ (s.change c).tree.size + changes.length := ih (s.change c)
      _ ≤ s.tree.size + 1 + changes.length := Nat.add_le_add_right hfirst _
      _ = s.tree.size + (changes.length + 1) := by rw [Nat.add_assoc, Nat.add_comm 1]

/-- No height overflows in a history that is shorter than the range of a word. -/
theorem heightsFit_changeAll (params : Option WorkParams) {changes : List StoreChange}
    (hlength : changes.length ≤ UInt32.size) : ((empty params).changeAll changes).tree.HeightsFit := by
  have hbound := size_changeAll_le (empty params) changes
  have hempty : (empty params).tree.size = 0 := rfl
  have hsize : ((empty params).changeAll changes).tree.size ≤ UInt32.size := by omega
  exact (isSound_changeAll (BlockTree.isSound_empty params) changes).heightsFit hsize

/-! ## The active chain -/

/-- **The active chain is the path of its tip.** After any changes of an empty store, in a tree in which no
height has overflowed: the active chain has no blocks, or it has as many as its tip has ancestors, each of
them at its height. It contains the ancestors of its tip, and the block that follows another one is the
one below it on the way to the tip, as long as a word can hold its height. A tip that is moved to an entry
of the tree is that entry, an unknown one changes nothing, and without one there are no blocks. -/
theorem changeAll_activeChain (params : Option WorkParams) (changes : List StoreChange)
    (hfit : ((empty params).changeAll changes).tree.HeightsFit) :
    let s := (empty params).changeAll changes
    (s.chain.blocks = #[] ∨ ∃ tip, s.chain.EndsAt s.tree tip) ∧
      (∀ id, s.chain.contains s.tree id = true ↔
        ∃ tip, s.chain.tip? = some tip ∧ s.tree.IsAncestor id tip) ∧
      (∀ id next, s.tree.HasHeightBelow id → (s.chain.next? s.tree id = some next ↔
        ∃ tip, s.chain.tip? = some tip ∧ s.tree.IsAncestor next tip ∧
          ∃ entry, s.tree.get? next = some entry ∧ entry.parent = some id)) ∧
      (∀ id entry, s.tree.get? id = some entry →
        (s.change (.moveTip (some id))).chain.EndsAt s.tree id) ∧
      (∀ id, s.tree.get? id = none → s.change (.moveTip (some id)) = s) ∧
      (s.change (.moveTip none)).chain.blocks = #[] := by
  intro s
  have hempty : (empty params).tree.IsSound := BlockTree.isSound_empty params
  have h : s.tree.IsSound := isSound_changeAll hempty changes
  have hpath : s.chain.IsPath s.tree :=
    isPath_changeAll hempty (ActiveChain.isPath_empty _) changes hfit
  have hmoved (id : BlockId) (entry : BlockEntry) (hentry : s.tree.get? id = some entry) :
      (s.change (.moveTip (some id))).chain.EndsAt s.tree id :=
    ActiveChain.endsAt_of_toList h.toIsLinked hfit hentry
      (ActiveChain.toList_setTip hpath h.toIsLinked hfit hentry)
  have hunknown (id : BlockId) (hnone : s.tree.get? id = none) : s.change (.moveTip (some id)) = s := by
    unfold change ActiveChain.setTip
    dsimp only
    rw [hnone]
  rcases hpath.cases h.toIsLinked hfit with hblocks | ⟨tip, hends⟩
  · have hchain : s.chain = .empty := congrArg ActiveChain.mk hblocks
    have htip : ActiveChain.empty.tip? = none := rfl
    refine ⟨.inl hblocks, ?_, ?_, hmoved, hunknown, rfl⟩
    · intro id
      rw [hchain, ActiveChain.contains_empty, htip]
      simp
    · intro id next _
      rw [hchain, ActiveChain.next?_empty, htip]
      simp
  · refine ⟨.inr ⟨tip, hends⟩, ?_, ?_, hmoved, hunknown, rfl⟩
    · intro id
      rw [hends.contains_iff h.toIsLinked, hends.tip?_eq]
      simp
    · intro id next hid
      rw [hends.next?_eq_some_iff h.toIsLinked hfit hid, hends.tip?_eq]
      simp

/-! ## A tree of two blocks -/

def rootTree : BlockTree := ((BlockTree.empty none).submit rootHeader).2

def pairTree : BlockTree := (rootTree.submit childHeader).2

theorem isSound_rootTree : rootTree.IsSound := (BlockTree.isSound_empty none).submit rootHeader

theorem isSound_pairTree : pairTree.IsSound := isSound_rootTree.submit childHeader

theorem toNat_blockProof_easy : (blockProof 0x207fffff).toNat = 2 := by decide +kernel

theorem rootTree_eq : ∃ root, rootTree = (BlockTree.empty none).append root ∧
    root.hash = rootHeader.hash ∧ root.chainWork.toNat = 2 ∧ root.header = rootHeader := by
  obtain ⟨root, hsubmit, hroot, hhash, hheader⟩ := BlockTree.submit_empty rootHeader
  refine ⟨root, congrArg Prod.snd hsubmit, hhash, ?_, hheader⟩
  rw [hroot.chainWork_eq, hheader]
  exact toNat_blockProof_easy

/-- The second block has the work of both. -/
theorem pairTree_eq : ∃ root child, rootTree.size = 1 ∧ rootTree.get? 0 = some root ∧
    root.chainWork.toNat = 2 ∧ pairTree = rootTree.append child ∧ child.chainWork.toNat = 4 ∧
    root.header = rootHeader ∧ child.header = childHeader := by
  obtain ⟨root, htree, hhash, hwork, hrootHeader⟩ := rootTree_eq
  have hsize : rootTree.size = 1 := by
    rw [htree, BlockTree.size_append]
    rfl
  have hget : rootTree.get? 0 = some root := by
    rw [htree, BlockTree.get?_append]
    rfl
  have hparams : rootTree.params = none := by
    rw [htree]
    rfl
  have hnew : rootTree.find? childHeader.hash = none := by
    rw [htree, BlockTree.find?_append, if_neg (hhash ▸ hash_childHeader_ne), BlockTree.find?_empty]
  have hbits : childHeader.bits = 0x207fffff := rfl
  obtain ⟨child, hsubmit, hbelow, -, hheader⟩ :=
    isSound_rootTree.submit_below hparams hget hhash hnew
  refine ⟨root, child, hsize, hget, hwork, congrArg Prod.snd hsubmit, ?_, hrootHeader, hheader⟩
  rw [hbelow.chainWork_eq, hwork, hheader, hbits, toNat_blockProof_easy]
  decide

/-- Both blocks by their numbers. -/
theorem get?_pairTree : ∃ root child, pairTree.get? 0 = some root ∧ pairTree.get? 1 = some child ∧
    root.chainWork.toNat = 2 ∧ child.chainWork.toNat = 4 := by
  obtain ⟨root, child, hsize, hroot, hrootWork, htree, hchildWork, -⟩ := pairTree_eq
  refine ⟨root, child, ?_, ?_, hrootWork, hchildWork⟩
  · rw [htree]
    exact BlockTree.grows_append rootTree child 0 root hroot
  · rw [htree, BlockTree.get?_append, hsize, if_pos rfl]

theorem heightsFit_pairTree : pairTree.HeightsFit := by
  obtain ⟨-, child, hsize, -, -, htree, -⟩ := pairTree_eq
  apply isSound_pairTree.heightsFit
  rw [htree, BlockTree.size_append, hsize]
  decide

/-! ## Two branches -/

/-- A header below the first one, and with an earlier timestamp. -/
def siblingHeader : BlockHeader := ⟨1, rootHeader.hash, .zero, 500, 0x207fffff, 2⟩

theorem hash_siblingHeader_ne :
    rootHeader.hash ≠ siblingHeader.hash ∧ childHeader.hash ≠ siblingHeader.hash := by
  decide +kernel

/-- The first block and two blocks below it. -/
def forkedTree : BlockTree := (pairTree.submit siblingHeader).2

theorem isSound_forkedTree : forkedTree.IsSound := isSound_pairTree.submit siblingHeader

theorem forkedTree_eq : ∃ root child sibling, pairTree.size = 2 ∧ pairTree.get? 0 = some root ∧
    pairTree.get? 1 = some child ∧ root.header = rootHeader ∧
    forkedTree = pairTree.append sibling ∧ sibling.parent = some 0 ∧ sibling.header = siblingHeader := by
  obtain ⟨root, child, hsize, hroot, -, htree, -, hrootHeader, hchildHeader⟩ := pairTree_eq
  have hpairSize : pairTree.size = 2 := by rw [htree, BlockTree.size_append, hsize]
  have hgetRoot : pairTree.get? 0 = some root := by
    rw [htree]
    exact BlockTree.grows_append rootTree child 0 root hroot
  have hgetChild : pairTree.get? 1 = some child := by rw [htree, BlockTree.get?_append, hsize, if_pos rfl]
  have hrootHash : root.hash = rootHeader.hash := by
    rw [isSound_pairTree.hash_eq 0 root hgetRoot, hrootHeader]
  have hchildHash : child.hash = childHeader.hash := by
    rw [isSound_pairTree.hash_eq 1 child hgetChild, hchildHeader]
  have hparams : pairTree.params = none := by
    obtain ⟨first, hfirst, -⟩ := rootTree_eq
    rw [htree, hfirst]
    rfl
  have hnew : pairTree.find? siblingHeader.hash = none := by
    obtain ⟨hneRoot, hneChild⟩ := hash_siblingHeader_ne
    rw [Option.eq_none_iff_forall_ne_some]
    intro id hid
    obtain ⟨entry, hentry, hhash⟩ := (isSound_pairTree.find?_eq_some_iff _ _).mp hid
    have hlt : id < 2 := hpairSize ▸ BlockTree.lt_size hentry
    rcases Nat.le_one_iff_eq_zero_or_eq_one.mp (Nat.le_of_lt_succ hlt) with rfl | rfl
    · rw [hgetRoot] at hentry
      cases hentry
      exact hneRoot (hrootHash.symm.trans hhash)
    · rw [hgetChild] at hentry
      cases hentry
      exact hneChild (hchildHash.symm.trans hhash)
  obtain ⟨sibling, hsubmit, hbelow, -, hheader⟩ :=
    isSound_pairTree.submit_below hparams hgetRoot hrootHash hnew
  exact ⟨root, child, sibling, hpairSize, hgetRoot, hgetChild, hrootHeader, congrArg Prod.snd hsubmit,
    hbelow.parent_eq, hheader⟩

/-- All three blocks by their numbers. -/
theorem get?_forkedTree : ∃ root child sibling, forkedTree.get? 0 = some root ∧
    forkedTree.get? 1 = some child ∧ forkedTree.get? 2 = some sibling ∧ root.header = rootHeader ∧
    sibling.parent = some 0 ∧ sibling.header = siblingHeader := by
  obtain ⟨root, child, sibling, hsize, hroot, hchild, hrootHeader, htree, hparent, hheader⟩ := forkedTree_eq
  refine ⟨root, child, sibling, ?_, ?_, ?_, hrootHeader, hparent, hheader⟩
  · rw [htree]
    exact BlockTree.grows_append pairTree sibling 0 root hroot
  · rw [htree]
    exact BlockTree.grows_append pairTree sibling 1 child hchild
  · rw [htree, BlockTree.get?_append, hsize, if_pos rfl]

theorem size_forkedTree_lt : forkedTree.size < UInt32.size := by
  obtain ⟨-, -, sibling, hsize, -, -, -, htree, -⟩ := forkedTree_eq
  rw [htree, BlockTree.size_append, hsize]
  decide

theorem heightsFit_forkedTree : forkedTree.HeightsFit :=
  isSound_forkedTree.heightsFit (Nat.le_of_lt size_forkedTree_lt)

/-! ## A small history -/

/-- Two branches above the first block, the tip moving to one of them, back, away and to the other one. -/
def branchChanges : List StoreChange :=
  [.accept rootHeader, .accept childHeader, .accept siblingHeader, .moveTip (some 1), .moveTip (some 0),
    .moveTip none, .moveTip (some 2)]

/-- The tip moves along one branch, goes back, is taken away, and is set on the other branch. -/
theorem changeAll_activeChain_branchChanges :
    ((empty none).changeAll branchChanges).tree.HeightsFit ∧
      let s := (empty none).changeAll branchChanges
      (s.chain.blocks = #[] ∨ ∃ tip, s.chain.EndsAt s.tree tip) ∧
        (∀ id, s.chain.contains s.tree id = true ↔
          ∃ tip, s.chain.tip? = some tip ∧ s.tree.IsAncestor id tip) ∧
        s.chain.tip? = some 2 ∧ s.chain.next? s.tree 0 = some 2 := by
  obtain ⟨root, -, sibling, hroot, -, hsibling, -, hparent, -⟩ := get?_forkedTree
  obtain ⟨hends, hcontains, hnext, -⟩ := changeAll_activeChain none branchChanges heightsFit_forkedTree
  obtain ⟨-, -, -, hmoved, -⟩ := changeAll_activeChain none branchChanges.dropLast heightsFit_forkedTree
  have htip : ((empty none).changeAll branchChanges).chain.tip? = some 2 := (hmoved 2 sibling hsibling).tip?_eq
  have hbelow : forkedTree.HasHeightBelow 0 := isSound_forkedTree.hasHeightBelow size_forkedTree_lt 0
  exact ⟨heightsFit_forkedTree, hends, hcontains, htip,
    (hnext 0 2 hbelow).mpr ⟨2, htip, .refl 2, sibling, hsibling, hparent⟩⟩

end HeaderStore

end UtxoConsensus
