import Mathlib.Algebra.Group.Nat.Defs
import UtxoConsensus.Proofs.ActiveChain.Forks
import UtxoConsensus.Proofs.ActiveChain.Histories
import UtxoConsensus.Proofs.BlockTree.HeaderLines

/-!
# Locators

A locator samples the ancestors of an entry, all of the latest ones and then at distances that double.
Whoever looks for the first sample on the active chain finds a block on the near side of genesis as soon
as the samples have passed the fork. As long as the samples are dense this is the fork itself. After that
the distance to the sample before is short of that to the fork, and one step does not double it.
-/

namespace UtxoConsensus

open BlockTree (lineHeaders isLine_lineHeaders)

/-! ## Distances -/

/-- How far entry `k` of a locator is below its start. -/
def locatorOffset (k : Nat) : Nat :=
  if k ≤ 11 then k else 9 + 2 ^ (k - 10)

/-- The first entries follow one another block by block. -/
theorem locatorOffset_of_le {k : Nat} (hk : k ≤ 11) : locatorOffset k = k :=
  if_pos hk

/-- From the eleventh entry on both formulas give the distance. -/
theorem locatorOffset_of_ge {k : Nat} (hk : 11 ≤ k) : locatorOffset k = 9 + 2 ^ (k - 10) := by
  unfold locatorOffset
  split
  · next hle =>
    obtain rfl : k = 11 := Nat.le_antisymm hle hk
    rfl
  · rfl

/-- From one entry to the next the distance grows by one, and then by a power of two. -/
theorem locatorOffset_succ (k : Nat) : locatorOffset (k + 1) = locatorOffset k + 2 ^ (k - 10) := by
  by_cases hk : k ≤ 10
  · rw [locatorOffset_of_le (Nat.succ_le_succ hk), locatorOffset_of_le (Nat.le_succ_of_le hk),
      Nat.sub_eq_zero_of_le hk, Nat.pow_zero]
  · have hsucc : k + 1 - 10 = (k - 10) + 1 := by omega
    rw [locatorOffset_of_ge (by omega), locatorOffset_of_ge (by omega), hsucc, Nat.pow_succ]
    omega

/-- The step is limited to the range of a word, which no height exceeds. -/
theorem sub_locatorStep {height : Nat} (hheight : height < UInt32.size) (k : Nat) :
    height - locatorStep k = height - 2 ^ (k - 10) := by
  unfold locatorStep locatorMaxStep locatorDenseEntries
  rw [Nat.one_shiftLeft]
  omega

/-- The first entry that has passed a distance is less than twice as far away. Where entries are dense it is
just as far away. -/
theorem locatorOffset_first {k distance : Nat} (hbefore : ∀ j < k, locatorOffset j < distance)
    (hpassed : distance ≤ locatorOffset k) :
    (distance ≤ 11 → locatorOffset k = distance) ∧ locatorOffset k ≤ 2 * distance := by
  by_cases hdense : distance ≤ 11
  · have hle : k ≤ distance := by
      apply Nat.le_of_not_lt
      intro hlt
      have hsame := hbefore distance hlt
      rw [locatorOffset_of_le hdense] at hsame
      exact Nat.lt_irrefl _ hsame
    rw [locatorOffset_of_le (Nat.le_trans hle hdense)] at hpassed ⊢
    exact ⟨fun _ ↦ Nat.le_antisymm hle hpassed, by omega⟩
  · have hk : 11 < k := by
      apply Nat.lt_of_not_le
      intro hle
      rw [locatorOffset_of_le hle] at hpassed
      omega
    obtain ⟨m, rfl⟩ : ∃ m, k = m + 1 := ⟨k - 1, by omega⟩
    have hprevious : locatorOffset m < distance := hbefore m (Nat.lt_succ_self m)
    have hoffset : locatorOffset m = 9 + 2 ^ (m - 10) := locatorOffset_of_ge (Nat.le_of_lt_succ hk)
    refine ⟨fun hle ↦ absurd hle hdense, ?_⟩
    calc locatorOffset (m + 1)
      _ = locatorOffset m + 2 ^ (m - 10) := locatorOffset_succ m
      _ ≤ locatorOffset m + locatorOffset m := by omega
      _ ≤ 2 * distance := by omega

/-! ## Samples -/

/-- From entry `k` on, the hashes of the ancestors of `x` at the distances of a locator, until the lowest
height has been reached. -/
inductive BlockTree.Samples (t : BlockTree) (x : BlockId) (height : Nat) : Nat → List Hash256 → Prop
  | last {k : Nat} {id : BlockId} {entry : BlockEntry}
      (hid : t.IsAncestorAt id x (height - locatorOffset k)) (hentry : t.get? id = some entry)
      (hend : height ≤ locatorOffset k) : Samples t x height k [entry.hash]
  | step {k : Nat} {id : BlockId} {entry : BlockEntry} {rest : List Hash256}
      (hid : t.IsAncestorAt id x (height - locatorOffset k)) (hentry : t.get? id = some entry)
      (habove : locatorOffset k < height) (hrest : Samples t x height (k + 1) rest) :
      Samples t x height k (entry.hash :: rest)

variable {t : BlockTree} {c : ActiveChain} {tip x : BlockId} {origin : BlockEntry}

/-- A locator samples the ancestors of its start, on the active chain or away from it. -/
theorem ActiveChain.EndsAt.samples_locatorFrom (hends : c.EndsAt t tip) (h : t.IsLinked)
    (hfit : t.HeightsFit) {k height : Nat} {id : BlockId}
    (hid : t.IsAncestorAt id x (height - locatorOffset k)) :
    t.Samples x height k (c.locatorFrom t k (height - locatorOffset k) id) := by
  -- By induction on the height that is left, which every step makes smaller.
  induction hleft : height - locatorOffset k using Nat.strongRecOn generalizing k id with
  | ind left ih =>
    subst hleft
    obtain ⟨hancestor, entry, hentry, hheight⟩ := hid
    rw [locatorFrom, hentry]
    dsimp only
    by_cases hzero : height - locatorOffset k = 0
    · rw [dif_pos hzero]
      exact .last ⟨hancestor, entry, hentry, hheight⟩ hentry (Nat.le_of_sub_eq_zero hzero)
    · have hlower : height - locatorOffset k - locatorStep k = height - locatorOffset (k + 1) := by
        rw [← hheight, sub_locatorStep entry.height.toNat_lt, hheight, Nat.sub_sub, locatorOffset_succ]
      have hpos : 0 < 2 ^ (k - 10) := Nat.two_pow_pos _
      have hless : height - locatorOffset (k + 1) < height - locatorOffset k := by
        rw [locatorOffset_succ]
        omega
      obtain ⟨a, ha, hbelow, hfound⟩ :=
        hends.ancestor?_eq_some h hfit hentry (hheight ▸ Nat.le_of_lt hless)
      rw [dif_neg hzero, hlower, ha]
      exact .step ⟨hancestor, entry, hentry, hheight⟩ hentry (by omega)
        (ih _ hless ⟨hbelow.trans hancestor, hfound⟩ rfl)

/-- The hash of the ancestor at a height. -/
def BlockTree.HasSample (t : BlockTree) (x : BlockId) (height : Nat) (hash : Hash256) : Prop :=
  ∃ a entry, t.IsAncestorAt a x height ∧ t.get? a = some entry ∧ entry.hash = hash

/-- There is one block at a height below an entry, so that a sample is its hash. -/
theorem BlockTree.IsLinked.hasSample_iff (h : t.IsLinked) (hfit : t.HeightsFit)
    (horigin : t.get? x = some origin) {id : BlockId} {entry : BlockEntry} {height : Nat}
    (hid : t.IsAncestorAt id x height) (hentry : t.get? id = some entry) (hash : Hash256) :
    t.HasSample x height hash ↔ entry.hash = hash := by
  constructor
  · rintro ⟨a, found, ha, hfound, hhash⟩
    obtain rfl : a = id := h.isAncestorAt_unique hfit horigin ha hid
    rw [hentry] at hfound
    cases hfound
    exact hhash
  · exact fun hhash ↦ ⟨id, entry, hid, hentry, hhash⟩

namespace BlockTree.Samples

variable {height k : Nat} {hashes : List Hash256}

/-- The entries of a locator by their positions. -/
theorem getElem?_eq_some_iff (hsamples : t.Samples x height k hashes) (h : t.IsLinked)
    (hfit : t.HeightsFit) (horigin : t.get? x = some origin) (j : Nat) (hash : Hash256) :
    hashes[j]? = some hash ↔ (∀ i < j, locatorOffset (k + i) < height) ∧
      t.HasSample x (height - locatorOffset (k + j)) hash := by
  induction hsamples generalizing j with
  | last hid hentry hend =>
    cases j with
    | zero =>
      rw [Nat.add_zero, h.hasSample_iff hfit horigin hid hentry]
      simp
    | succ j =>
      constructor
      · exact fun hnone ↦ nomatch hnone
      · rintro ⟨habove, -⟩
        exact absurd (habove 0 (Nat.succ_pos j)) (Nat.not_lt_of_le hend)
  | @step k _ _ _ hid hentry habove _ ih =>
    cases j with
    | zero =>
      rw [Nat.add_zero, h.hasSample_iff hfit horigin hid hentry]
      simp
    | succ j =>
      rw [List.getElem?_cons_succ, ih, Nat.succ_add_eq_add_succ]
      refine and_congr_left fun _ ↦ ⟨fun hrest i hi ↦ ?_, fun hall i hi ↦ ?_⟩
      · cases i with
        | zero => exact habove
        | succ i =>
          rw [← Nat.succ_add_eq_add_succ]
          exact hrest i (Nat.lt_of_succ_lt_succ hi)
      · rw [Nat.succ_add_eq_add_succ]
        exact hall (i + 1) (Nat.succ_lt_succ hi)

/-- The first entry of the tree is the last one of a locator, and comes only there. -/
theorem genesis_last (hsamples : t.Samples x height k hashes) (h : t.IsSound) (hfit : t.HeightsFit) :
    ∃ front first, t.get? 0 = some first ∧ hashes = front ++ [first.hash] ∧ first.hash ∉ front := by
  induction hsamples with
  | @last k id entry hid hentry hend =>
    obtain ⟨-, found, hfound, hheight⟩ := hid
    rw [hentry] at hfound
    cases hfound
    rw [Nat.sub_eq_zero_of_le hend] at hheight
    obtain rfl : id = 0 := hfit id entry hentry (UInt32.toNat_inj.mp hheight)
    exact ⟨[], entry, hentry, rfl, List.not_mem_nil⟩
  | @step k id entry rest hid hentry habove hrest ih =>
    obtain ⟨front, first, hfirst, rfl, hnot⟩ := ih
    refine ⟨entry.hash :: front, first, hfirst, rfl, ?_⟩
    rw [List.mem_cons, not_or]
    refine ⟨fun hhash ↦ ?_, hnot⟩
    obtain rfl : 0 = id := h.id_eq_of_hash_eq hfirst hentry hhash
    obtain ⟨-, found, hfound, hheight⟩ := hid
    rw [h.height_eq_zero hfound] at hheight
    omega

/-- The search in a locator finds the first entry that has passed the fork. -/
theorem find?_eq_some (hsamples : t.Samples x height k hashes) (h : t.IsSound) (hfit : t.HeightsFit)
    (horigin : t.get? x = some origin) (hends : c.EndsAt t tip) {fork : BlockId} {forkEntry : BlockEntry}
    (hfork : t.IsFork fork x tip) (hforkEntry : t.get? fork = some forkEntry)
    (hle : forkEntry.height.toNat ≤ height) :
    ∃ m found, (hashes.filterMap t.find?).find? (c.contains t) = some found ∧
      t.IsAncestorAt found x (height - locatorOffset m) ∧ c.contains t found = true ∧
      (∀ j, k ≤ j → j < m → locatorOffset j < height - forkEntry.height.toNat) ∧
      height - forkEntry.height.toNat ≤ locatorOffset m := by
  have hfind {id : BlockId} {entry : BlockEntry} (hentry : t.get? id = some entry) :
      t.find? entry.hash = some id := (h.find?_eq_some_iff entry.hash id).mpr ⟨entry, hentry, rfl⟩
  induction hsamples with
  | @last k id entry hid hentry hend =>
    have hcontains : c.contains t id = true := by
      rw [hends.contains_iff_le_fork h.toIsLinked hfit horigin hfork hforkEntry hid]
      omega
    refine ⟨k, id, ?_, hid, hcontains, fun j hj hlt ↦ absurd hlt (Nat.not_lt_of_le hj), by omega⟩
    rw [List.filterMap_cons_some (hfind hentry), List.find?_cons_of_pos hcontains]
  | @step k id entry rest hid hentry habove hrest ih =>
    by_cases hcontains : c.contains t id = true
    · have hpassed := hcontains
      rw [hends.contains_iff_le_fork h.toIsLinked hfit horigin hfork hforkEntry hid] at hpassed
      refine ⟨k, id, ?_, hid, hcontains, fun j hj hlt ↦ absurd hlt (Nat.not_lt_of_le hj), by omega⟩
      rw [List.filterMap_cons_some (hfind hentry), List.find?_cons_of_pos hcontains]
    · have hbefore := hcontains
      rw [hends.contains_iff_le_fork h.toIsLinked hfit horigin hfork hforkEntry hid] at hbefore
      obtain ⟨m, found, hfound, hancestor, hshared, hless, hpassed⟩ := ih
      refine ⟨m, found, ?_, hancestor, hshared, fun j hj hlt ↦ ?_, hpassed⟩
      · rw [List.filterMap_cons_some (hfind hentry), List.find?_cons_of_neg hcontains, hfound]
      · rcases Nat.eq_or_lt_of_le hj with rfl | hlater
        · omega
        · exact hless j hlater hlt

end BlockTree.Samples

/-! ## Negotiation -/

/-- A locator goes from its start to the first entry of the tree. -/
theorem ActiveChain.EndsAt.samples_locator (hends : c.EndsAt t tip) (h : t.IsLinked)
    (hfit : t.HeightsFit) (horigin : t.get? x = some origin) :
    t.Samples x origin.height.toNat 0 (c.locator t (some x)) := by
  have hlocator : c.locator t (some x) = c.locatorFrom t 0 origin.height.toNat x := by
    change (t.get? x).elim [] _ = _
    rw [horigin]
    rfl
  rw [hlocator]
  exact hends.samples_locatorFrom h hfit ⟨.refl x, origin, horigin, rfl⟩

/-- What a locator of an entry at a height says. -/
structure BlockTree.IsLocator (t : BlockTree) (x : BlockId) (height : Nat) (hashes : List Hash256) :
    Prop where
  /-- Its entries are samples of the ancestors, and there is a next one as long as none has reached the
  lowest height. -/
  getElem?_eq_some_iff : ∀ k hash, hashes[k]? = some hash ↔
    (∀ j < k, locatorOffset j < height) ∧ t.HasSample x (height - locatorOffset k) hash
  genesis_last : ∃ front first, t.get? 0 = some first ∧ hashes = front ++ [first.hash] ∧
    first.hash ∉ front

/-- An ancestor of `x` that was found in place of the fork: at most twice as far away, and just as far
where that is within the dense entries. -/
def BlockTree.IsNearFork (t : BlockTree) (found fork x : BlockId) (height : Nat) : Prop :=
  ∃ forkHeight foundHeight, t.IsAncestorAt fork x forkHeight ∧ t.IsAncestorAt found x foundHeight ∧
    (height - forkHeight ≤ 11 → height - foundHeight = height - forkHeight) ∧
    height - foundHeight ≤ 2 * (height - forkHeight)

/-- **Locators and forks.** In every history of a store with a tip, for every entry of its tree: the
locator lists the hashes of the ancestors of the entry at the distances of a locator until the first block,
which comes once. The search for a fork finds the last common ancestor with the tip. The search in the
locator finds an ancestor on the active chain as well, not more than twice as far away, and the fork itself
if that is at most eleven blocks away. -/
theorem HeaderStore.changeAll_locator (params : Option WorkParams) (changes : List StoreChange)
    (hfit : ((empty params).changeAll changes).tree.HeightsFit) {tip x : BlockId} {origin : BlockEntry}
    (htip : ((empty params).changeAll changes).chain.tip? = some tip)
    (horigin : ((empty params).changeAll changes).tree.get? x = some origin) :
    let s := (empty params).changeAll changes
    let hashes := s.chain.locator s.tree (some x)
    s.tree.IsLocator x origin.height.toNat hashes ∧
      ∃ fork found, s.chain.findFork? s.tree x = some fork ∧ s.tree.IsFork fork x tip ∧
        s.chain.findForkInLocator? s.tree hashes = some found ∧
        s.chain.contains s.tree found = true ∧
        s.tree.IsNearFork found fork x origin.height.toNat := by
  intro s hashes
  have hempty : (empty params).tree.IsSound := BlockTree.isSound_empty params
  have h : s.tree.IsSound := isSound_changeAll hempty changes
  have hpath : s.chain.IsPath s.tree :=
    isPath_changeAll hempty (ActiveChain.isPath_empty _) changes hfit
  have hends : s.chain.EndsAt s.tree tip := hpath.endsAt_of_tip? h.toIsLinked hfit htip
  have hsamples : s.tree.Samples x origin.height.toNat 0 hashes :=
    hends.samples_locator h.toIsLinked hfit horigin
  constructor
  · refine ⟨fun k hash ↦ ?_, hsamples.genesis_last h hfit⟩
    have hentry := hsamples.getElem?_eq_some_iff h.toIsLinked hfit horigin k hash
    simpa only [Nat.zero_add] using hentry
  · obtain ⟨fork, hsearch, hfork⟩ := hends.findFork?_eq_some h.toIsLinked hfit horigin
    obtain ⟨forkEntry, hforkEntry⟩ := h.get?_of_isAncestor horigin hfork.left
    have hforkAt : s.tree.IsAncestorAt fork x forkEntry.height.toNat :=
      ⟨hfork.left, forkEntry, hforkEntry, rfl⟩
    have hle : forkEntry.height.toNat ≤ origin.height.toNat := h.le_height hfit horigin hforkAt
    obtain ⟨m, found, hfind, hfound, hcontains, hbefore, hpassed⟩ :=
      hsamples.find?_eq_some h hfit horigin hends hfork hforkEntry hle
    obtain ⟨hdense, hdouble⟩ := locatorOffset_first (fun j ↦ hbefore j (Nat.zero_le j)) hpassed
    have hnear : s.tree.IsNearFork found fork x origin.height.toNat := by
      refine ⟨_, _, hforkAt, hfound, fun hle ↦ ?_, by omega⟩
      rw [hdense hle]
      omega
    refine ⟨fork, found, hsearch, hfork, ?_, hcontains, hnear⟩
    unfold ActiveChain.findForkInLocator?
    rw [hfind]
    rfl

/-- Fifteen headers in a line, and the tip at the third block. -/
def lineChanges : List StoreChange :=
  lineHeaders.map .accept ++ [.moveTip (some 2)]

def lineTree : BlockTree := (BlockTree.empty none).submitAll lineHeaders

/-- The history of a line of blocks, with the tip near its beginning. -/
theorem changeAll_lineChanges : (HeaderStore.empty none).changeAll lineChanges =
    ⟨lineTree, ActiveChain.empty.setTip lineTree (some 2)⟩ := by
  unfold lineChanges
  rw [HeaderStore.changeAll_append, HeaderStore.changeAll_accept]
  rfl

/-- The locator of a block that is twelve blocks above the tip. When its steps have grown they lead past the
tip. -/
theorem HeaderStore.changeAll_locator_lineChanges : ∃ origin,
    let s := (empty none).changeAll lineChanges
    let hashes := s.chain.locator s.tree (some 14)
    s.tree.HeightsFit ∧ s.chain.tip? = some 2 ∧ s.tree.get? 14 = some origin ∧
      origin.height.toNat = 14 ∧
      (hashes[11]? = lineHeaders[3]?.map BlockHeader.hash ∧
        hashes[12]? = lineHeaders[1]?.map BlockHeader.hash ∧
        hashes[13]? = lineHeaders[0]?.map BlockHeader.hash) ∧
      s.tree.IsLocator 14 origin.height.toNat hashes ∧
      ∃ fork found, s.chain.findFork? s.tree 14 = some fork ∧ s.tree.IsFork fork 14 2 ∧
        s.chain.findForkInLocator? s.tree hashes = some found ∧
        s.chain.contains s.tree found = true ∧
        s.tree.IsNearFork found fork 14 origin.height.toNat := by
  have hlength : lineHeaders.length = 15 := rfl
  have hsound : lineTree.IsSound := (BlockTree.isSound_empty none).submitAll lineHeaders
  have hancestor {low : Nat} (hle : low ≤ 14) : lineTree.IsAncestorAt low 14 low :=
    isLine_lineHeaders.isAncestorAt_submitAll (hlength ▸ (by decide)) hle (hlength ▸ (by decide))
  have hfit : lineTree.HeightsFit :=
    hsound.heightsFit (isLine_lineHeaders.size_submitAll ▸ hlength ▸ (by decide))
  obtain ⟨tip, htip, -⟩ := isLine_lineHeaders.get?_submitAll (k := 2) (hlength ▸ (by decide))
  obtain ⟨-, origin, horigin, hheight⟩ := hancestor (Nat.le_refl 14)
  have hends := ActiveChain.endsAt_of_toList hsound.toIsLinked hfit htip
    (ActiveChain.toList_setTip (ActiveChain.isPath_empty _) hsound.toIsLinked hfit htip)
  have hlocator := changeAll_locator none lineChanges
  rw [changeAll_lineChanges] at hlocator ⊢
  obtain ⟨hsamples, hsearch⟩ := hlocator hfit hends.tip?_eq horigin
  have hsample {k : Nat} (hbefore : ∀ j < k, locatorOffset j < 14) :
      ((ActiveChain.empty.setTip lineTree (some 2)).locator lineTree (some 14))[k]? =
        lineHeaders[14 - locatorOffset k]?.map BlockHeader.hash := by
    have hk : 14 - locatorOffset k < lineHeaders.length := by
      rw [hlength]
      omega
    obtain ⟨entry, hentry, hheader⟩ := isLine_lineHeaders.get?_submitAll hk
    rw [List.getElem?_eq_getElem hk, Option.map_some, ← hheader, ← hsound.hash_eq _ entry hentry]
    refine (hsamples.getElem?_eq_some_iff k _).mpr ⟨hheight ▸ hbefore, ?_⟩
    rw [hheight]
    exact ⟨_, entry, hancestor (Nat.sub_le 14 _), hentry, rfl⟩
  exact ⟨origin, hfit, hends.tip?_eq, horigin, hheight,
    ⟨hsample (by decide), hsample (by decide), hsample (by decide)⟩, hsamples, hsearch⟩

end UtxoConsensus
