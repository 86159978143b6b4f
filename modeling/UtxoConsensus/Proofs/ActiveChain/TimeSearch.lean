import UtxoConsensus.Proofs.ActiveChain.ForkPoints

/-!
# Searching by time

Timestamps may go back from a block to the next, but the latest time that is kept with each block does not:
the ancestors of a block are among those of every later block of its chain. So halving finds the first block
whose latest time reaches the time that is looked for. This latest time is its own timestamp, as it would
otherwise be that of an earlier block, and so the search finds the first block by timestamps as well.
-/

namespace UtxoConsensus

open BlockTree (rootHeader childHeader)

/-! ## Latest times -/

/-- The latest time does not go back. -/
theorem BlockTree.IsLinked.timeMax_le {t : BlockTree} (h : t.IsLinked) {a id : BlockId}
    {ancestor entry : BlockEntry} (ha : t.get? a = some ancestor) (hentry : t.get? id = some entry)
    (hancestor : t.IsAncestor a id) : ancestor.timeMax ≤ entry.timeMax := by
  obtain ⟨e, latest, hlatest, he, htime⟩ := (h.isLatestTime ha).exists_eq
  rw [← htime]
  exact (h.isLatestTime hentry).le e latest (hlatest.trans hancestor) he

namespace ActiveChain

/-! ## Halving -/

/-- If a predicate that no longer holds never holds again, it holds exactly up to the place found. -/
theorem partitionPoint_spec {holds : Nat → Bool} {low high : Nat} (hle : low ≤ high)
    (hfalls : ∀ i j, i ≤ j → j < high → holds j = true → holds i = true) :
    low ≤ partitionPoint holds low high ∧ partitionPoint holds low high ≤ high ∧
      ∀ i, low ≤ i → i < high → (holds i = true ↔ i < partitionPoint holds low high) := by
  fun_induction partitionPoint holds low high with
  | case1 low high hlt middle hmiddle ih =>
    have hbelow : middle < high := by omega
    obtain ⟨hlow, hhigh, hplace⟩ := ih hbelow hfalls
    refine ⟨by omega, hhigh, fun i hi hihigh ↦ ?_⟩
    by_cases hleft : i ≤ middle
    · have hholds : holds i = true := hfalls i middle hleft hbelow hmiddle
      exact iff_of_true hholds (by omega)
    · exact hplace i (by omega) hihigh
  | case2 low high hlt middle hmiddle ih =>
    have hbelow : middle < high := by omega
    obtain ⟨hlow, hhigh, hplace⟩ := ih (by omega) fun i j hij hj ↦ hfalls i j hij (by omega)
    refine ⟨hlow, by omega, fun i hi hihigh ↦ ?_⟩
    by_cases hright : middle ≤ i
    · have hnot : ¬holds i = true := fun hholds ↦ hmiddle (hfalls middle i hright hihigh hholds)
      exact iff_of_false hnot (by omega)
    · exact hplace i hi (by omega)
  | case3 low high hnot =>
    exact ⟨Nat.le_refl low, hle, fun i hi hihigh ↦ absurd (Nat.lt_of_le_of_lt hi hihigh) hnot⟩

/-! ## First blocks -/

/-- The block of least height, of those in the chain that meet a condition. -/
structure IsFirst (c : ActiveChain) (t : BlockTree) (meets : BlockEntry → Prop) (id : BlockId) : Prop where
  contains : c.contains t id = true
  exists_le : ∃ entry, t.get? id = some entry ∧ meets entry ∧ ∀ other found,
    c.contains t other = true → t.get? other = some found → meets found → entry.height ≤ found.height

namespace EndsAt

variable {t : BlockTree} {c : ActiveChain} {tip : BlockId} {meets early : BlockEntry → Prop}

/-- Heights tell the blocks of a chain apart. -/
theorem eq_of_height_eq (hends : c.EndsAt t tip) (h : t.IsLinked) {a b : BlockId} {x y : BlockEntry}
    (ha : c.contains t a = true) (hb : c.contains t b = true) (hx : t.get? a = some x)
    (hy : t.get? b = some y) (hheight : x.height = y.height) : a = b := by
  have hleft := (hends.get?_eq_some_iff _ _).mpr ⟨(hends.contains_iff h).mp ha, x, hx, rfl⟩
  have hright := (hends.get?_eq_some_iff _ _).mpr ⟨(hends.contains_iff h).mp hb, y, hy, rfl⟩
  rw [hheight, hright] at hleft
  exact (Option.some.inj hleft).symm

theorem isFirst_unique (hends : c.EndsAt t tip) (h : t.IsLinked) {a b : BlockId}
    (ha : c.IsFirst t meets a) (hb : c.IsFirst t meets b) : a = b := by
  obtain ⟨x, hx, hxmeets, hxleast⟩ := ha.exists_le
  obtain ⟨y, hy, hymeets, hyleast⟩ := hb.exists_le
  apply hends.eq_of_height_eq h ha.contains hb.contains hx hy
  exact UInt32.le_antisymm (hxleast b y hb.contains hy hymeets) (hyleast a x ha.contains hx hxmeets)

/-- The first block is the same for a weaker condition, if every block that meets this one has an ancestor
that meets the stronger one. -/
theorem isFirst_congr (hends : c.EndsAt t tip) (h : t.IsLinked) (hfit : t.HeightsFit)
    (hweaker : ∀ id entry, t.get? id = some entry → early entry → meets entry)
    (hearly : ∀ id entry, t.get? id = some entry → meets entry →
      ∃ a ancestor, t.IsAncestor a id ∧ t.get? a = some ancestor ∧ early ancestor) (id : BlockId) :
    c.IsFirst t early id ↔ c.IsFirst t meets id := by
  -- Every block in the chain that meets the weaker condition has one at most as high that meets the other.
  have hback : ∀ other found, c.contains t other = true → t.get? other = some found → meets found →
      ∃ a ancestor, c.contains t a = true ∧ t.get? a = some ancestor ∧ early ancestor ∧
        ancestor.height ≤ found.height := by
    intro other found hother hfound hmeets
    obtain ⟨a, ancestor, hancestor, ha, hreached⟩ := hearly other found hfound hmeets
    have hon : c.contains t a = true :=
      (hends.contains_iff h).mpr (hancestor.trans ((hends.contains_iff h).mp hother))
    exact ⟨a, ancestor, hon, ha, hreached,
      UInt32.le_iff_toNat_le.mpr (h.le_height hfit hfound ⟨hancestor, ancestor, ha, rfl⟩)⟩
  constructor
  · intro hfirst
    obtain ⟨entry, hentry, hreached, hleast⟩ := hfirst.exists_le
    refine ⟨hfirst.contains, entry, hentry, hweaker id entry hentry hreached,
      fun other found hother hfound hmeets ↦ ?_⟩
    obtain ⟨a, ancestor, hon, ha, hbefore, hle⟩ := hback other found hother hfound hmeets
    exact UInt32.le_trans (hleast a ancestor hon ha hbefore) hle
  · intro hfirst
    obtain ⟨entry, hentry, hmeets, hleast⟩ := hfirst.exists_le
    obtain ⟨a, ancestor, hon, ha, hbefore, hle⟩ := hback id entry hfirst.contains hentry hmeets
    have hge : entry.height ≤ ancestor.height := hleast a ancestor hon ha (hweaker a ancestor ha hbefore)
    obtain rfl : a = id :=
      hends.eq_of_height_eq h hon hfirst.contains ha hentry (UInt32.le_antisymm hle hge)
    rw [hentry] at ha
    cases ha
    exact ⟨hon, entry, hentry, hbefore, fun other found hother hfound hreached ↦
      hleast other found hother hfound (hweaker other found hfound hreached)⟩

end EndsAt

/-! ## The search -/

/-- What the search asks of a height: has the chain not reached the time there? -/
def isBefore (c : ActiveChain) (t : BlockTree) (time : Int) (height : Nat) : Bool :=
  ((c.get? height).bind t.get?).any fun entry ↦ decide ((entry.timeMax.toNat : Int) < time)

theorem findEarliest?_eq (c : ActiveChain) (t : BlockTree) (time : Int) :
    c.findEarliest? t time = c.get? (partitionPoint (c.isBefore t time) 0 c.size) := rfl

/-- The latest time of a block, as the chain has reached it there. -/
def Reaches (time : Int) (entry : BlockEntry) : Prop := time ≤ (entry.timeMax.toNat : Int)

namespace EndsAt

variable {t : BlockTree} {c : ActiveChain} {tip : BlockId} {time : Int}

/-- There is a block at every height of a chain. -/
theorem exists_isAncestorAt_of_lt (hends : c.EndsAt t tip) (h : t.IsLinked) (hfit : t.HeightsFit)
    {height : Nat} (hlt : height < c.size) : ∃ a entry, t.IsAncestorAt a tip height ∧
      t.get? a = some entry ∧ entry.height.toNat = height := by
  obtain ⟨last, hlast, hsize⟩ := hends.size_eq
  obtain ⟨a, ha⟩ := h.exists_isAncestorAt hfit hlast (Nat.le_of_lt_succ (hsize ▸ hlt))
  obtain ⟨entry, hentry, hheight⟩ := ha.2
  exact ⟨a, entry, ha, hentry, hheight⟩

/-- A height is before the time if the block at this height has not reached it. -/
theorem isBefore_iff (hends : c.EndsAt t tip) {id : BlockId} {entry : BlockEntry} {height : Nat}
    (hid : t.IsAncestorAt id tip height) (hentry : t.get? id = some entry) :
    c.isBefore t time height = true ↔ ¬Reaches time entry := by
  unfold isBefore Reaches
  rw [(hends.get?_eq_some_iff height id).mpr hid, Option.bind_some, hentry, Option.any_some,
    decide_eq_true_eq, Int.not_le]

/-- Where the chain has not reached the time it had not reached it before. -/
theorem isBefore_of_le (hends : c.EndsAt t tip) (h : t.IsLinked) (hfit : t.HeightsFit) {i j : Nat}
    (hij : i ≤ j) (hj : j < c.size) (hbefore : c.isBefore t time j = true) :
    c.isBefore t time i = true := by
  obtain ⟨last, hlast, -⟩ := hends.size_eq
  obtain ⟨a, x, ha, hx, -⟩ := hends.exists_isAncestorAt_of_lt h hfit (Nat.lt_of_le_of_lt hij hj)
  obtain ⟨b, y, hb, hy, -⟩ := hends.exists_isAncestorAt_of_lt h hfit hj
  rw [hends.isBefore_iff hb hy] at hbefore
  rw [hends.isBefore_iff ha hx]
  intro hreaches
  have hle := h.timeMax_le hx hy (h.isAncestorAt_of_le hfit hlast ha hb hij).1
  rw [UInt32.le_iff_toNat_le] at hle
  exact hbefore (Int.le_trans hreaches (Int.ofNat_le.mpr hle))

/-- The blocks that reach the time are those from the place on that is found. -/
theorem reaches_iff (hends : c.EndsAt t tip) (h : t.IsLinked) (hfit : t.HeightsFit) {id : BlockId}
    {entry : BlockEntry} (hid : c.contains t id = true) (hentry : t.get? id = some entry) :
    entry.height.toNat < c.size ∧
      (Reaches time entry ↔ partitionPoint (c.isBefore t time) 0 c.size ≤ entry.height.toNat) := by
  obtain ⟨last, hlast, hsize⟩ := hends.size_eq
  have hat : t.IsAncestorAt id tip entry.height.toNat :=
    ⟨(hends.contains_iff h).mp hid, entry, hentry, rfl⟩
  have hlt : entry.height.toNat < c.size := hsize ▸ Nat.lt_succ_of_le (h.le_height hfit hlast hat)
  have hfirst (i j : Nat) (hij : i ≤ j) (hj : j < c.size) (hbefore : c.isBefore t time j = true) :
      c.isBefore t time i = true := hends.isBefore_of_le h hfit hij hj hbefore
  obtain ⟨-, -, hplace⟩ := partitionPoint_spec (Nat.zero_le c.size) hfirst
  refine ⟨hlt, ?_⟩
  rw [← Nat.not_lt, ← hplace _ (Nat.zero_le _) hlt, hends.isBefore_iff hat hentry]
  exact Classical.not_not.symm

/-- The search finds the first block whose latest time reaches the time that is looked for. -/
theorem findEarliest?_cases (hends : c.EndsAt t tip) (h : t.IsLinked) (hfit : t.HeightsFit) (time : Int) :
    (∃ id, c.findEarliest? t time = some id ∧ c.IsFirst t (Reaches time) id) ∨
      c.findEarliest? t time = none ∧ ∀ id entry, c.contains t id = true → t.get? id = some entry →
        ¬Reaches time entry := by
  rw [findEarliest?_eq]
  rcases Nat.lt_or_ge (partitionPoint (c.isBefore t time) 0 c.size) c.size with hlt | hge
  · obtain ⟨a, entry, ha, hentry, hheight⟩ := hends.exists_isAncestorAt_of_lt h hfit hlt
    have hon : c.contains t a = true := (hends.contains_iff h).mpr ha.1
    refine .inl ⟨a, (hends.get?_eq_some_iff _ a).mpr ha, hon, entry, hentry, ?_, ?_⟩
    · exact (hends.reaches_iff h hfit hon hentry).2.mpr (Nat.le_of_eq hheight.symm)
    · intro other found hother hfound hreaches
      rw [UInt32.le_iff_toNat_le, hheight]
      exact (hends.reaches_iff h hfit hother hfound).2.mp hreaches
  · refine .inr ⟨Array.getElem?_eq_none hge, fun id entry hid hentry hreaches ↦ ?_⟩
    obtain ⟨hlt, hplace⟩ : entry.height.toNat < c.size ∧ (Reaches time entry ↔ _) :=
      hends.reaches_iff h hfit hid hentry
    exact absurd (Nat.le_trans hge (hplace.mp hreaches)) (Nat.not_le_of_lt hlt)

/-- A block reaches every time up to its own timestamp. -/
theorem reaches_of_le_time (h : t.IsLinked) {id : BlockId} {entry : BlockEntry}
    (hentry : t.get? id = some entry) (htime : time ≤ entry.time) : Reaches time entry := by
  have hle := (h.isLatestTime hentry).le id entry (.refl id) hentry
  rw [UInt32.le_iff_toNat_le] at hle
  exact Int.le_trans htime (Int.ofNat_le.mpr hle)

/-- The first block that reaches the time is the first one whose own timestamp does. -/
theorem isFirst_time_iff (hends : c.EndsAt t tip) (h : t.IsLinked) (hfit : t.HeightsFit) (id : BlockId) :
    c.IsFirst t (fun entry ↦ time ≤ entry.time) id ↔ c.IsFirst t (Reaches time) id := by
  apply hends.isFirst_congr h hfit
  · exact fun id entry hentry htime ↦ reaches_of_le_time h hentry htime
  · intro id entry hentry hreaches
    obtain ⟨a, ancestor, hancestor, ha, htime⟩ := (h.isLatestTime hentry).exists_eq
    refine ⟨a, ancestor, hancestor, ha, ?_⟩
    unfold BlockEntry.time
    rw [htime]
    exact hreaches

/-- The block that is found is the first one that reaches the time. -/
theorem findEarliest?_eq_some_iff (hends : c.EndsAt t tip) (h : t.IsLinked) (hfit : t.HeightsFit)
    (id : BlockId) : c.findEarliest? t time = some id ↔ c.IsFirst t (Reaches time) id := by
  rcases hends.findEarliest?_cases h hfit time with ⟨found, hfound, hfirst⟩ | ⟨hnone, hnot⟩
  · rw [hfound, Option.some.injEq]
    constructor
    · rintro rfl
      exact hfirst
    · exact fun hid ↦ hends.isFirst_unique h hfirst hid
  · rw [hnone]
    constructor
    · exact fun hid ↦ nomatch hid
    · intro hid
      obtain ⟨entry, hentry, hreaches, -⟩ := hid.exists_le
      exact absurd hreaches (hnot id entry hid.contains hentry)

/-- Nothing is found if all blocks of the chain have earlier timestamps. -/
theorem findEarliest?_eq_none_iff (hends : c.EndsAt t tip) (h : t.IsLinked) (hfit : t.HeightsFit) :
    c.findEarliest? t time = none ↔ ∀ id entry, c.contains t id = true → t.get? id = some entry →
      entry.time < time := by
  rcases hends.findEarliest?_cases h hfit time with ⟨found, hfound, hfirst⟩ | ⟨hnone, hnot⟩
  · rw [hfound]
    constructor
    · exact fun hid ↦ nomatch hid
    · intro hall
      have htimes := (hends.isFirst_time_iff h hfit found).mpr hfirst
      obtain ⟨entry, hentry, htime, -⟩ := htimes.exists_le
      exact absurd htime (Int.not_le.mpr (hall found entry hfirst.contains hentry))
  · refine iff_of_true hnone fun id entry hid hentry ↦ ?_
    exact Int.not_le.mp fun htime ↦ hnot id entry hid hentry (reaches_of_le_time h hentry htime)

end EndsAt

/-! ## The chain without blocks -/

theorem not_isFirst_empty (t : BlockTree) (meets : BlockEntry → Prop) (id : BlockId) :
    ¬empty.IsFirst t meets id := by
  intro hfirst
  have hcontains := hfirst.contains
  rw [contains_empty] at hcontains
  cases hcontains

theorem findEarliest?_empty (t : BlockTree) (time : Int) : empty.findEarliest? t time = none :=
  Array.getElem?_empty

end ActiveChain

/-! ## Histories -/

namespace HeaderStore

/-- **Searching by time.** After any changes of an empty store, in a tree in which no height has overflowed,
and for every time: what the search finds is the first block of the active chain whose timestamp is not
before the time, and also the first one whose latest time is not. It finds nothing exactly if all timestamps
of the active chain are before the time. -/
theorem changeAll_findEarliest (params : Option WorkParams) (changes : List StoreChange)
    (hfit : ((empty params).changeAll changes).tree.HeightsFit) (time : Int) :
    let s := (empty params).changeAll changes
    (∀ id, s.chain.findEarliest? s.tree time = some id ↔
      s.chain.IsFirst s.tree (fun entry ↦ time ≤ entry.time) id) ∧
    (∀ id, s.chain.findEarliest? s.tree time = some id ↔
      s.chain.IsFirst s.tree (fun entry ↦ time ≤ (entry.timeMax.toNat : Int)) id) ∧
    (s.chain.findEarliest? s.tree time = none ↔ ∀ id entry, s.chain.contains s.tree id = true →
      s.tree.get? id = some entry → entry.time < time) := by
  intro s
  have hempty : (empty params).tree.IsSound := BlockTree.isSound_empty params
  have h : s.tree.IsLinked := (isSound_changeAll hempty changes).toIsLinked
  have hpath : s.chain.IsPath s.tree :=
    isPath_changeAll hempty (ActiveChain.isPath_empty _) changes hfit
  rcases hpath.cases h hfit with hblocks | ⟨tip, hends⟩
  · have hchain : s.chain = .empty := congrArg ActiveChain.mk hblocks
    simp only [hchain, ActiveChain.findEarliest?_empty, ActiveChain.not_isFirst_empty,
      ActiveChain.contains_empty]
    simp
  · refine ⟨fun id ↦ ?_, hends.findEarliest?_eq_some_iff h hfit, hends.findEarliest?_eq_none_iff h hfit⟩
    rw [hends.findEarliest?_eq_some_iff h hfit, hends.isFirst_time_iff h hfit]

/-- A chain whose second block has an earlier timestamp than the first. -/
theorem changeAll_findEarliest_forkedTree :
    let s := (empty none).changeAll
      [.accept rootHeader, .accept childHeader, .accept siblingHeader, .moveTip (some 2)]
    s.tree.HeightsFit ∧ s.chain.tip? = some 2 ∧ s.chain.findEarliest? s.tree 550 = some 0 ∧
      s.chain.findEarliest? s.tree 601 = none := by
  intro s
  obtain ⟨root, -, sibling, hroot, -, hsibling, hrootHeader, hparent, hheader⟩ := get?_forkedTree
  have hlinked : forkedTree.IsLinked := isSound_forkedTree.toIsLinked
  have hblocks := ActiveChain.toList_setTip (ActiveChain.isPath_empty forkedTree) hlinked
    heightsFit_forkedTree hsibling
  have hends := ActiveChain.endsAt_of_toList hlinked heightsFit_forkedTree hsibling hblocks
  obtain ⟨hfound, -, -⟩ := changeAll_findEarliest none
    [.accept rootHeader, .accept childHeader, .accept siblingHeader, .moveTip (some 2)]
    heightsFit_forkedTree 550
  obtain ⟨-, -, hnone⟩ := changeAll_findEarliest none
    [.accept rootHeader, .accept childHeader, .accept siblingHeader, .moveTip (some 2)]
    heightsFit_forkedTree 601
  have hrootTime : root.time = 600 := by
    unfold BlockEntry.time
    rw [hrootHeader]
    rfl
  have hsiblingTime : sibling.time = 500 := by
    unfold BlockEntry.time
    rw [hheader]
    rfl
  refine ⟨heightsFit_forkedTree, hends.tip?_eq, (hfound 0).mpr ⟨?_, root, hroot, ?_, ?_⟩, hnone.mpr ?_⟩
  · exact (hends.contains_iff hlinked).mpr (.step hsibling hparent (.refl 0))
  · rw [hrootTime]
    decide
  · intro other found _ _ _
    rw [(hlinked.root root hroot).height_eq, UInt32.le_iff_toNat_le]
    exact Nat.zero_le _
  · intro id entry hid hentry
    change forkedTree.get? id = some entry at hentry
    have hancestor : forkedTree.IsAncestor id 2 := (hends.contains_iff hlinked).mp hid
    rcases (BlockTree.isAncestor_iff hsibling).mp hancestor with rfl | ⟨p, hp, hzero⟩
    · rw [hsibling] at hentry
      cases hentry
      rw [hsiblingTime]
      decide
    · rw [hparent] at hp
      cases hp
      obtain rfl : id = 0 := Nat.le_zero.mp (hlinked.le_of_isAncestor hzero)
      rw [hroot] at hentry
      cases hentry
      rw [hrootTime]
      decide

end HeaderStore

end UtxoConsensus
