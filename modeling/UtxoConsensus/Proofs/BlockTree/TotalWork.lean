import UtxoConsensus.Proofs.BlockTree.Paths

/-!
# Total work

The work of a chain is the sum of the work of its blocks. The tree keeps it in words of 256 bits, which are
added modulo their number, so that what is kept is the remainder of the sum. It is the sum itself exactly
as long as the sum fits into a word; then a child has no less work than its parent, and the best entry has
the most work of all. Two headers with the hardest target but one are enough to leave the word: together
they count as no work at all, and the best entry is the first of them.
-/

namespace UtxoConsensus.BlockTree

variable {t : BlockTree}

def workOf (t : BlockTree) (id : BlockId) : Nat :=
  (t.get? id).elim 0 fun entry ↦ (blockProof entry.header.bits).toNat

/-- The work of all blocks on the path to an entry, however much that is. -/
def totalWork (t : BlockTree) (id : BlockId) : Nat :=
  (t.path id).foldl (fun total block ↦ total + t.workOf block) 0

/-! ## Sums along a path -/

theorem workOf_eq {id : BlockId} {entry : BlockEntry} (hentry : t.get? id = some entry) :
    t.workOf id = (blockProof entry.header.bits).toNat := by
  unfold workOf
  rw [hentry]
  rfl

theorem totalWork_of_root {id : BlockId} {entry : BlockEntry} (hentry : t.get? id = some entry)
    (hroot : entry.parent = none) : t.totalWork id = t.workOf id := by
  unfold totalWork
  rw [path_of_root hentry hroot, List.foldl_cons, List.foldl_nil, Nat.zero_add]

theorem totalWork_of_parent {id p : BlockId} {entry : BlockEntry} (hentry : t.get? id = some entry)
    (hp : entry.parent = some p) (hlt : p < id) : t.totalWork id = t.totalWork p + t.workOf id := by
  unfold totalWork
  rw [path_of_parent hentry hp hlt, List.foldl_append, List.foldl_cons, List.foldl_nil]

namespace IsLinked

variable {id p : BlockId} {entry parent : BlockEntry}

/-- The work of an entry is added to that of its parent, modulo the number of words. -/
theorem toNat_chainWork_eq_add (h : t.IsLinked) (hentry : t.get? id = some entry)
    (hp : entry.parent = some p) (hparent : t.get? p = some parent) :
    entry.chainWork.toNat = (parent.chainWork.toNat + t.workOf id) % Word256.size := by
  have hid : id ≠ 0 := by
    intro hzero
    rw [(h.parent_eq_none_iff hentry).mpr hzero] at hp
    cases hp
  obtain ⟨q, above, -, habove, hbelow⟩ := h.below id entry hentry hid
  rw [hbelow.parent_eq] at hp
  cases hp
  rw [hparent] at habove
  cases habove
  rw [hbelow.chainWork_eq, workOf_eq hentry]

/-- What is kept of the total work is its remainder. By induction along the parents. -/
theorem toNat_chainWork (h : t.IsLinked) (hentry : t.get? id = some entry) :
    entry.chainWork.toNat = t.totalWork id % Word256.size := by
  induction id, entry, hentry using h.induction with
  | root entry hentry hroot =>
    rw [totalWork_of_root hentry hroot, workOf_eq hentry, (h.root entry hentry).chainWork_eq,
      Nat.mod_eq_of_lt (Word256.toNat_lt _)]
  | below id entry p parent hentry hparent hp hlt ih =>
    calc entry.chainWork.toNat
      _ = (parent.chainWork.toNat + t.workOf id) % Word256.size :=
        h.toNat_chainWork_eq_add hentry hp hparent
      _ = (t.totalWork p % Word256.size + t.workOf id) % Word256.size := by rw [ih]
      _ = (t.totalWork p + t.workOf id) % Word256.size := Nat.mod_add_mod _ _ _
      _ = t.totalWork id % Word256.size := by rw [totalWork_of_parent hentry hp hlt]

/-- What is kept is the total work exactly if this fits into a word. -/
theorem toNat_chainWork_eq_iff (h : t.IsLinked) (hentry : t.get? id = some entry) :
    entry.chainWork.toNat = t.totalWork id ↔ t.totalWork id < Word256.size := by
  constructor
  · intro hexact
    rw [← hexact]
    exact Word256.toNat_lt _
  · intro hfits
    rw [h.toNat_chainWork hentry, Nat.mod_eq_of_lt hfits]

/-- A child has no less work than its parent unless the sum leaves the word. -/
theorem toNat_chainWork_le_iff (h : t.IsLinked) (hentry : t.get? id = some entry)
    (hp : entry.parent = some p) (hparent : t.get? p = some parent) :
    parent.chainWork.toNat ≤ entry.chainWork.toNat ↔
      parent.chainWork.toNat + t.workOf id < Word256.size := by
  have hsum := h.toNat_chainWork_eq_add hentry hp hparent
  have hparentWork : parent.chainWork.toNat < Word256.size := Word256.toNat_lt _
  have hwork : t.workOf id < Word256.size := by
    rw [workOf_eq hentry]
    exact Word256.toNat_lt _
  generalize parent.chainWork.toNat = before at hsum hparentWork ⊢
  generalize t.workOf id = work at hsum hwork ⊢
  constructor
  · intro hle
    apply Nat.lt_of_not_le
    intro hover
    have hless : (before + work) % Word256.size = before + work - Word256.size := by
      rw [Nat.mod_eq_sub_mod hover]
      exact Nat.mod_eq_of_lt (by omega)
    omega
  · intro hfits
    rw [hsum, Nat.mod_eq_of_lt hfits]
    exact Nat.le_add_right before work

end IsLinked

/-! ## Trees of headers -/

/-- The earliest of the entries whose total work is the most. -/
def HasMostWork (t : BlockTree) (id : BlockId) : Prop :=
  ∀ other entry, t.get? other = some entry →
    t.totalWork other ≤ t.totalWork id ∧ (other < id → t.totalWork other < t.totalWork id)

/-- As long as no sum leaves the word, the best entry has the most work. -/
theorem IsSound.hasMostWork (h : t.IsSound) {b : BlockId} (hb : t.best = some b)
    (hfits : ∀ id entry, t.get? id = some entry → t.totalWork id < Word256.size) :
    t.HasMostWork b := by
  obtain ⟨best, hbest, hmost⟩ := h.isBest_of_best hb
  have hexact {id : BlockId} {entry : BlockEntry} (hentry : t.get? id = some entry) :
      entry.chainWork.toNat = t.totalWork id :=
    (h.toNat_chainWork_eq_iff hentry).mpr (hfits id entry hentry)
  intro other entry hentry
  rw [← hexact hentry, ← hexact hbest]
  exact hmost other entry hentry

/-- **Chain work is exact as long as it fits into a word.** Whatever headers are handed to an empty tree,
and whether or not their work is checked: the work that an entry keeps is the remainder of the total work
on its path, and is that work itself if and only if it is less than `2^256`; an entry keeps no less work
than its parent if and only if what the two add up to fits; the best entry keeps the most work, and as
long as all totals fit it is the earliest entry whose total work is the most. -/
theorem submitAll_chainWork (params : Option WorkParams) (headers : List BlockHeader) :
    let t := (empty params).submitAll headers
    (∀ id entry, t.get? id = some entry →
      entry.chainWork.toNat = t.totalWork id % Word256.size ∧
        (entry.chainWork.toNat = t.totalWork id ↔ t.totalWork id < Word256.size)) ∧
      (∀ id entry p parent, t.get? id = some entry → entry.parent = some p →
        t.get? p = some parent →
          (parent.chainWork.toNat ≤ entry.chainWork.toNat ↔
            parent.chainWork.toNat + t.workOf id < Word256.size)) ∧
      (t.size ≠ 0 → ∃ b, t.best = some b ∧ t.IsBest b ∧
        ((∀ id entry, t.get? id = some entry → t.totalWork id < Word256.size) → t.HasMostWork b)) := by
  intro t
  have h : t.IsSound := (isSound_empty params).submitAll headers
  refine ⟨?_, ?_, ?_⟩
  · intro id entry hentry
    exact ⟨h.toNat_chainWork hentry, h.toNat_chainWork_eq_iff hentry⟩
  · intro id entry p parent hentry hp hparent
    exact h.toNat_chainWork_le_iff hentry hp hparent
  · intro hsize
    obtain ⟨b, hb, hbest⟩ := h.best_eq_some hsize
    exact ⟨b, hb, hbest, h.hasMostWork hb⟩

/-! ## Work that leaves the word -/

/-- A header with the target one, below another header. -/
def hardHeader (previous : Hash256) (nonce : UInt32) : BlockHeader :=
  ⟨1, previous, .zero, 600, 0x03000001, nonce⟩

def hardHeaders : List BlockHeader :=
  [hardHeader .zero 0, hardHeader (hardHeader .zero 0).hash 1]

/-- One header can have half of all the work that a word holds. -/
theorem toNat_blockProof_hard : (blockProof 0x03000001).toNat = Word256.size / 2 := by decide +kernel

theorem hash_hardHeader_ne :
    (hardHeader .zero 0).hash ≠ (hardHeader (hardHeader .zero 0).hash 1).hash := by decide +kernel

/-- The tree of the two headers by its numbers. -/
theorem get?_submitAll_hardHeaders : ∃ first second,
    ((empty none).submitAll hardHeaders).size = 2 ∧
      ((empty none).submitAll hardHeaders).get? 0 = some first ∧
      ((empty none).submitAll hardHeaders).get? 1 = some second ∧ second.parent = some 0 ∧
      first.header.bits = 0x03000001 ∧ second.header.bits = 0x03000001 := by
  obtain ⟨first, hsubmit, -, hhash, hheader⟩ := submit_empty (hardHeader .zero 0)
  have hsound : ((empty none).append first).IsSound := by
    have hafter := (isSound_empty none).submit (hardHeader .zero 0)
    rwa [hsubmit] at hafter
  have hget : ((empty none).append first).get? 0 = some first := by
    rw [get?_append]
    rfl
  have hnew : ((empty none).append first).find? (hardHeader (hardHeader .zero 0).hash 1).hash = none := by
    rw [find?_append, if_neg (hhash ▸ hash_hardHeader_ne), find?_empty]
  obtain ⟨second, hsecond, hbelow, -, hsecondHeader⟩ := hsound.submit_below rfl hget hhash hnew
  have htree : (empty none).submitAll hardHeaders = ((empty none).append first).append second := by
    unfold hardHeaders submitAll
    rw [List.foldl_cons, List.foldl_cons, List.foldl_nil, hsubmit, hsecond]
  refine ⟨first, second, ?_, ?_, ?_, hbelow.parent_eq, ?_, ?_⟩
  · rw [htree, size_append, size_append]
    rfl
  · rw [htree]
    exact grows_append _ second 0 first hget
  · rw [htree, get?_append, size_append]
    rfl
  · rw [hheader]
    rfl
  · rw [hsecondHeader]
    rfl

/-- Together the two headers have the work `2^256`, of which nothing is kept, and the best entry is the
one with half of it. -/
theorem submitAll_hardHeaders_overflows :
    ∃ first second, ((empty none).submitAll hardHeaders).get? 0 = some first ∧
      ((empty none).submitAll hardHeaders).get? 1 = some second ∧ second.parent = some 0 ∧
      second.chainWork.toNat ≠ ((empty none).submitAll hardHeaders).totalWork 1 ∧
      second.chainWork.toNat < first.chainWork.toNat ∧
      ((empty none).submitAll hardHeaders).best = some 0 ∧
      ((empty none).submitAll hardHeaders).totalWork 0 <
        ((empty none).submitAll hardHeaders).totalWork 1 := by
  obtain ⟨first, second, hsize, hfirst, hsecond, hparent, hfirstBits, hsecondBits⟩ :=
    get?_submitAll_hardHeaders
  have h : ((empty none).submitAll hardHeaders).IsSound := (isSound_empty none).submitAll hardHeaders
  generalize (empty none).submitAll hardHeaders = t at h hsize hfirst hsecond
  have hroot : first.parent = none := (h.parent_eq_none_iff hfirst).mpr rfl
  have hfirstTotal : t.totalWork 0 = Word256.size / 2 := by
    rw [totalWork_of_root hfirst hroot, workOf_eq hfirst, hfirstBits, toNat_blockProof_hard]
  have hsecondTotal : t.totalWork 1 = Word256.size := by
    rw [totalWork_of_parent hsecond hparent Nat.zero_lt_one, hfirstTotal, workOf_eq hsecond, hsecondBits,
      toNat_blockProof_hard]
    decide
  have hfirstWork : first.chainWork.toNat = Word256.size / 2 := by
    rw [h.toNat_chainWork hfirst, hfirstTotal]
    decide
  have hsecondWork : second.chainWork.toNat = 0 := by
    rw [h.toNat_chainWork hsecond, hsecondTotal, Nat.mod_self]
  have hbest : t.best = some 0 := by
    obtain ⟨b, hb, best, hget, hmost⟩ := h.best_eq_some (by rw [hsize]; decide)
    have hb2 : b < 2 := hsize ▸ lt_size hget
    have hb1 : b ≠ 1 := by
      rintro rfl
      have hle := (hmost 0 first hfirst).1
      rw [hsecond] at hget
      cases hget
      rw [hfirstWork, hsecondWork] at hle
      exact absurd hle (by decide)
    obtain rfl : b = 0 := Nat.lt_one_iff.mp (Nat.lt_of_le_of_ne (Nat.le_of_lt_succ hb2) hb1)
    exact hb
  refine ⟨first, second, hfirst, hsecond, hparent, ?_, ?_, hbest, ?_⟩
  · rw [hsecondWork, hsecondTotal]
    decide
  · rw [hsecondWork, hfirstWork]
    decide
  · rw [hfirstTotal, hsecondTotal]
    decide

end UtxoConsensus.BlockTree
