import Mathlib.Logic.Relation
import UtxoConsensus.Proofs.BlockTree.Acceptance

/-!
# Walks with and without skips

An ancestor is also found by parent links alone, one for each height that lies between. A walk that takes
skip ancestors ends at the same entry. This does not follow from the heights, which start again from zero
above the largest word, so that an entry may have many ancestors at one height. It follows from how skip
ancestors are made: each is found by a walk from the parent, and so it is where parent links lead to.
-/

namespace UtxoConsensus.BlockTree

variable {t t' : BlockTree}

/-! ## Parent links -/

/-- The entry that the given number of parent links leads to. -/
def ascend? (t : BlockTree) : (links : Nat) → (id : BlockId) → Option BlockId
  | 0, id => some id
  | links + 1, id => ((t.get? id).bind BlockEntry.parent).bind (t.ascend? links)

@[simp] theorem ascend?_zero (t : BlockTree) (id : BlockId) : t.ascend? 0 id = some id := rfl

theorem ascend?_succ {id p : BlockId} {entry : BlockEntry} (hentry : t.get? id = some entry)
    (hp : entry.parent = some p) (links : Nat) : t.ascend? (links + 1) id = t.ascend? links p := by
  rw [ascend?, hentry, Option.bind_some, hp, Option.bind_some]

theorem ascend?_add (t : BlockTree) (first second : Nat) (id : BlockId) :
    t.ascend? (first + second) id = (t.ascend? first id).bind (t.ascend? second) := by
  induction first generalizing id with
  | zero => rw [Nat.zero_add, ascend?_zero, Option.bind_some]
  | succ first ih =>
    rw [Nat.succ_add, ascend?, ascend?]
    cases (t.get? id).bind BlockEntry.parent with
    | none => rfl
    | some p => exact ih p

theorem ascend?_mono (hgrows : Grows t t') {links : Nat} {id a : BlockId}
    (h : t.ascend? links id = some a) : t'.ascend? links id = some a := by
  induction links generalizing id with
  | zero => exact h
  | succ links ih =>
    obtain ⟨p, hparent, hrest⟩ := Option.bind_eq_some_iff.mp h
    obtain ⟨entry, hentry, hp⟩ := Option.bind_eq_some_iff.mp hparent
    rw [ascend?_succ (hgrows id entry hentry) hp]
    exact ih hrest

/-! ## Steps -/

/-- Every skip ancestor is where parent links lead to, one for each height that lies between. -/
def SkipsParents (t : BlockTree) : Prop :=
  ∀ id entry p parent, t.get? id = some entry → entry.parent = some p → t.get? p = some parent →
    entry.skip = t.ascend? (parent.height.toNat - (skipHeight entry.height).toNat) p

/-- The loop of a walk goes on from one state, which is an entry and the height that is kept beside it, to
the next. -/
def WalkStep (t : BlockTree) (target : Nat) (state next : BlockId × Nat) : Prop :=
  target < state.2 ∧ ∃ entry, t.get? state.1 = some entry ∧ stepBack? entry state.2 target = some next

def Passes (t : BlockTree) (target : Nat) : BlockId × Nat → BlockId × Nat → Prop :=
  Relation.ReflTransGen (t.WalkStep target)

/-- What holds in every state of a walk: the height that is kept is that of the entry, and parent links
lead to it from where the walk began. -/
structure IsOnWay (t : BlockTree) (target : Nat) (id : BlockId) (height : Nat) (state : BlockId × Nat) :
    Prop where
  exists_get? : ∃ found, t.get? state.1 = some found ∧ found.height.toNat = state.2
  le : target ≤ state.2
  le_height : state.2 ≤ height
  ascend?_eq : t.ascend? (height - state.2) id = some state.1

section Steps

variable {id : BlockId} {entry : BlockEntry} {target : Nat}

/-- A step goes where parent links go. -/
theorem ascend?_of_stepBack? (h : t.IsLinked) (hskips : t.SkipsParents) (hentry : t.get? id = some entry)
    (htarget : target < entry.height.toNat) {next : BlockId} {lower : Nat}
    (hstep : stepBack? entry entry.height.toNat target = some (next, lower)) :
    t.ascend? (entry.height.toNat - lower) id = some next := by
  obtain ⟨p, -, -, hp, -⟩ := h.isSkipList.stepBack?_eq_some hentry htarget
  obtain ⟨parent, s, -, hparent, hheight, hs, -⟩ := h.isSkipList.below id entry p hentry hp
  have hsucc := toNat_eq_succ_of_pos hheight (Nat.zero_lt_of_lt htarget)
  unfold stepBack? at hstep
  rw [hs] at hstep
  dsimp only at hstep
  split at hstep
  · cases hstep
    rw [UInt32.ofNat_toNat]
    have hbelow : (skipHeight entry.height).toNat ≤ parent.height.toNat := by
      rw [hheight]
      exact skipHeight_add_one_le parent.height
    rw [hsucc, Nat.succ_sub hbelow, ascend?_succ hentry hp, ← hskips id entry p parent hentry hp hparent]
    exact hs
  · rw [hp] at hstep
    cases hstep
    have hone : entry.height.toNat - (entry.height.toNat - 1) = 0 + 1 := by omega
    rw [hone, ascend?_succ hentry hp, ascend?_zero]

/-- A step keeps what holds in every state, and it goes to a lower height. -/
theorem IsOnWay.step (h : t.IsLinked) (hskips : t.SkipsParents) {height : Nat} {state next : BlockId × Nat}
    (hway : t.IsOnWay target id height state) (hstep : t.WalkStep target state next) :
    t.IsOnWay target id height next ∧ next.2 < state.2 := by
  obtain ⟨habove, entry, hentry, hnext⟩ := hstep
  obtain ⟨found, hfound, hheight⟩ := hway.exists_get?
  rw [hentry] at hfound
  cases hfound
  rw [← hheight] at hnext habove
  obtain ⟨-, q, nextEntry, -, hq, hnextEntry, hlower, -⟩ := h.isSkipList.stepBack?_eq_some hentry habove
  rw [hnext] at hq
  cases hq
  have hlt : nextHeight entry.height.toNat target < state.2 := hheight ▸ nextHeight_lt habove
  refine ⟨⟨⟨nextEntry, hnextEntry, hlower⟩, le_nextHeight habove,
    Nat.le_of_lt (Nat.lt_of_lt_of_le hlt hway.le_height), ?_⟩, hlt⟩
  have hlinks := ascend?_of_stepBack? h hskips hentry habove hnext
  rw [hheight] at hlinks ⊢
  have hsplit : height - nextHeight state.2 target =
      (height - state.2) + (state.2 - nextHeight state.2 target) := by
    rw [hheight] at hlt
    have hle := hway.le_height
    omega
  rw [hsplit, ascend?_add, hway.ascend?_eq, Option.bind_some, hlinks]

end Steps

/-! ## Whole walks -/

section Walks

variable {id : BlockId} {entry : BlockEntry} {target : Nat}

/-- A walk that ends has passed to a state that is not above the target. -/
theorem passes_of_walk {height steps count : Nat} {a : BlockId}
    (h : t.walk target id height steps = some (a, count)) :
    ∃ lower, lower ≤ target ∧ t.Passes target (id, height) (a, lower) := by
  induction height using Nat.strongRecOn generalizing id steps with
  | ind height ih =>
    unfold walk at h
    split at h
    · next hdone =>
      cases h
      exact ⟨height, hdone, .refl⟩
    · next habove =>
      split at h
      · cases h
      · next next lower hstep =>
        obtain ⟨entry, hentry, hback⟩ := Option.bind_eq_some_iff.mp hstep
        split at h
        · next hlower =>
          obtain ⟨last, hlast, hpasses⟩ := ih lower hlower h
          exact ⟨last, hlast, .head ⟨Nat.lt_of_not_le habove, entry, hentry, hback⟩ hpasses⟩
        · cases h

/-- By induction on the steps of the loop: all states of a walk are on the way of parent links. -/
theorem isOnWay_of_passes (h : t.IsLinked) (hskips : t.SkipsParents) (hentry : t.get? id = some entry)
    (htarget : target ≤ entry.height.toNat) {state : BlockId × Nat}
    (hpasses : t.Passes target (id, entry.height.toNat) state) :
    t.IsOnWay target id entry.height.toNat state := by
  induction hpasses with
  | refl =>
    refine ⟨⟨entry, hentry, rfl⟩, htarget, Nat.le_refl _, ?_⟩
    rw [Nat.sub_self, ascend?_zero]
  | tail _ hstep ih => exact (ih.step h hskips hstep).1

/-- Above the target the loop always finds a parent and goes on. -/
theorem IsOnWay.exists_walkStep (h : t.IsLinked) {height : Nat} {state : BlockId × Nat}
    (hway : t.IsOnWay target id height state) (habove : target < state.2) :
    ∃ found p next, t.get? state.1 = some found ∧ found.parent = some p ∧
      t.WalkStep target state next := by
  obtain ⟨found, hfound, hheight⟩ := hway.exists_get?
  rw [← hheight] at habove
  obtain ⟨p, q, -, hp, hback, -⟩ := h.isSkipList.stepBack?_eq_some hfound habove
  rw [hheight] at habove hback
  exact ⟨found, p, _, hfound, hp, habove, found, hfound, hback⟩

/-- The walk ends where parent links lead to. -/
theorem ancestor?_eq_ascend? (h : t.IsLinked) (hskips : t.SkipsParents) (hentry : t.get? id = some entry)
    (htarget : target ≤ entry.height.toNat) :
    ∃ a found, t.ancestor? id target = some a ∧
      t.ascend? (entry.height.toNat - target) id = some a ∧ t.get? a = some found ∧
        found.height.toNat = target := by
  obtain ⟨a, found, hwalk, -, hfound, hheight⟩ := h.isSkipList.walk_eq_some hentry htarget 0
  obtain ⟨lower, hlower, hpasses⟩ := passes_of_walk hwalk
  have hway := isOnWay_of_passes h hskips hentry htarget hpasses
  have hend : lower = target := Nat.le_antisymm hlower hway.le
  subst hend
  refine ⟨a, found, ?_, hway.ascend?_eq, hfound, hheight⟩
  rw [ancestor?, ancestorWithSteps?_of_le hentry htarget, hwalk, Option.map_some]

end Walks

/-! ## Acceptance -/

/-- The skip ancestor of a new entry is what a walk from the parent finds. -/
theorem skip_eq_of_place {header : BlockHeader} {hash : Hash256} {entry : BlockEntry}
    (hplace : t.place header hash = .ok entry) {p : BlockId} (hp : entry.parent = some p) :
    ∃ parent, t.get? p = some parent ∧ entry.height = parent.height + 1 ∧
      entry.skip = t.ancestor? p (skipHeight entry.height).toNat := by
  unfold place at hplace
  dsimp only at hplace
  split at hplace
  · cases hplace
    cases hp
  · split at hplace
    · cases hplace
    · next q parent hparent =>
      cases hplace
      cases hp
      obtain ⟨_, -, hpair⟩ := Option.bind_eq_some_iff.mp hparent
      obtain ⟨_, hget, heq⟩ := Option.map_eq_some_iff.mp hpair
      cases heq
      exact ⟨parent, hget, rfl, rfl⟩

/-- A new entry keeps the skip ancestors on the way of parent links. -/
theorem SkipsParents.append (hskips : t.SkipsParents) (h : t.IsLinked) {header : BlockHeader}
    {hash : Hash256} {entry : BlockEntry} (hplace : t.place header hash = .ok entry) :
    (t.append entry).SkipsParents := by
  have hgrows : Grows t (t.append entry) := grows_append t entry
  intro id other p parent hother hp hparent
  rw [get?_append] at hother
  split at hother
  · cases hother
    obtain ⟨found, hfound, hheight, hskip⟩ := skip_eq_of_place hplace hp
    rw [hgrows p found hfound] at hparent
    cases hparent
    have hle : (skipHeight entry.height).toNat ≤ parent.height.toNat := by
      rw [hheight]
      exact skipHeight_add_one_le parent.height
    obtain ⟨a, -, ha, hlinks, -⟩ := ancestor?_eq_ascend? h hskips hfound hle
    rw [hskip, ha, ascend?_mono hgrows hlinks]
  · obtain ⟨found, s, -, hfound, -, hs, -⟩ := h.isSkipList.below id other p hother hp
    rw [hgrows p found hfound] at hparent
    cases hparent
    have hlinks := hskips id other p parent hother hp hfound
    rw [hs] at hlinks ⊢
    exact (ascend?_mono hgrows hlinks.symm).symm

/-- A header that is not accepted changes nothing, and one that is accepted finds its skip ancestor by a
walk. -/
theorem SkipsParents.submit (hskips : t.SkipsParents) (h : t.IsLinked) (header : BlockHeader) :
    (t.submit header).2.SkipsParents := by
  unfold BlockTree.submit
  cases haccept : t.acceptHeader header with
  | error e => exact hskips
  | ok result =>
    obtain ⟨-, -, entry, hplace, -, hgrown⟩ := acceptHeader_eq_ok_iff.mp haccept
    dsimp only
    rw [hgrown]
    exact hskips.append h hplace

theorem skipsParents_empty (params : Option WorkParams) : (empty params).SkipsParents :=
  fun id _ _ _ hentry ↦ absurd (lt_size hentry) (Nat.not_lt_zero id)

/-- Whatever headers are handed to the tree, skip ancestors stay on the way of parent links. -/
theorem SkipsParents.submitAll (hskips : t.SkipsParents) (h : t.IsSound) (headers : List BlockHeader) :
    (t.submitAll headers).SkipsParents := by
  induction headers generalizing t with
  | nil => exact hskips
  | cons header headers ih => exact ih (hskips.submit h.toIsLinked header) (h.submit header)

/-- **A walk with skips ends where parent links lead to.** Whatever headers are handed to an empty tree: the
walk from an entry finds nothing exactly above the height of the entry. At every other height it finds the
entry that parent links lead to, one for each height that lies between, and this entry has the height. In
every state that the loop passes through it stands on an entry of the height that it keeps, on the way of
parent links and not past the target. As long as it is above the target the entry has a parent, the loop
goes on, and every way of going on leads to a lower height, so that it ends. -/
theorem submitAll_skipWalk (params : Option WorkParams) (headers : List BlockHeader) :
    let t := (empty params).submitAll headers
    (∀ id entry, t.get? id = some entry → ∀ height : UInt32,
      (t.ancestor? id height.toNat = none ↔ entry.height < height) ∧
      (height ≤ entry.height → ∃ a found, t.ancestor? id height.toNat = some a ∧
        t.ascend? (entry.height.toNat - height.toNat) id = some a ∧
          t.get? a = some found ∧ found.height = height)) ∧
    ∀ id entry, t.get? id = some entry → ∀ height : UInt32, height ≤ entry.height →
      ∀ state, t.Passes height.toNat (id, entry.height.toNat) state →
        t.IsOnWay height.toNat id entry.height.toNat state ∧
        (height.toNat < state.2 →
          (∃ found p, t.get? state.1 = some found ∧ found.parent = some p) ∧
          (∃ next, t.WalkStep height.toNat state next) ∧
          ∀ next, t.WalkStep height.toNat state next → next.2 < state.2) := by
  intro t
  have h : t.IsLinked := ((isSound_empty params).submitAll headers).toIsLinked
  have hskips : t.SkipsParents := (skipsParents_empty params).submitAll (isSound_empty params) headers
  constructor
  · intro id entry hentry height
    constructor
    · rw [UInt32.lt_iff_toNat_lt]
      constructor
      · intro hnone
        apply Nat.lt_of_not_le
        intro hle
        obtain ⟨a, -, ha, -⟩ := ancestor?_eq_ascend? h hskips hentry hle
        rw [hnone] at ha
        cases ha
      · intro hlt
        rw [ancestor?, ancestorWithSteps?_of_lt hentry hlt]
        rfl
    · intro hle
      obtain ⟨a, found, ha, hlinks, hfound, hheight⟩ := ancestor?_eq_ascend? h hskips hentry hle
      exact ⟨a, found, ha, hlinks, hfound, UInt32.toNat_inj.mp hheight⟩
  · intro id entry hentry height hle state hpasses
    have hway := isOnWay_of_passes h hskips hentry hle hpasses
    refine ⟨hway, fun habove ↦ ?_⟩
    obtain ⟨found, p, next, hfound, hp, hstep⟩ := hway.exists_walkStep h habove
    exact ⟨⟨found, p, hfound, hp⟩, ⟨next, hstep⟩, fun _ hother ↦ (hway.step h hskips hother).2⟩

end UtxoConsensus.BlockTree
