import UtxoConsensus.ActiveChain.Locator
import UtxoConsensus.Proofs.ActiveChain.Tips

/-!
# Forks

An entry and the tip of the active chain have a last common ancestor, where the entry leaves the active
chain. The ancestors of the entry up to there are blocks of the active chain, and those after it are not.
Both ways of looking for an ancestor, in the array and along skip ancestors, find the same one.
-/

namespace UtxoConsensus

structure BlockTree.IsFork (t : BlockTree) (fork a b : BlockId) : Prop where
  left : t.IsAncestor fork a
  right : t.IsAncestor fork b
  last : ∀ c, t.IsAncestor c a → t.IsAncestor c b → t.IsAncestor c fork

namespace ActiveChain.EndsAt

variable {t : BlockTree} {c : ActiveChain} {tip id : BlockId} {entry : BlockEntry}

/-! ## Looking for an ancestor -/

/-- The ancestor that is looked up is that of the tree. -/
theorem ancestor?_eq_some (hends : c.EndsAt t tip) (h : t.IsLinked) (hfit : t.HeightsFit)
    (hentry : t.get? id = some entry) {height : Nat} (hle : height ≤ entry.height.toNat) :
    ∃ a, c.ancestor? t id height = some a ∧ t.IsAncestorAt a id height := by
  unfold ActiveChain.ancestor?
  by_cases hcontains : c.contains t id = true
  · obtain ⟨a, hancestor, hfound⟩ := h.exists_isAncestorAt hfit hentry hle
    have htip : t.IsAncestor id tip := (hends.contains_iff h).mp hcontains
    refine ⟨a, ?_, hancestor, hfound⟩
    rw [if_pos hcontains, hends.get?_eq_some_iff]
    exact ⟨hancestor.trans htip, hfound⟩
  · obtain ⟨a, found, hget, hancestor, hfound, hheight⟩ := h.ancestor?_eq_some hentry hle
    exact ⟨a, (if_neg hcontains).trans hget, hancestor, found, hfound, hheight⟩

/-! ## Looking for the fork -/

/-- The walk down the branch stops at the first block that is on the active chain. -/
theorem lastShared?_eq_some (hends : c.EndsAt t tip) (h : t.IsLinked) (hentry : t.get? id = some entry) :
    ∃ fork, c.lastShared? t id = some fork ∧ t.IsFork fork id tip := by
  obtain ⟨last, hlast, -⟩ := hends.size_eq
  induction id, entry, hentry using h.induction with
  | root entry hentry hroot =>
    have htip : t.IsAncestor 0 tip := h.isAncestor_zero hlast
    refine ⟨0, ?_, .refl 0, htip, fun a ha _ ↦ ha⟩
    rw [lastShared?, if_pos ((hends.contains_iff h).mpr htip)]
  | below id entry p parent hentry hparent hp hlt ih =>
    rw [lastShared?]
    by_cases hcontains : c.contains t id = true
    · exact ⟨id, if_pos hcontains, .refl id, (hends.contains_iff h).mp hcontains, fun a ha _ ↦ ha⟩
    · obtain ⟨fork, hfork, hleft, hright, hfirst⟩ := ih
      refine ⟨fork, ?_, .step hentry hp hleft, hright, ?_⟩
      · rw [if_neg hcontains, hentry, Option.bind_some, hp]
        exact (dif_pos hlt).trans hfork
      · intro a ha htip
        rcases (BlockTree.isAncestor_iff hentry).mp ha with rfl | ⟨q, hq, habove⟩
        · exact absurd ((hends.contains_iff h).mpr htip) hcontains
        · rw [hp] at hq
          cases hq
          exact hfirst a habove htip

/-- The height of a chain is that of its tip. -/
theorem height?_eq (hends : c.EndsAt t tip) {last : BlockEntry} (hlast : t.get? tip = some last) :
    c.height? = some last.height.toNat := by
  obtain ⟨entry, hentry, hsize⟩ := hends.size_eq
  rw [hlast] at hentry
  cases hentry
  have hne : ¬ c.blocks.isEmpty = true := by
    intro hempty
    have hzero : c.size = 0 := Array.isEmpty_iff_size_eq_zero.mp hempty
    omega
  unfold height?
  rw [if_neg hne, hsize, Nat.add_sub_cancel]

/-- There is a last block of the active chain that an entry descends from, and the search finds it. -/
theorem findFork?_eq_some (hends : c.EndsAt t tip) (h : t.IsLinked) (hfit : t.HeightsFit)
    (hentry : t.get? id = some entry) : ∃ fork, c.findFork? t id = some fork ∧ t.IsFork fork id tip := by
  obtain ⟨last, hlast, -⟩ := hends.size_eq
  unfold findFork?
  rw [hends.height?_eq hlast, hentry]
  simp only [Option.bind_eq_bind, Option.bind_some]
  by_cases hhigher : entry.height.toNat > last.height.toNat
  · rw [if_pos hhigher]
    -- The search starts at the height of the tip, and no common ancestor is above it.
    obtain ⟨start, found, hstart, hancestor, hfound, hheight⟩ :=
      h.ancestor?_eq_some hentry (Nat.le_of_lt hhigher)
    obtain ⟨fork, hshared, hleft, hright, hfirst⟩ := hends.lastShared?_eq_some h hfound
    refine ⟨fork, ?_, hleft.trans hancestor, hright, ?_⟩
    · rw [hstart, Option.bind_some, hshared]
    · intro a ha htip
      obtain ⟨common, hcommon⟩ := h.get?_of_isAncestor hentry ha
      have hle : common.height.toNat ≤ last.height.toNat :=
        h.le_height hfit hlast ⟨htip, common, hcommon, rfl⟩
      have hbelow : t.IsAncestorAt a start common.height.toNat :=
        h.isAncestorAt_of_le hfit hentry ⟨ha, common, hcommon, rfl⟩
          ⟨hancestor, found, hfound, hheight⟩ hle
      exact hfirst a hbelow.1 htip
  · rw [if_neg hhigher]
    exact hends.lastShared?_eq_some h hentry

/-- Of the ancestors of an entry, those up to the fork are blocks of the active chain. -/
theorem contains_iff_le_fork (hends : c.EndsAt t tip) (h : t.IsLinked) (hfit : t.HeightsFit)
    (hentry : t.get? id = some entry) {fork a : BlockId} {forkEntry : BlockEntry} {height : Nat}
    (hfork : t.IsFork fork id tip) (hforkEntry : t.get? fork = some forkEntry)
    (ha : t.IsAncestorAt a id height) :
    c.contains t a = true ↔ height ≤ forkEntry.height.toNat := by
  rw [hends.contains_iff h]
  constructor
  · intro htip
    exact h.le_height hfit hforkEntry ⟨hfork.last a ha.1 htip, ha.2⟩
  · intro hle
    have hbelow : t.IsAncestorAt a fork height :=
      h.isAncestorAt_of_le hfit hentry ha ⟨hfork.left, forkEntry, hforkEntry, rfl⟩ hle
    exact hbelow.1.trans hfork.right

end ActiveChain.EndsAt

end UtxoConsensus
