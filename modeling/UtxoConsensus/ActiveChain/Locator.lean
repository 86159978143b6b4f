import UtxoConsensus.ActiveChain.Basic

/-!
# Block locators

A locator tells another node where one stands: some hashes of a chain from its tip back to genesis,
all of the latest blocks and ever fewer of the older ones. The other node looks for the first of them
that it has on its own active chain.
-/

namespace UtxoConsensus

/-- The number of entries of a locator after which the steps grow. -/
def locatorDenseEntries : Nat := 10

def locatorMaxStep : Nat := UInt32.size - 1

/-- The difference in height from entry `k` of a locator to the next one. -/
def locatorStep (k : Nat) : Nat :=
  min (1 <<< (k - locatorDenseEntries)) locatorMaxStep

theorem locatorStep_pos (k : Nat) : 0 < locatorStep k := by
  have hshift : 0 < 1 <<< (k - locatorDenseEntries) := by
    rw [Nat.one_shiftLeft]
    exact Nat.two_pow_pos _
  exact Nat.lt_min.2 ⟨hshift, by decide⟩

namespace ActiveChain

/-- The ancestor of an entry at a height. For a block of this chain it is looked up. -/
def ancestor? (c : ActiveChain) (t : BlockTree) (id : BlockId) (height : Nat) : Option BlockId :=
  if c.contains t id then c.get? height else t.ancestor? id height

/-- The entries of a locator from entry `k` on, which is at `height`. -/
def locatorFrom (c : ActiveChain) (t : BlockTree) (k height : Nat) (id : BlockId) : List Hash256 :=
  match t.get? id with
  | none => []
  | some entry =>
    if _h : height = 0 then [entry.hash]
    else
      let lower := height - locatorStep k
      entry.hash :: (c.ancestor? t id lower).elim [] (locatorFrom c t (k + 1) lower)
termination_by height
decreasing_by
  have hstep := locatorStep_pos k
  omega

/-- The locator for an entry of the tree, or for the tip. -/
def locator (c : ActiveChain) (t : BlockTree) (origin : Option BlockId) : List Hash256 :=
  match (origin <|> c.tip?) with
  | none => []
  | some id => (t.get? id).elim [] fun entry ↦ c.locatorFrom t 0 entry.height.toNat id

/-- The first entry of a locator that is on this chain, or else its genesis. -/
def findForkInLocator? (c : ActiveChain) (t : BlockTree) (locator : List Hash256) :
    Option BlockId :=
  (locator.filterMap t.find?).find? (c.contains t) <|> c.genesis?

end ActiveChain

end UtxoConsensus
