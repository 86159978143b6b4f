import UtxoConsensus.BlockTree.Basic

/-!
# The active chain

Of all chains in the tree one is active. Its blocks are kept in an array, so that the block at a
height is found at once. When the tip changes, the array is rewritten only as far back as it differs.
-/

namespace UtxoConsensus

/-- A chain of the tree, its blocks by height. -/
structure ActiveChain where
  blocks : Array BlockId
deriving DecidableEq

namespace ActiveChain

def empty : ActiveChain := ⟨#[]⟩

def size (c : ActiveChain) : Nat := c.blocks.size

def genesis? (c : ActiveChain) : Option BlockId := c.blocks[0]?

def tip? (c : ActiveChain) : Option BlockId := c.blocks.back?

def height? (c : ActiveChain) : Option Nat :=
  if c.blocks.isEmpty then none else some (c.size - 1)

def get? (c : ActiveChain) (height : Nat) : Option BlockId := c.blocks[height]?

def contains (c : ActiveChain) (t : BlockTree) (id : BlockId) : Bool :=
  (t.get? id).any fun entry ↦ c.get? entry.height.toNat == some id

/-- The block of this chain that follows a block of it. Heights are counted in words. -/
def next? (c : ActiveChain) (t : BlockTree) (id : BlockId) : Option BlockId := do
  let entry ← t.get? id
  if c.get? entry.height.toNat = some id then c.get? (entry.height + 1).toNat else none

/-! ## Changing the tip -/

/-- Writes a block at its height. A block above the array is put in front of those that are to be
appended to it. -/
def place (blocks : Array BlockId) (above : List BlockId) (height : Nat) (id : BlockId) :
    Array BlockId × List BlockId :=
  if height < blocks.size then (blocks.setIfInBounds height id, above) else (blocks, id :: above)

/-- Writes an entry and its ancestors, back to the first that has its place already. -/
def rewriteFrom (t : BlockTree) (blocks : Array BlockId) (above : List BlockId) (id : BlockId) :
    Array BlockId :=
  match t.get? id with
  | none => blocks.appendList above
  | some entry =>
    let height := entry.height.toNat
    if blocks[height]? = some id then blocks.appendList above
    else
      let (blocks, above) := place blocks above height id
      match entry.parent with
      | none => blocks.appendList above
      | some parent =>
        if _h : parent < id then rewriteFrom t blocks above parent else blocks.appendList above
termination_by id

/-- The chain that ends at an entry of the tree, or the chain without blocks. -/
def setTip (c : ActiveChain) (t : BlockTree) : (tip : Option BlockId) → ActiveChain
  | none => empty
  | some tip =>
    match t.get? tip with
    | none => c
    | some entry => ⟨rewriteFrom t (c.blocks.take (entry.height.toNat + 1)) [] tip⟩

/-! ## Searching -/

/-- The first of an entry and its ancestors that is a block of this chain. -/
def lastShared? (c : ActiveChain) (t : BlockTree) (id : BlockId) : Option BlockId :=
  if c.contains t id then some id
  else
    match (t.get? id).bind BlockEntry.parent with
    | none => none
    | some parent => if _h : parent < id then lastShared? c t parent else none
termination_by id

/-- The last block of this chain that an entry descends from, itself included. -/
def findFork? (c : ActiveChain) (t : BlockTree) (id : BlockId) : Option BlockId := do
  let height ← c.height?
  let entry ← t.get? id
  let start ← if entry.height.toNat > height then t.ancestor? id height else some id
  c.lastShared? t start

/-- The first index from `low` to `high` at which a predicate no longer holds, found by halving. It
must hold up to there, and nowhere after. -/
def partitionPoint (holds : Nat → Bool) (low high : Nat) : Nat :=
  if _h : low < high then
    let middle := low + (high - low) / 2
    if holds middle then partitionPoint holds (middle + 1) high
    else partitionPoint holds low middle
  else low
termination_by high - low

/-- The first block by which the chain has reached a time. -/
def findEarliest? (c : ActiveChain) (t : BlockTree) (time : Int) : Option BlockId :=
  let before (height : Nat) : Bool :=
    ((c.get? height).bind t.get?).any fun entry ↦ decide ((entry.timeMax.toNat : Int) < time)
  c.get? (partitionPoint before 0 c.size)

end ActiveChain

end UtxoConsensus
