import Std.Data.HashMap
import UtxoConsensus.Work.Proof

/-!
# The tree of block headers

Headers are accepted one by one. Each but the first names the header before it, so that they form a
tree. Entries are numbered in the order of acceptance. Besides its parent an entry knows one ancestor
further back, its skip ancestor, chosen so that any ancestor can be reached in few steps.
-/

namespace UtxoConsensus

/-- The number of an entry. -/
abbrev BlockId := Nat

/-- A header that was accepted, and its place in the tree. -/
structure BlockEntry where
  hash : Hash256
  header : BlockHeader
  height : UInt32
  parent : Option BlockId
  /-- The ancestor at `skipHeight height`. -/
  skip : Option BlockId
  /-- The work of the chain that ends here. -/
  chainWork : Word256
  /-- The latest timestamp of the chain that ends here. -/
  timeMax : UInt32
deriving DecidableEq

def BlockEntry.time (e : BlockEntry) : Int := e.header.timestamp.toNat

inductive BlockError where
  | duplicateHeader (hash : Hash256)
  | invalidProofOfWork (hash : Hash256)
  | unknownParent (hash : Hash256)
  | unknownBlock (id : BlockId)
deriving DecidableEq

def BlockError.message : BlockError → String
  | .duplicateHeader hash => hash.display
  | .invalidProofOfWork hash => hash.display
  | .unknownParent hash => hash.display
  | .unknownBlock id => "id " ++ toString id

structure BlockTree where
  /-- The entry with the most work, the earliest of them. -/
  best : Option BlockId
  /-- The numbers of the entries by their hashes. -/
  ids : Std.HashMap Hash256 BlockId
  entries : Array BlockEntry
  /-- What is asked of the proof of work, if it is checked. -/
  params : Option WorkParams

/-! ## Skip ancestors -/

def clearLowestBit (n : UInt32) : UInt32 :=
  n &&& (n - 1)

/-- The height of the skip ancestor of a block at the given height. Every lower height would be
right; this one makes walks short. -/
def skipHeight (height : UInt32) : UInt32 :=
  if height < 2 then 0
  else if height &&& 1 = 1 then clearLowestBit (clearLowestBit (height - 1)) + 1
  else clearLowestBit height

namespace BlockTree

def empty (params : Option WorkParams) : BlockTree :=
  ⟨none, ∅, #[], params⟩

def size (t : BlockTree) : Nat := t.entries.size

def get? (t : BlockTree) (id : BlockId) : Option BlockEntry := t.entries[id]?

def find? (t : BlockTree) (hash : Hash256) : Option BlockId := t.ids[hash]?

def genesis? (t : BlockTree) : Option BlockId :=
  if t.entries.isEmpty then none else some 0

/-! ## Ancestors -/

/-- Should a walk from one height to a lower one take the skip ancestor? Not if that leads too far,
nor if the skip ancestor of the parent leads closer. -/
def skipHelps (height target : Nat) : Bool :=
  let skip : Int := (skipHeight (UInt32.ofNat height)).toNat
  let parentSkip : Int := (skipHeight (UInt32.ofNat (height - 1))).toNat
  skip == target ||
    (decide (skip > target) && !(decide (parentSkip < skip - 2) && decide (parentSkip ≥ target)))

/-- The next entry of a walk, and its height. -/
def stepBack? (entry : BlockEntry) (height target : Nat) : Option (BlockId × Nat) :=
  match entry.skip with
  | some skip =>
    if skipHelps height target then some (skip, (skipHeight (UInt32.ofNat height)).toNat)
    else entry.parent.map (·, height - 1)
  | none => entry.parent.map (·, height - 1)

/-- Walks back from an entry at `height` to `target`; returns where the walk ends and the number of
steps. -/
def walk (t : BlockTree) (target : Nat) (id : BlockId) (height steps : Nat) :
    Option (BlockId × Nat) :=
  if _h : height ≤ target then some (id, steps)
  else
    match (t.get? id).bind (stepBack? · height target) with
    | none => none
    | some (next, lower) =>
      if _hlower : lower < height then walk t target next lower (steps + 1) else none
termination_by height

/-- The ancestor of an entry at the given height, itself included, and the steps that it took to find
it; there is none above the height of the entry. -/
def ancestorWithSteps? (t : BlockTree) (id : BlockId) (height : Nat) : Option (BlockId × Nat) := do
  let entry ← t.get? id
  if height > entry.height.toNat then none else t.walk height id entry.height.toNat 0

def ancestor? (t : BlockTree) (id : BlockId) (height : Nat) : Option BlockId :=
  (t.ancestorWithSteps? id height).map Prod.fst

/-! ## Acceptance -/

/-- The place of a new header: under its parent, or first of all. -/
def place (t : BlockTree) (header : BlockHeader) (hash : Hash256) : Except BlockError BlockEntry :=
  let proof := blockProof header.bits
  if t.entries.isEmpty then
    .ok ⟨hash, header, 0, none, none, proof, header.timestamp⟩
  else
    match (t.find? header.previous).bind fun id ↦ (t.get? id).map (id, ·) with
    | none => .error (.unknownParent header.previous)
    | some (id, parent) =>
      let height := parent.height + 1
      .ok ⟨hash, header, height, some id, t.ancestor? id (skipHeight height).toNat,
        parent.chainWork + proof, max parent.timeMax header.timestamp⟩

/-- Is the work of a chain more than that of the best one so far? -/
def beatsBest (t : BlockTree) (work : Word256) : Bool :=
  match t.best.bind t.get? with
  | some best => decide (best.chainWork < work)
  | none => true

@[inline]
def append (t : BlockTree) (entry : BlockEntry) : BlockTree where
  entries := t.entries.push entry
  ids := t.ids.insert entry.hash t.size
  best := if t.beatsBest entry.chainWork then some t.size else t.best
  params := t.params

@[inline]
def acceptHeader (t : BlockTree) (header : BlockHeader) : Except BlockError (BlockId × BlockTree) :=
  let hash := header.hash
  if (t.find? hash).isSome then .error (.duplicateHeader hash)
  else if t.params.any (!checkProofOfWork hash header.bits ·) then
    .error (.invalidProofOfWork hash)
  else do
    let entry ← t.place header hash
    return (t.size, t.append entry)

/-! ## Common ancestors -/

/-- Brings two entries to the same height, that of the lower one. -/
def align? (t : BlockTree) (a b : BlockId) : Option (BlockId × BlockId) := do
  let heightA := (← t.get? a).height.toNat
  let heightB := (← t.get? b).height.toNat
  if heightA > heightB then return (← t.ancestor? a heightB, b)
  else if heightB > heightA then return (a, ← t.ancestor? b heightA)
  else return (a, b)

/-- The next pair of a walk that two entries of equal height take together. -/
def stepBackTogether? (a b : BlockEntry) : Option (BlockId × BlockId) :=
  let parents := do return (← a.parent, ← b.parent)
  match a.skip, b.skip with
  | some skipA, some skipB => if skipA = skipB then parents else some (skipA, skipB)
  | _, _ => parents

/-- Walks back from two entries until they meet. Every entry has a smaller number than its
descendants, so that the numbers decrease. -/
def meet? (t : BlockTree) (a b : BlockId) : Option BlockId :=
  if a = b then some a
  else
    match (do stepBackTogether? (← t.get? a) (← t.get? b) : Option (BlockId × BlockId)) with
    | none => none
    | some (c, d) => if _h : c < a then meet? t c d else none
termination_by a

def lastCommonAncestor? (t : BlockTree) (a b : BlockId) : Option BlockId := do
  let (a, b) ← t.align? a b
  t.meet? a b

/-- Does one of two entries descend from the other? -/
def onSameFork (t : BlockTree) (a b : BlockId) : Bool :=
  (t.align? a b).any fun (a, b) ↦ a == b

/-! ## Times -/

/-- The number of blocks that the median is taken of. -/
def medianTimeSpan : Nat := 11

/-- The times of an entry and its ancestors, the latest `count` blocks of them. -/
def recentTimes (t : BlockTree) : (count : Nat) → (id : BlockId) → List Int
  | 0, _ => []
  | count + 1, id =>
    match t.get? id with
    | none => []
    | some entry => entry.time :: entry.parent.elim [] (recentTimes t count)

def medianTimePast (t : BlockTree) (id : BlockId) : Int :=
  let times := (t.recentTimes medianTimeSpan id).mergeSort
  times.getD (times.length / 2) 0

/-- The seconds that the work between two entries takes at the difficulty of a third one. -/
def equivalentTime? (t : BlockTree) (target origin tip : BlockId) (params : WorkParams) :
    Option Int64 := do
  let targetWork := (← t.get? target).chainWork
  let originWork := (← t.get? origin).chainWork
  return equivalentTime targetWork originWork (blockProof (← t.get? tip).header.bits) params

end BlockTree

end UtxoConsensus
