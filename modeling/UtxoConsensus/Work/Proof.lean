import UtxoConsensus.Work.Header
import UtxoConsensus.Work.Target

/-!
# Proof of work

A block proves work if its hash, read as a number, does not exceed its target. The work of a block is
the number of hashes that its target asks for on average, and the work of a chain is the sum.
-/

namespace UtxoConsensus

/-- What a network asks of its blocks. -/
structure WorkParams where
  /-- The easiest target. -/
  limit : Word256
  /-- The intended number of seconds between two blocks. -/
  spacing : Int64
deriving DecidableEq

namespace WorkParams

def mainnet : WorkParams :=
  ⟨⟨0xffffffffffffffff, 0xffffffffffffffff, 0xffffffffffffffff, 0x00000000ffffffff⟩, 600⟩

/-- The parameters of a network for tests, on which blocks are found at once. -/
def regtest : WorkParams :=
  ⟨⟨0xffffffffffffffff, 0xffffffffffffffff, 0xffffffffffffffff, 0x7fffffffffffffff⟩, 600⟩

def default : WorkParams := mainnet

end WorkParams

/-! ## Work of a block -/

/-- Is a compact target a positive number that fits? -/
def CompactTarget.isValid (c : CompactTarget) : Bool :=
  !c.negative && !c.overflow && !c.target.isZero

/-- The expected number of hashes, `2^256 / (target + 1)`; zero for targets that are not valid. As
`2^256` does not fit, it is computed as one more than the quotient of the complement. -/
def blockProof (bits : UInt32) : Word256 :=
  let decoded := CompactTarget.decode bits
  if decoded.isValid then
    match decoded.target.complement.divRem? (decoded.target + .one) with
    | some division => division.quotient + .one
    | none => .zero
  else .zero

/-- Does a hash meet its target, and the target the limit of the network? -/
def checkProofOfWork (hash : Hash256) (bits : UInt32) (params : WorkParams) : Bool :=
  let decoded := CompactTarget.decode bits
  decoded.isValid && decide (decoded.target ≤ params.limit) &&
    decide (Word256.ofHash hash ≤ decoded.target)

def BlockHeader.checkProofOfWork (h : BlockHeader) (params : WorkParams) : Bool :=
  UtxoConsensus.checkProofOfWork h.hash h.bits params

/-! ## Work as time -/

/-- A quotient as a number of seconds, at most the largest 64-bit number. -/
def saturate (quotient : Option Word256) : Int64 :=
  match quotient with
  | some q => if q.bits ≤ 63 then q.limb0.toInt64 else Int64.maxValue
  | none => Int64.maxValue

/-- The seconds that the work between two totals takes where one block proves `tipProof`. The result
is negative for a total that is not greater. -/
def equivalentTime (toWork fromWork tipProof : Word256) (params : WorkParams) : Int64 :=
  let forward := decide (fromWork < toWork)
  let distance := if forward then toWork - fromWork else fromWork - toWork
  let factor := UInt64.ofNat params.spacing.toInt.natAbs
  let seconds := saturate do
    let product ← distance.checkedMul factor
    let division ← product.divRem? tipProof
    return division.quotient
  if forward then seconds else -seconds

end UtxoConsensus
