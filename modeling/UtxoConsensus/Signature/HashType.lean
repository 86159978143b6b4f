import UtxoConsensus.Bytes.Basic

/-!
# Hash types

The last byte of a transaction signature says which parts of the transaction it commits to.
-/

namespace UtxoConsensus

/-- What a signature commits to, as a word of flags. -/
@[ext]
structure HashType where
  raw : UInt32
deriving DecidableEq, Inhabited

namespace HashType

/-! ## The five low bits choose the outputs -/

/-- All outputs. -/
def all : UInt32 := 1

/-- No output. -/
def noOutputs : UInt32 := 2

/-- The output at the place of the input. -/
def single : UInt32 := 3

def baseMask : UInt32 := 0x1f

def base (t : HashType) : UInt32 := t.raw &&& baseMask

/-! ## Single bits -/

/-- The coins spent by all inputs. -/
def utxosBit : UInt32 := 0x20

/-- The replay-protected digest. -/
def forkIdBit : UInt32 := 0x40

/-- No input but the signed one. -/
def anyoneCanPayBit : UInt32 := 0x80

def hasUtxos (t : HashType) : Bool := t.raw &&& utxosBit != 0
def hasForkId (t : HashType) : Bool := t.raw &&& forkIdBit != 0
def hasAnyoneCanPay (t : HashType) : Bool := t.raw &&& anyoneCanPayBit != 0

/-- Is one of the three choices of outputs made, and no unknown bit set? -/
def isDefined (t : HashType) : Bool :=
  let base := t.raw &&& ~~~(utxosBit ||| forkIdBit ||| anyoneCanPayBit)
  decide (all ≤ base) && decide (base ≤ single)

/-- The word with the given bits set or cleared. -/
def withBits (t : HashType) (bits : UInt32) (on : Bool) : HashType :=
  ⟨if on then t.raw ||| bits else t.raw &&& ~~~bits⟩

def withForkId (t : HashType) (on : Bool) : HashType := t.withBits forkIdBit on
def withAnyoneCanPay (t : HashType) (on : Bool) : HashType := t.withBits anyoneCanPayBit on

def withBase (t : HashType) (base : UInt32) : HashType :=
  ⟨t.raw &&& ~~~baseMask ||| base &&& baseMask⟩

/-- The hash type that is meant where none is given. -/
def default : HashType := ⟨all⟩

/-- All inputs and outputs, with replay protection. -/
def allForkId : HashType := ⟨all ||| forkIdBit⟩

/-- The hash type in the last byte of a signature; zero for an empty one. -/
def ofSignature (sig : Bytes) : HashType :=
  ⟨sig.getLast?.elim 0 UInt8.toUInt32⟩

end HashType

end UtxoConsensus
