/-!
# Script flags

The rules of the script language have changed over the years, and some are asked only of
transactions that are relayed. A set of flags says which rules hold for one evaluation. A set is a
word with one bit a flag; bits without a meaning are kept, and change nothing.
-/

namespace UtxoConsensus

/-- A set of rules for the evaluation of scripts. -/
@[ext]
structure ScriptFlags where
  bits : UInt32
deriving DecidableEq, Inhabited

namespace ScriptFlags

/-- The set with the flag of the given bit alone. -/
def ofBit (i : UInt32) : ScriptFlags := ⟨1 <<< i⟩

def none : ScriptFlags := ⟨0⟩

/-- Scripts behind a script hash are evaluated too. -/
def p2sh : ScriptFlags := ofBit 0

/-- Signatures, public keys and hash types are well formed. -/
def strictEnc : ScriptFlags := ofBit 1

/-- ECDSA signatures are strict DER. -/
def derSig : ScriptFlags := ofBit 2

/-- ECDSA signatures use the lower of the two values for S. -/
def lowS : ScriptFlags := ofBit 3

/-- Unlocking scripts only push. -/
def sigPushOnly : ScriptFlags := ofBit 5

/-- Pushes and numbers take their shortest form. -/
def minimalData : ScriptFlags := ofBit 6

/-- Opcodes that are reserved for upgrades fail. -/
def discourageUpgradableNops : ScriptFlags := ofBit 7

/-- Exactly one element is left at the end. -/
def cleanStack : ScriptFlags := ofBit 8

/-- Scripts can demand a lock time. -/
def checkLockTimeVerify : ScriptFlags := ofBit 9

/-- Scripts can demand a relative lock time. -/
def checkSequenceVerify : ScriptFlags := ofBit 10

/-- Conditions are empty or a single 1. -/
def minimalIf : ScriptFlags := ofBit 13

/-- A signature that fails must be empty. -/
def nullFail : ScriptFlags := ofBit 14

/-- Signatures commit to the replay-protected digest if their hash type says so. -/
def enableSighashForkId : ScriptFlags := ofBit 16

/-- Witness programs behind a script hash are not exempt from evaluation. -/
def disallowSegwitRecovery : ScriptFlags := ofBit 20

/-- Multisignatures may be Schnorr, with a bitfield that selects the keys. -/
def enableSchnorrMultisig : ScriptFlags := ofBit 21

/-- The length of the unlocking script limits the signature checks. -/
def inputSigChecks : ScriptFlags := ofBit 22

/-- Transactions and blocks have limits on signature checks. -/
def enforceSigChecks : ScriptFlags := ofBit 23

/-- Numbers have up to eight bytes, and can be multiplied. -/
def integers64Bit : ScriptFlags := ofBit 24

/-- Scripts can look at the transaction. -/
def nativeIntrospection : ScriptFlags := ofBit 25

/-- Script hashes may have 32 bytes. -/
def enableP2sh32 : ScriptFlags := ofBit 26

/-- Scripts can look at tokens, and signatures can commit to all coins that are spent. -/
def enableTokens : ScriptFlags := ofBit 27

/-! ## Operations on sets -/

instance : OrOp ScriptFlags := ⟨fun f g ↦ ⟨f.bits ||| g.bits⟩⟩
instance : AndOp ScriptFlags := ⟨fun f g ↦ ⟨f.bits &&& g.bits⟩⟩
instance : Complement ScriptFlags := ⟨fun f ↦ ⟨~~~f.bits⟩⟩

/-- Are all flags of `g` set in `f`? -/
def contains (f g : ScriptFlags) : Bool :=
  f.bits &&& g.bits == g.bits

def intersects (f g : ScriptFlags) : Bool :=
  f.bits &&& g.bits != 0

/-- The flags of `f` that are not in `g`. -/
def without (f g : ScriptFlags) : ScriptFlags :=
  f &&& ~~~g

/-! ## Sets with a purpose -/

/-- Every flag that has a meaning. -/
def all : ScriptFlags :=
  p2sh ||| strictEnc ||| derSig ||| lowS ||| sigPushOnly ||| minimalData |||
    discourageUpgradableNops ||| cleanStack ||| checkLockTimeVerify ||| checkSequenceVerify |||
    minimalIf ||| nullFail ||| enableSighashForkId ||| disallowSegwitRecovery |||
    enableSchnorrMultisig ||| inputSigChecks ||| enforceSigChecks ||| integers64Bit |||
    nativeIntrospection ||| enableP2sh32 ||| enableTokens

/-- The rules that every block keeps. -/
def mandatory : ScriptFlags :=
  p2sh ||| strictEnc ||| enableSighashForkId ||| lowS ||| nullFail

/-- The rules for transactions that are relayed. -/
def standard : ScriptFlags :=
  mandatory ||| derSig ||| sigPushOnly ||| minimalData ||| discourageUpgradableNops |||
    cleanStack ||| checkLockTimeVerify ||| checkSequenceVerify ||| minimalIf |||
    disallowSegwitRecovery ||| enableSchnorrMultisig ||| inputSigChecks ||| integers64Bit |||
    nativeIntrospection ||| enableP2sh32 ||| enableTokens

/-- The set with the given bits, if each of them has a meaning. -/
def ofBits? (bits : UInt32) : Option ScriptFlags :=
  if bits &&& ~~~all.bits = 0 then some ⟨bits⟩ else Option.none

/-! ## Text -/

def hexText (n : UInt32) : String :=
  "0x" ++ String.ofList (Nat.toDigits 16 n.toNat)

/-- The set as it is shown to developers. -/
def describe (f : ScriptFlags) : String :=
  "ScriptFlags(" ++ hexText f.bits ++ ")"

end ScriptFlags

end UtxoConsensus
