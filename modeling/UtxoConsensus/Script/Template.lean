import UtxoConsensus.Digest.Basic
import UtxoConsensus.Script.Flags
import UtxoConsensus.Script.Instruction

/-!
# Script templates

The shapes of locking scripts that have a meaning of their own: payment to the hash of a key, payment
to the hash of a script, and the programs of another chain's witnesses.
-/

namespace UtxoConsensus.Script

/-! ## Payment to the hash of a key -/

/-- Whoever has the key with this hash can spend. -/
def payToKeyHash (keyHash : Bytes) : Bytes :=
  [Opcode.dup, Opcode.hash160] ++ pushData keyHash ++ [Opcode.equalVerify, Opcode.checkSig]

def isPayToKeyHash (script : Bytes) : Bool :=
  script.length == 25 && script.take 3 == [Opcode.dup, Opcode.hash160, 20] &&
    script.drop 23 == [Opcode.equalVerify, Opcode.checkSig]

/-! ## Payment to the hash of a script -/

/-- The hash functions by which a script can be named. -/
inductive ScriptHashKind where
  | hash160
  | hash256
deriving DecidableEq

/-- Whoever can satisfy the script with this hash, of 20 bytes, can spend. -/
def payToScriptHash (redeemScript : Bytes) : Bytes :=
  Opcode.hash160 :: pushData (Digest.hash160 redeemScript) ++ [Opcode.equal]

/-- Whoever can satisfy the script with this hash, of 32 bytes, can spend. -/
def payToScriptHash32 (redeemScript : Bytes) : Bytes :=
  Opcode.hash256 :: pushData (Digest.doubleSha256 redeemScript).bytes ++ [Opcode.equal]

/-- Does a locking script name another script by its hash, and how? The long form counts only where
the flags allow for it. -/
def scriptHashKind? (script : Bytes) (flags : ScriptFlags) : Option ScriptHashKind :=
  if script.length == 23 && script.take 2 == [Opcode.hash160, 20] &&
      script.drop 22 == [Opcode.equal] then
    some .hash160
  else if flags.contains .enableP2sh32 && script.length == 35 &&
      script.take 2 == [Opcode.hash256, 32] && script.drop 34 == [Opcode.equal] then
    some .hash256
  else none

def isPayToScriptHash (script : Bytes) (flags : ScriptFlags) : Bool :=
  (scriptHashKind? script flags).isSome

/-! ## Witness programs -/

/-- A number below 17 and one push of 2 to 40 bytes: on another chain this is a program that is
satisfied outside of scripts. -/
def isWitnessProgram : Bytes → Bool
  | version :: size :: program =>
    decide (2 ≤ program.length) && decide (program.length ≤ 40) &&
      (version == 0 || Opcode.isPositiveNumber version) && size.toNat == program.length
  | _ => false

end UtxoConsensus.Script
