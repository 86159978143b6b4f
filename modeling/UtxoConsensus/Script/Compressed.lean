import UtxoConsensus.Curve.PublicKey
import UtxoConsensus.Money.Compact
import UtxoConsensus.Script.Template
import UtxoConsensus.Transaction.Token
import UtxoConsensus.Wire.VarInt

/-!
# Compressed outputs

In storage the commonest scripts are replaced by a number below six and the bytes that vary. All
other scripts follow their length, to which six is added so that the two cannot be confused.
-/

namespace UtxoConsensus

structure NegativeValue where
  value : Amount

namespace Script

/-- The largest script that is run, and the largest that is kept in storage. -/
def maxSize : Nat := 10000

/-- How many numbers stand for templates. -/
def specialScripts : Nat := 6

/-! ## Templates -/

/-- The short form of a script that matches a template: the number of the template and the bytes
that vary. A full public key is shortened to its x coordinate if it is a point of the curve, since
its y coordinate could not be recovered otherwise. -/
def compress? (script : Bytes) : Option Bytes :=
  if isPayToKeyHash script then some (0x00 :: (script.drop 3).take 20)
  else if isPayToScriptHash script .none then some (0x01 :: (script.drop 2).take 20)
  else
    match script with
    | 33 :: parity :: body =>
      if body.length = 33 ∧ body.drop 32 = [Opcode.checkSig] ∧ (parity = 0x02 ∨ parity = 0x03) then
        some (parity :: body.take 32)
      else none
    | 65 :: 0x04 :: body =>
      let last := (body.drop 63).headD 0
      if body.length = 65 ∧ body.drop 64 = [Opcode.checkSig] ∧
          Curve.isValidKey (0x04 :: body.take 64) then
        some ((0x04 ||| (last &&& 1)) :: body.take 32)
      else none
    | _ => none

/-- The number of bytes that vary in a template; zero where there is no template. -/
def specialSize (id : Nat) : Nat :=
  if id ≤ 1 then 20 else if id ≤ 5 then 32 else 0

/-- The script of a template; there is none if the bytes that vary are too few or too many, or name
no point of the curve. -/
def decompress? (id : Nat) (payload : Bytes) : Option Bytes :=
  if specialSize id = 0 ∨ payload.length ≠ specialSize id then none
  else
    match id with
    | 0 => some ([Opcode.dup, Opcode.hash160, 20] ++ payload ++
        [Opcode.equalVerify, Opcode.checkSig])
    | 1 => some ([Opcode.hash160, 20] ++ payload ++ [Opcode.equal])
    | 2 => some ([33, 0x02] ++ payload ++ [Opcode.checkSig])
    | 3 => some ([33, 0x03] ++ payload ++ [Opcode.checkSig])
    | id => do
      let key ← Curve.Point.parse? (UInt8.ofNat (id - 2) :: payload)
      return 65 :: key.uncompressed ++ [Opcode.checkSig]

/-! ## Scripts in storage -/

/-- The stored form of any script. -/
def encodeCompressed (script : Bytes) : Bytes :=
  match compress? script with
  | some short => short
  | none => VarInt.encode (script.length + specialScripts) ++ script

/-- Reads the stored form. Scripts too long to be run come back as one that always fails. -/
def decodeCompressed : Decoder Bytes := do
  let size ← VarInt.decode
  if size < specialScripts then
    let payload ← Decoder.bytes (specialSize size)
    match decompress? size payload with
    | some script => return script
    | none => throw (.specialScript size)
  else
    let script ← Decoder.bytes (size - specialScripts)
    return if size - specialScripts > maxSize then [Opcode.ret] else script

end Script

namespace TxOutput

/-- The stored form of an output. Negative values have none. -/
def encodeCompressed (output : TxOutput) : Except NegativeValue Bytes :=
  match output.value.compress with
  | some code => .ok (VarInt.encode code.toNat ++ Script.encodeCompressed output.wrappedScript)
  | none => .error ⟨output.value⟩

/-- Reads the stored form of an output. -/
def decodeCompressed : Decoder TxOutput := do
  let code ← VarInt.decode
  let wrapped ← Script.decodeCompressed
  return ofWrapped (Amount.decompress (UInt64.ofNat code)) wrapped

end TxOutput

end UtxoConsensus
