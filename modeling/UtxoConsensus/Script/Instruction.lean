import UtxoConsensus.Bytes.Basic
import UtxoConsensus.Script.Number
import UtxoConsensus.Script.Opcode

/-!
# Instructions

A script is a byte string, which is cut into instructions from the front. Reading stops for good at
a push whose data is not all there: what is left from there on is the script's undecodable tail.
-/

namespace UtxoConsensus

/-- One instruction of a script, and the script after it. -/
structure Instruction where
  opcode : UInt8
  /-- The explicit length of the data, for the opcodes that are followed by one. -/
  lengthField : Bytes
  /-- The data that is pushed. -/
  data : Bytes
  rest : Bytes
deriving DecidableEq

namespace Instruction

/-- The bytes of the instruction itself. -/
def bytes (i : Instruction) : Bytes :=
  i.opcode :: (i.lengthField ++ i.data)

/-- How many bytes after a push opcode hold the length of the data. -/
def lengthFieldSize (opcode : UInt8) : Nat :=
  if opcode = Opcode.pushData1 then 1
  else if opcode = Opcode.pushData2 then 2
  else if opcode = Opcode.pushData4 then 4
  else 0

/-- The number of bytes that a push opcode pushes, given the length field after it. -/
def pushSize (opcode : UInt8) (lengthField : Bytes) : Nat :=
  if lengthFieldSize opcode = 0 then opcode.toNat else Bytes.toNat lengthField

/-- A push: the length, then as many bytes of data. -/
def readPush? (opcode : UInt8) (after : Bytes) : Option Instruction :=
  let field := after.take (lengthFieldSize opcode)
  let size := pushSize opcode field
  let body := after.drop (lengthFieldSize opcode)
  let data := body.take size
  if field.length < lengthFieldSize opcode || data.length < size then none
  else some ⟨opcode, field, data, body.drop size⟩

/-- The first instruction of a script; there is none in an empty script, nor where data is
missing. -/
def first? : (script : Bytes) → Option Instruction
  | [] => none
  | opcode :: after =>
    if opcode ≤ Opcode.pushData4 then readPush? opcode after
    else some ⟨opcode, [], [], after⟩

theorem length_rest_le_of_readPush? {opcode : UInt8} {after : Bytes} {i : Instruction}
    (h : readPush? opcode after = some i) : i.rest.length ≤ after.length := by
  simp only [readPush?] at h
  split at h
  · exact absurd h (by simp)
  · rw [← Option.some.inj h]
    simp only [List.length_drop]
    omega

theorem length_rest_lt {script : Bytes} {i : Instruction} (h : first? script = some i) :
    i.rest.length < script.length := by
  match script with
  | opcode :: after =>
    simp only [first?] at h
    split at h
    · exact Nat.lt_succ_of_le (length_rest_le_of_readPush? h)
    · rw [← Option.some.inj h]
      exact Nat.lt_succ_self _

end Instruction

/-- A script cut into instructions. -/
structure Parsed where
  instructions : List Instruction
  /-- What is left where no instruction can be read. -/
  tail : Bytes

namespace Script

def parse (script : Bytes) : Parsed :=
  match _h : Instruction.first? script with
  | none => ⟨[], script⟩
  | some i =>
    let r := parse i.rest
    ⟨i :: r.instructions, r.tail⟩
termination_by script.length
decreasing_by exact Instruction.length_rest_lt _h

/-! ## Pushes -/

/-- Was the data pushed in the shortest way? -/
def isMinimalPush (data : Bytes) (opcode : UInt8) : Bool :=
  match data with
  | [] => opcode == 0
  | [b] => !(decide (1 ≤ b) && decide (b ≤ 16)) && b != 0x81 && opcode == 1
  | _ =>
    if data.length ≤ 75 then opcode.toNat == data.length
    else if data.length ≤ 255 then opcode == Opcode.pushData1
    else if data.length ≤ 65535 then opcode == Opcode.pushData2
    else true

/-- Does a script only push? The opcodes up to the one for 16 count as pushes. -/
def isPushOnly (script : Bytes) : Bool :=
  let parsed := parse script
  parsed.tail.isEmpty && parsed.instructions.all fun i ↦ decide (i.opcode ≤ Opcode.sixteen)

/-- A push of data with the shortest opcode that names its length. -/
def pushData (data : Bytes) : Bytes :=
  if data.length < 0x4c then UInt8.ofNat data.length :: data
  else if data.length ≤ 0xff then
    Opcode.pushData1 :: UInt8.ofNat data.length :: data
  else if data.length ≤ 0xffff then
    Opcode.pushData2 :: (Bytes.ofNat 2 data.length ++ data)
  else Opcode.pushData4 :: (Bytes.ofNat 4 data.length ++ data)

/-- A push of a number, by an opcode of its own if there is one. -/
def pushInt (n : Int) : Bytes :=
  if n = -1 then [Opcode.negativeOne]
  else if 0 ≤ n ∧ n ≤ 16 then [Opcode.ofSmallNumber (UInt8.ofNat n.toNat)]
  else pushData (ScriptNumber.encode n)

/-- One step in the making of a script. -/
inductive Piece where
  | opcode (byte : UInt8)
  | int (n : Int)
  | data (bytes : Bytes)
deriving DecidableEq

def Piece.bytes : Piece → Bytes
  | .opcode byte => [byte]
  | .int n => pushInt n
  | .data bytes => pushData bytes

def build (pieces : List Piece) : Bytes :=
  pieces.flatMap Piece.bytes

/-! ## Counting signature checks -/

def maxMultisigKeys : Nat := 20

/-- How many signature checks an instruction stands for, given the opcode before it. A
multisignature counts as its number of keys where that is known, else as the largest number. -/
def sigOpsOf (accurate : Bool) (previous opcode : UInt8) : Nat :=
  match Operation.ofOpcode opcode with
  | .checkSig _ | .checkDataSig _ => 1
  | .checkMultisig _ =>
    if accurate && Opcode.isPositiveNumber previous then (Opcode.smallNumber previous).toNat
    else maxMultisigKeys
  | _ => 0

/-- The number of signature checks of a list of opcodes, after a previous one. -/
def countSigOps (accurate : Bool) : (previous : UInt8) → List UInt8 → Nat
  | _, [] => 0
  | previous, opcode :: rest => sigOpsOf accurate previous opcode + countSigOps accurate opcode rest

/-- An upper bound on the signature checks of a script, found without running it. -/
def sigOpCount (script : Bytes) (accurate : Bool) : Nat :=
  countSigOps accurate 0xff ((parse script).instructions.map Instruction.opcode)

/-! ## Removing parts of a script -/

/-- Drops copies of a pattern from the front; returns how many there were. -/
def stripCopies (pattern script : Bytes) : Nat × Bytes :=
  if _h : pattern = [] ∨ script.take pattern.length ≠ pattern then (0, script)
  else
    let r := stripCopies pattern (script.drop pattern.length)
    (r.1 + 1, r.2)
termination_by script.length
decreasing_by
  have hpattern : 0 < pattern.length := List.length_pos_iff.2 (fun h ↦ _h (.inl h))
  have htake : (script.take pattern.length).length = pattern.length := by
    rw [Classical.byContradiction fun h ↦ _h (.inr h)]
  rw [List.length_take] at htake
  rw [List.length_drop]
  omega

theorem length_stripCopies_le (pattern script : Bytes) :
    (stripCopies pattern script).2.length ≤ script.length := by
  fun_induction stripCopies pattern script with
  | case1 => exact Nat.le_refl _
  | case2 script _ r ih =>
    have hdrop : (script.drop pattern.length).length ≤ script.length := by
      rw [List.length_drop]; omega
    exact Nat.le_trans ih hdrop

/-- Removes a pattern wherever it begins at an instruction, also where a removal has just made it
begin there. Returns the number of copies removed and the script that is left. -/
def findAndDelete (pattern script : Bytes) : Nat × Bytes :=
  let stripped := stripCopies pattern script
  match _h : Instruction.first? stripped.2 with
  | none => stripped
  | some i =>
    let r := findAndDelete pattern i.rest
    (stripped.1 + r.1, i.bytes ++ r.2)
termination_by script.length
decreasing_by
  exact Nat.lt_of_lt_of_le (Instruction.length_rest_lt _h) (length_stripCopies_le pattern script)

/-- Leaves out the instructions that separate parts of the code. -/
def withoutCodeSeparators (script : Bytes) : Bytes :=
  let parsed := parse script
  (parsed.instructions.filter (·.opcode != Opcode.codeSeparator)).flatMap Instruction.bytes ++
    parsed.tail

end Script

end UtxoConsensus
