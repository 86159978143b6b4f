import UtxoConsensus.Bytes.Basic
import UtxoConsensus.Script.Error

/-!
# Script numbers

Stack elements are numbers to the arithmetic opcodes: a magnitude with its least significant byte
first, and a sign in the top bit of the last byte. Every number has many encodings, of which the
shortest is the minimal one. Arithmetic keeps to the numbers whose minimal encoding has at most
eight bytes.
-/

namespace UtxoConsensus.ScriptNumber

/-! ## Encodings -/

/-- The bytes of a magnitude without zeros at the end, least significant first. -/
def magnitudeBytes (n : Nat) : Bytes :=
  if _h : n = 0 then [] else UInt8.ofNat (n % 256) :: magnitudeBytes (n / 256)
termination_by n
decreasing_by exact Nat.div_lt_self (Nat.pos_of_ne_zero _h) (by omega)

/-- Marks a magnitude as negative in the top bit of its last byte. A byte is appended where that
bit belongs to the magnitude. -/
def addSign (negative : Bool) : Bytes → Bytes
  | [] => []
  | [b] =>
    if b &&& 0x80 != 0 then [b, if negative then 0x80 else 0]
    else [if negative then b ||| 0x80 else b]
  | b :: rest => b :: addSign negative rest

/-- The minimal encoding. -/
def encode (n : Int) : Bytes :=
  addSign (decide (n < 0)) (magnitudeBytes n.natAbs)

/-- The magnitude that bytes denote once the sign bit is taken from the last one, and the sign. -/
def splitSign : Bytes → Bytes × Bool
  | [] => ([], false)
  | [b] => ([b &&& 0x7f], b &&& 0x80 != 0)
  | b :: rest =>
    let r := splitSign rest
    (b :: r.1, r.2)

def value (b : Bytes) : Int :=
  let (magnitude, negative) := splitSign b
  if negative then -(Bytes.toNat magnitude : Int) else Bytes.toNat magnitude

/-- Is the last byte of `b` needed, given the bytes in reverse? It is if it holds more than a sign,
or if the byte before it could not hold the sign. -/
def lastByteNeeded : (reversed : Bytes) → Bool
  | [] => true
  | [last] => last &&& 0x7f != 0
  | last :: before :: _ => last &&& 0x7f != 0 || before &&& 0x80 != 0

/-- Is the encoding the minimal one, and within the limit on its size? -/
def isMinimal (b : Bytes) (maxSize : Nat) : Bool :=
  decide (b.length ≤ maxSize) && lastByteNeeded b.reverse

/-- Puts the sign `last` behind a magnitude that is given in reverse and may end in zeros. -/
def replaceSign (last : UInt8) (reversed : Bytes) : Bytes :=
  match reversed.dropWhile (· == 0) with
  | [] => []
  | b :: before =>
    (if b &&& 0x80 != 0 then last :: b :: before else (b ||| last) :: before).reverse

/-- The minimal encoding of the same number, where it differs. -/
def shorten? (b : Bytes) : Option Bytes :=
  if lastByteNeeded b.reverse then none
  else match b.reverse with
    | [] => none
    | last :: before => some (replaceSign last before)

/-- The minimal encoding of the number that bytes of any length denote. -/
def minimize (b : Bytes) : Bytes :=
  (shorten? b).getD b

/-- Is the number that bytes denote other than zero? A lone sign is a zero as well. -/
def toBool : Bytes → Bool
  | [] => false
  | [b] => b != 0 && b != 0x80
  | b :: rest => b != 0 || toBool rest

/-! ## Numbers as operands -/

/-- The error for operands and results that are too large. -/
def rangeError (wide : Bool) : ScriptError :=
  if wide then .invalidNumberRange64Bit else .invalidNumberRange

/-- Reads an operand of at most `maxSize` bytes. `wide` chooses the error for longer ones. -/
def decode (b : Bytes) (requireMinimal : Bool) (maxSize : Nat) (wide : Bool) :
    Except ScriptError Int :=
  if b.length > maxSize then .error (rangeError wide)
  else if requireMinimal && !isMinimal b maxSize then .error .minimalNum
  else .ok (value b)

/-- A result that a word of 64 bits can hold. -/
def inWord? (n : Int) : Option Int :=
  if Int64.minValue.toInt ≤ n ∧ n ≤ Int64.maxValue.toInt then some n else none

/-- A result of checked arithmetic. The least number of 64 bits is none, as its encoding has nine bytes. -/
def inRange? (n : Int) : Option Int :=
  (inWord? n).filter (· != Int64.minValue.toInt)

def checkedAdd (a b : Int) : Option Int := inRange? (a + b)
def checkedSub (a b : Int) : Option Int := inRange? (a - b)
def checkedMul (a b : Int) : Option Int := inRange? (a * b)

def clamp32 (n : Int) : Int :=
  max Int32.minValue.toInt (min Int32.maxValue.toInt n)

/-! ## Limits -/

/-- The size of operands before numbers became 64 bits wide. -/
def maxSize32 : Nat := 4

/-- The size of operands with 64-bit numbers. -/
def maxSize64 : Nat := 8

/-- The size of lock times, which exceed 32 bits. -/
def maxLockTimeSize : Nat := 5

end UtxoConsensus.ScriptNumber
