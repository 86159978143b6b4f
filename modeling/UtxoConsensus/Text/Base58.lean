import UtxoConsensus.Digest.Sha256
import UtxoConsensus.Text.Blank

/-!
# Base58 text

A byte string is read as a big-endian number and written in base 58 with an alphabet that leaves
out the letters and digits that are easily confused. Zero bytes in front, which the number does not
show, become as many `1`s. The checked form appends four bytes of a hash before it is written.

Both directions convert digit by digit: the number so far is held as a list of digits, least
significant first, and every new digit multiplies it by the old base and is added.
-/

namespace UtxoConsensus.Text

inductive Base58Error where
  | tooLong
  | invalidCharacter
  | missingChecksum
  | checksumMismatch
deriving DecidableEq

def Base58Error.message : Base58Error → String
  | .tooLong => "too long"
  | .invalidCharacter => "invalid character"
  | .missingChecksum => "missing checksum"
  | .checksumMismatch => "checksum mismatch"

namespace Base58

/-- All letters and digits of ASCII except `0`, `I`, `O` and `l`. -/
def alphabet : List Char :=
  "123456789ABCDEFGHJKLMNPQRSTUVWXYZabcdefghijkmnopqrstuvwxyz".toList

def digitChar (d : Nat) : Char :=
  alphabet.getD d '1'

def digitValue? (c : Char) : Option Nat :=
  alphabet.idxOf? c

/-! ## Change of base -/

/-- The digits of a number, least significant first; none for zero. -/
def lowDigits (base n : Nat) : List Nat :=
  if _h : n = 0 ∨ base < 2 then []
  else n % base :: lowDigits base (n / base)
termination_by n
decreasing_by exact Nat.div_lt_self (by omega) (by omega)

/-- Multiplies the number with the given digits by `factor` and adds `carry`. -/
def mulAdd (base factor : Nat) : (digits : List Nat) → (carry : Nat) → List Nat
  | [], carry => lowDigits base carry
  | d :: rest, carry =>
    let v := factor * d + carry
    v % base :: mulAdd base factor rest (v / base)

/-! ## Writing -/

def encodeChars (data : Bytes) : List Char :=
  let zeros := data.takeWhile (· == 0)
  let rest := data.dropWhile (· == 0)
  let digits := rest.foldl (fun digits b ↦ mulAdd 58 256 digits b.toNat) []
  zeros.map (fun _ ↦ '1') ++ digits.reverse.map digitChar

def encode (data : Bytes) : String :=
  String.ofList (encodeChars data)

/-- The bytes that are appended to guard against typing errors. -/
def checksum (payload : Bytes) : Bytes :=
  (Digest.doubleSha256 payload).bytes.take 4

def encodeChecked (payload : Bytes) : String :=
  encode (payload ++ checksum payload)

/-! ## Reading -/

/-- Takes in the characters after the leading `1`s; stops at the first character that is not in the
alphabet and as soon as more than `room` bytes are needed. -/
def decodeDigits (room : Nat) : (digits : List Nat) → List Char → Except Base58Error (List Nat)
  | digits, [] => .ok digits
  | digits, c :: rest =>
    match digitValue? c with
    | none => .error .invalidCharacter
    | some v =>
      let next := mulAdd 256 58 digits v
      if next.length > room then .error .tooLong else decodeDigits room next rest

def decodeChars (maxLength : Nat) (text : List Char) : Except Base58Error Bytes := do
  let trimmed := trim isAsciiBlank text
  let zeros := trimmed.takeWhile (· == '1')
  let rest := trimmed.dropWhile (· == '1')
  if zeros.length > maxLength then throw .tooLong
  let digits ← decodeDigits (maxLength - zeros.length) [] rest
  return zeros.map (fun _ ↦ 0) ++ digits.reverse.map UInt8.ofNat

/-- The bytes that a text stands for, at most `maxLength` of them. -/
def decode (text : String) (maxLength : Nat) : Except Base58Error Bytes :=
  decodeChars maxLength text.toList

/-- The payload of a text that ends in the right checksum. -/
def decodeChecked (text : String) (maxLength : Nat) : Except Base58Error Bytes := do
  let data ← decode text (maxLength + 4)
  if data.length < 4 then throw .missingChecksum
  let payload := data.take (data.length - 4)
  if checksum payload != data.drop (data.length - 4) then throw .checksumMismatch
  return payload

end Base58

end UtxoConsensus.Text
