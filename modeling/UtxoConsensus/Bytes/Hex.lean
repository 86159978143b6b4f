import UtxoConsensus.Bytes.Basic

/-!
# Hexadecimal text

Two lower-case digits a byte. Block and transaction hashes are shown to people with their bytes
reversed.
-/

namespace UtxoConsensus

namespace Bytes

def hexDigit (n : Nat) : Char :=
  if n < 10 then Char.ofNat (48 + n) else Char.ofNat (87 + n)

def hexValue? (c : Char) : Option Nat :=
  if '0' ≤ c ∧ c ≤ '9' then some (c.toNat - 48)
  else if 'a' ≤ c ∧ c ≤ 'f' then some (c.toNat - 87)
  else if 'A' ≤ c ∧ c ≤ 'F' then some (c.toNat - 55)
  else none

def hexChars : Bytes → List Char
  | [] => []
  | b :: rest => hexDigit (b.toNat / 16) :: hexDigit (b.toNat % 16) :: hexChars rest

def toHex (b : Bytes) : String :=
  String.ofList (hexChars b)

def ofHexChars? : List Char → Option Bytes
  | [] => some []
  | [_] => none
  | high :: low :: rest => do
    let h ← hexValue? high
    let l ← hexValue? low
    let b ← ofHexChars? rest
    return UInt8.ofNat (16 * h + l) :: b

/-- Reads what `toHex` writes; digits may be upper case. -/
def ofHex? (text : String) : Option Bytes :=
  ofHexChars? text.toList

end Bytes

/-- The text shown for a hash: its bytes in reverse order. -/
def Hash256.display (h : Hash256) : String :=
  Bytes.toHex h.bytes.reverse

end UtxoConsensus
