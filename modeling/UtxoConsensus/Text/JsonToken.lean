import UtxoConsensus.Text.Digits

/-!
# Tokens of JSON text

Text is cut into the smallest parts that mean something. Strings keep their escapes apart from their
plain characters, because not every sequence of escapes denotes characters: half of a surrogate pair
does not. Numbers are told apart only where they are written as natural numbers.
-/

namespace UtxoConsensus.Text

/-- A part of a string: a character, or a number of 16 bits given by an escape. -/
inductive JsonStringPart where
  | char (c : Char)
  | unit (n : Nat)
deriving DecidableEq

inductive JsonToken where
  | null
  | bool (b : Bool)
  /-- A number without sign, point or exponent. -/
  | natural (n : Nat)
  | otherNumber
  | string (parts : List JsonStringPart)
  | openArray
  | closeArray
  | openObject
  | closeObject
  | comma
  | colon
deriving DecidableEq

namespace JsonToken

/-- The four characters that may stand between tokens. -/
def isSpace (c : Char) : Bool :=
  c == ' ' || c == '\t' || c == '\n' || c == '\r'

/-! ## Numbers -/

/-- The digits in front, of which there must be one, and the rest. -/
def digits? (cs : List Char) : Option (List Char × List Char) :=
  let ds := cs.takeWhile isDigit
  if ds.isEmpty then none else some (ds, cs.dropWhile isDigit)

/-- The digits before a point; a zero stands alone. -/
def whole? : List Char → Option (List Char × List Char)
  | '0' :: rest => some (['0'], rest)
  | cs => digits? cs

/-- Skips a point with its digits, if there is one; the flag says whether. -/
def fraction? : List Char → Option (Bool × List Char)
  | '.' :: rest => (digits? rest).map (true, ·.2)
  | cs => some (false, cs)

/-- Skips an exponent, if there is one; the flag says whether. -/
def exponent? : List Char → Option (Bool × List Char)
  | e :: rest =>
    if e == 'e' || e == 'E' then
      let unsigned := match rest with
        | '+' :: r => r
        | '-' :: r => r
        | r => r
      (digits? unsigned).map (true, ·.2)
    else some (false, e :: rest)
  | [] => some (false, [])

/-- A number without its sign. -/
def number? (cs : List Char) : Option (JsonToken × List Char) := do
  let (whole, rest) ← whole? cs
  let (hasFraction, rest) ← fraction? rest
  let (hasExponent, rest) ← exponent? rest
  if hasFraction || hasExponent then return (otherNumber, rest)
  else return (natural (digitsValue whole), rest)

/-! ## Strings -/

/-- The character that a letter after a backslash stands for. -/
def escaped? : Char → Option Char
  | '"' => some '"'
  | '\\' => some '\\'
  | '/' => some '/'
  | 'b' => some '\x08'
  | 'f' => some '\x0c'
  | 'n' => some '\n'
  | 'r' => some '\r'
  | 't' => some '\t'
  | _ => none

def hexDigit? (c : Char) : Option Nat :=
  if decide ('0' ≤ c) && decide (c ≤ '9') then some (c.toNat - 48)
  else if decide ('a' ≤ c) && decide (c ≤ 'f') then some (c.toNat - 87)
  else if decide ('A' ≤ c) && decide (c ≤ 'F') then some (c.toNat - 55)
  else none

/-- The number that four hexadecimal digits denote. -/
def unit? (a b c d : Char) : Option Nat := do
  return (((← hexDigit? a) * 16 + (← hexDigit? b)) * 16 + (← hexDigit? c)) * 16 + (← hexDigit? d)

/-- The rest of a string, to the closing quote, and what follows. -/
def stringBody? : List Char → Option (List JsonStringPart × List Char)
  | '"' :: rest => some ([], rest)
  | '\\' :: 'u' :: a :: b :: c :: d :: rest => do
    let n ← unit? a b c d
    let (parts, rest) ← stringBody? rest
    return (.unit n :: parts, rest)
  | '\\' :: e :: rest => do
    let c ← escaped? e
    let (parts, rest) ← stringBody? rest
    return (.char c :: parts, rest)
  | c :: rest =>
    if c.toNat < 32 then none
    else do
      let (parts, rest) ← stringBody? rest
      return (.char c :: parts, rest)
  | [] => none

/-- The characters of a string. Two halves of a surrogate pair make one character; a half alone
makes none. -/
def characters? : List JsonStringPart → Option (List Char)
  | [] => some []
  | .char c :: rest => (characters? rest).map (c :: ·)
  | .unit n :: rest =>
    if n < 0xd800 || 0xe000 ≤ n then (characters? rest).map (Char.ofNat n :: ·)
    else
      match rest with
      | .unit m :: rest =>
        if n < 0xdc00 && 0xdc00 ≤ m && m < 0xe000 then
          let c := Char.ofNat (0x10000 + (n - 0xd800) * 0x400 + (m - 0xdc00))
          (characters? rest).map (c :: ·)
        else none
      | _ => none

/-! ## All tokens of a text -/

/-- The token at the front of a text, and the rest. -/
def next? : List Char → Option (JsonToken × List Char)
  | '[' :: rest => some (openArray, rest)
  | ']' :: rest => some (closeArray, rest)
  | '\x7b' :: rest => some (openObject, rest)
  | '\x7d' :: rest => some (closeObject, rest)
  | ',' :: rest => some (comma, rest)
  | ':' :: rest => some (colon, rest)
  | '"' :: rest => (stringBody? rest).map fun (parts, rest) ↦ (string parts, rest)
  | 'n' :: 'u' :: 'l' :: 'l' :: rest => some (null, rest)
  | 't' :: 'r' :: 'u' :: 'e' :: rest => some (bool true, rest)
  | 'f' :: 'a' :: 'l' :: 's' :: 'e' :: rest => some (bool false, rest)
  | '-' :: rest => (number? rest).map (otherNumber, ·.2)
  | cs => number? cs

/-- All tokens of a text. Each has a character at least, so that the rest is always shorter. -/
def ofChars? (cs : List Char) : Option (List JsonToken) :=
  match cs with
  | [] => some []
  | c :: rest =>
    if isSpace c then ofChars? rest
    else
      match next? (c :: rest) with
      | none => none
      | some (token, unread) =>
        if _h : unread.length < (c :: rest).length then (ofChars? unread).map (token :: ·) else none
termination_by cs.length
decreasing_by
  · exact Nat.lt_succ_self _
  · exact _h

end JsonToken

end UtxoConsensus.Text
