import UtxoConsensus.Digest.Padding

/-!
# SHA-256

Eight words of state, sixty-four rounds a block. The result is a `Hash256`, so that its length is
part of its type.
-/

namespace UtxoConsensus.Digest

namespace Sha256

/-- The eight words that one block updates. -/
structure State where
  a : UInt32
  b : UInt32
  c : UInt32
  d : UInt32
  e : UInt32
  f : UInt32
  g : UInt32
  h : UInt32

/-- The fractional parts of the square roots of the first eight primes. -/
def initial : State :=
  ⟨0x6a09e667, 0xbb67ae85, 0x3c6ef372, 0xa54ff53a,
   0x510e527f, 0x9b05688c, 0x1f83d9ab, 0x5be0cd19⟩

/-- The fractional parts of the cube roots of the first sixty-four primes. -/
def roundConstants : List UInt32 :=
  [
    0x428a2f98, 0x71374491, 0xb5c0fbcf, 0xe9b5dba5, 0x3956c25b, 0x59f111f1,
    0x923f82a4, 0xab1c5ed5, 0xd807aa98, 0x12835b01, 0x243185be, 0x550c7dc3,
    0x72be5d74, 0x80deb1fe, 0x9bdc06a7, 0xc19bf174, 0xe49b69c1, 0xefbe4786,
    0x0fc19dc6, 0x240ca1cc, 0x2de92c6f, 0x4a7484aa, 0x5cb0a9dc, 0x76f988da,
    0x983e5152, 0xa831c66d, 0xb00327c8, 0xbf597fc7, 0xc6e00bf3, 0xd5a79147,
    0x06ca6351, 0x14292967, 0x27b70a85, 0x2e1b2138, 0x4d2c6dfc, 0x53380d13,
    0x650a7354, 0x766a0abb, 0x81c2c92e, 0x92722c85, 0xa2bfe8a1, 0xa81a664b,
    0xc24b8b70, 0xc76c51a3, 0xd192e819, 0xd6990624, 0xf40e3585, 0x106aa070,
    0x19a4c116, 0x1e376c08, 0x2748774c, 0x34b0bcb5, 0x391c0cb3, 0x4ed8aa4a,
    0x5b9cca4f, 0x682e6ff3, 0x748f82ee, 0x78a5636f, 0x84c87814, 0x8cc70208,
    0x90befffa, 0xa4506ceb, 0xbef9a3f7, 0xc67178f2]

/-- The next word of the schedule, from the words 16, 15, 7 and 2 places before it. -/
@[inline]
def nextWord (w16 w15 w7 w2 : UInt32) : UInt32 :=
  let s0 := rotateRight w15 7 ^^^ rotateRight w15 18 ^^^ w15 >>> 3
  let s1 := rotateRight w2 17 ^^^ rotateRight w2 19 ^^^ w2 >>> 10
  w16 + s0 + w7 + s1

/-- The sixty-four words that the rounds of one block use. They are made with the newest one in front. -/
def schedule (block : Bytes) : List UInt32 :=
  ((List.range 48).foldl
    (fun newest _ ↦
      nextWord (newest.getD 15 0) (newest.getD 14 0) (newest.getD 6 0) (newest.getD 1 0) :: newest)
    (wordsBig block).reverse).reverse

@[inline]
def round (s : State) (k w : UInt32) : State :=
  let s1 := rotateRight s.e 6 ^^^ rotateRight s.e 11 ^^^ rotateRight s.e 25
  let choice := (s.e &&& s.f) ^^^ (~~~s.e &&& s.g)
  let t1 := s.h + s1 + choice + k + w
  let s0 := rotateRight s.a 2 ^^^ rotateRight s.a 13 ^^^ rotateRight s.a 22
  let majority := (s.a &&& s.b) ^^^ (s.a &&& s.c) ^^^ (s.b &&& s.c)
  ⟨t1 + (s0 + majority), s.a, s.b, s.c, s.d + t1, s.e, s.f, s.g⟩

def rounds : (constants words : List UInt32) → State → State
  | k :: constants, w :: words, s => rounds constants words (round s k w)
  | _, _, s => s

def State.add (s t : State) : State :=
  ⟨s.a + t.a, s.b + t.b, s.c + t.c, s.d + t.d, s.e + t.e, s.f + t.f, s.g + t.g, s.h + t.h⟩

/-- Takes one 64-byte block into the state. -/
def compress (s : State) (block : Bytes) : State :=
  s.add (rounds roundConstants (schedule block) s)

def State.bytes (s : State) : Bytes :=
  wordBytesBig s.a ++ wordBytesBig s.b ++ wordBytesBig s.c ++ wordBytesBig s.d ++
    wordBytesBig s.e ++ wordBytesBig s.f ++ wordBytesBig s.g ++ wordBytesBig s.h

theorem State.length_bytes (s : State) : s.bytes.length = 32 := rfl

end Sha256

def sha256 (message : Bytes) : Hash256 :=
  let final := (blocksBig message).foldl Sha256.compress Sha256.initial
  ⟨final.bytes, final.length_bytes⟩

/-- SHA-256 applied twice, the hash that identifies transactions and blocks. -/
def doubleSha256 (message : Bytes) : Hash256 :=
  sha256 (sha256 message).bytes

/-! ## Keyed hashing -/

/-- HMAC with SHA-256, for keys of at most one block. -/
def hmacSha256 (key message : Bytes) : Hash256 :=
  let block := key ++ List.replicate (64 - key.length) 0
  let inner := sha256 (block.map (· ^^^ 0x36) ++ message)
  sha256 (block.map (· ^^^ 0x5c) ++ inner.bytes)

end UtxoConsensus.Digest
