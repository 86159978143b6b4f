import UtxoConsensus.Digest.Padding

/-!
# SHA-1

Kept because scripts have an opcode for it.
-/

namespace UtxoConsensus.Digest

namespace Sha1

structure State where
  a : UInt32
  b : UInt32
  c : UInt32
  d : UInt32
  e : UInt32

def initial : State :=
  ⟨0x67452301, 0xefcdab89, 0x98badcfe, 0x10325476, 0xc3d2e1f0⟩

/-- The eighty words that the rounds of one block use. They are made with the newest one in front. -/
def schedule (block : Bytes) : List UInt32 :=
  ((List.range 64).foldl
    (fun newest _ ↦
      rotateLeft (newest.getD 2 0 ^^^ newest.getD 7 0 ^^^ newest.getD 13 0 ^^^ newest.getD 15 0) 1 ::
        newest)
    (wordsBig block).reverse).reverse

/-- The bitwise function and the constant of round `t`. -/
def mix (t : Nat) (b c d : UInt32) : UInt32 :=
  if t < 20 then ((b &&& c) ||| (~~~b &&& d)) + 0x5a827999
  else if t < 40 then (b ^^^ c ^^^ d) + 0x6ed9eba1
  else if t < 60 then ((b &&& c) ||| (b &&& d) ||| (c &&& d)) + 0x8f1bbcdc
  else (b ^^^ c ^^^ d) + 0xca62c1d6

def round (s : State) (wordAndTime : UInt32 × Nat) : State :=
  let sum := rotateLeft s.a 5 + mix wordAndTime.2 s.b s.c s.d + s.e + wordAndTime.1
  ⟨sum, s.a, rotateLeft s.b 30, s.c, s.d⟩

def compress (s : State) (block : Bytes) : State :=
  let t := ((schedule block).zip (List.range 80)).foldl round s
  ⟨s.a + t.a, s.b + t.b, s.c + t.c, s.d + t.d, s.e + t.e⟩

def State.bytes (s : State) : Bytes :=
  wordBytesBig s.a ++ wordBytesBig s.b ++ wordBytesBig s.c ++ wordBytesBig s.d ++ wordBytesBig s.e

end Sha1

def sha1 (message : Bytes) : Bytes :=
  ((blocksBig message).foldl Sha1.compress Sha1.initial).bytes

@[simp] theorem length_sha1 (message : Bytes) : (sha1 message).length = 20 := rfl

end UtxoConsensus.Digest
