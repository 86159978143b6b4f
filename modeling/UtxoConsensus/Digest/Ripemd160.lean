import UtxoConsensus.Digest.Padding

/-!
# RIPEMD-160

Two lines of eighty steps read the same block in different orders, and their results are added
crosswise to the five words of state.
-/

namespace UtxoConsensus.Digest

namespace Ripemd160

/-- The five words that one block updates, and that each line works on. -/
structure State where
  a : UInt32
  b : UInt32
  c : UInt32
  d : UInt32
  e : UInt32

def initial : State :=
  ⟨0x67452301, 0xefcdab89, 0x98badcfe, 0x10325476, 0xc3d2e1f0⟩

/-- The five bitwise functions, from which a line takes one for each sixteen steps. -/
def mix (stage : Nat) (x y z : UInt32) : UInt32 :=
  match stage with
  | 0 => x ^^^ y ^^^ z
  | 1 => (x &&& y) ||| (~~~x &&& z)
  | 2 => (x ||| ~~~y) ^^^ z
  | 3 => (x &&& z) ||| (y &&& ~~~z)
  | _ => x ^^^ (y ||| ~~~z)

/-- Sixteen steps of one line: which function and constant they use, and for each step the word
of the block that it reads and the number of places that it rotates by. -/
structure Stage where
  mixing : Nat
  constant : UInt32
  words : List Nat
  rotations : List UInt32

def leftLine : List Stage :=
  [⟨0, 0x00000000,
    [0, 1, 2, 3, 4, 5, 6, 7, 8, 9, 10, 11, 12, 13, 14, 15],
    [11, 14, 15, 12, 5, 8, 7, 9, 11, 13, 14, 15, 6, 7, 9, 8]⟩,
   ⟨1, 0x5a827999,
    [7, 4, 13, 1, 10, 6, 15, 3, 12, 0, 9, 5, 2, 14, 11, 8],
    [7, 6, 8, 13, 11, 9, 7, 15, 7, 12, 15, 9, 11, 7, 13, 12]⟩,
   ⟨2, 0x6ed9eba1,
    [3, 10, 14, 4, 9, 15, 8, 1, 2, 7, 0, 6, 13, 11, 5, 12],
    [11, 13, 6, 7, 14, 9, 13, 15, 14, 8, 13, 6, 5, 12, 7, 5]⟩,
   ⟨3, 0x8f1bbcdc,
    [1, 9, 11, 10, 0, 8, 12, 4, 13, 3, 7, 15, 14, 5, 6, 2],
    [11, 12, 14, 15, 14, 15, 9, 8, 9, 14, 5, 6, 8, 6, 5, 12]⟩,
   ⟨4, 0xa953fd4e,
    [4, 0, 5, 9, 7, 12, 2, 10, 14, 1, 3, 8, 11, 6, 15, 13],
    [9, 15, 5, 11, 6, 8, 13, 12, 5, 12, 13, 14, 11, 8, 5, 6]⟩]

def rightLine : List Stage :=
  [⟨4, 0x50a28be6,
    [5, 14, 7, 0, 9, 2, 11, 4, 13, 6, 15, 8, 1, 10, 3, 12],
    [8, 9, 9, 11, 13, 15, 15, 5, 7, 7, 8, 11, 14, 14, 12, 6]⟩,
   ⟨3, 0x5c4dd124,
    [6, 11, 3, 7, 0, 13, 5, 10, 14, 15, 8, 12, 4, 9, 1, 2],
    [9, 13, 15, 7, 12, 8, 9, 11, 7, 7, 12, 7, 6, 15, 13, 11]⟩,
   ⟨2, 0x6d703ef3,
    [15, 5, 1, 3, 7, 14, 6, 9, 11, 8, 12, 2, 10, 0, 4, 13],
    [9, 7, 15, 11, 8, 6, 6, 14, 12, 13, 5, 14, 13, 13, 7, 5]⟩,
   ⟨1, 0x7a6d76e9,
    [8, 6, 4, 1, 3, 11, 15, 0, 5, 12, 2, 13, 9, 7, 10, 14],
    [15, 5, 8, 11, 14, 14, 6, 14, 6, 9, 12, 9, 12, 5, 15, 8]⟩,
   ⟨0, 0x00000000,
    [12, 15, 10, 4, 1, 5, 8, 7, 6, 2, 13, 14, 0, 3, 9, 11],
    [8, 5, 12, 9, 12, 5, 14, 6, 8, 13, 6, 5, 15, 13, 11, 11]⟩]

def step (block : Array UInt32) (stage : Stage) (s : State) (wordAndRotation : Nat × UInt32) :
    State :=
  let sum := s.a + mix stage.mixing s.b s.c s.d + block.getD wordAndRotation.1 0 + stage.constant
  ⟨s.e, rotateLeft sum wordAndRotation.2 + s.e, s.b, rotateLeft s.c 10, s.d⟩

def runLine (line : List Stage) (block : Array UInt32) (s : State) : State :=
  line.foldl (fun s stage ↦ (stage.words.zip stage.rotations).foldl (step block stage) s) s

def compress (s : State) (block : Bytes) : State :=
  let words := (wordsLittle block).toArray
  let l := runLine leftLine words s
  let r := runLine rightLine words s
  ⟨s.b + l.c + r.d, s.c + l.d + r.e, s.d + l.e + r.a, s.e + l.a + r.b, s.a + l.b + r.c⟩

def State.bytes (s : State) : Bytes :=
  wordBytesLittle s.a ++ wordBytesLittle s.b ++ wordBytesLittle s.c ++ wordBytesLittle s.d ++
    wordBytesLittle s.e

end Ripemd160

def ripemd160 (message : Bytes) : Bytes :=
  ((blocksLittle message).foldl Ripemd160.compress Ripemd160.initial).bytes

@[simp] theorem length_ripemd160 (message : Bytes) : (ripemd160 message).length = 20 := rfl

end UtxoConsensus.Digest
