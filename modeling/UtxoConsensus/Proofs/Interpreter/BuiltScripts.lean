import UtxoConsensus.Proofs.Interpreter.Pushes
import UtxoConsensus.Proofs.Script.Items
import UtxoConsensus.Proofs.Script.ShortestNumbers

/-!
# Scripts made piece by piece

A script is made of opcodes, numbers and data, each written in the shortest way. Every piece becomes one
instruction, whatever is made after it, so that a reader tells the pieces again, one by one and in order. A
number that has no opcode of its own is pushed as data, by a push that the rule for minimal pushes admits;
either way the script leaves the shortest encoding of the number on the stack.
-/

namespace UtxoConsensus

open ScriptNumber

namespace Script

namespace Piece

/-- The pieces that can be asked for: opcodes that do not push data, numbers of 64 bits, and data whose
length is a word of 32 bits. -/
def IsCall : Piece → Prop
  | opcode byte => Opcode.pushData4 < byte
  | int n => Int64.minValue.toInt ≤ n ∧ n ≤ Int64.maxValue.toInt
  | data bytes => bytes.length < UInt32.size

/-- The opcode and the data of the instruction that a piece becomes. -/
def meaning : Piece → UInt8 × Bytes
  | opcode byte => (byte, [])
  | int n =>
    if n = -1 then (Opcode.negativeOne, [])
    else if 1 ≤ n ∧ n ≤ 16 then (Opcode.ofSmallNumber (UInt8.ofNat n.toNat), [])
    else (pushOpcode (encode n).length, encode n)
  | data bytes => (pushOpcode bytes.length, bytes)

end Piece

/-! ## Numbers -/

/-- A number has an opcode of its own, or it is pushed as data. -/
theorem pushInt_cases (n : Int) :
    n = -1 ∧ pushInt n = [Opcode.negativeOne] ∧ (Piece.int n).meaning = (Opcode.negativeOne, []) ∨
      (∃ b : UInt8, (1 ≤ b ∧ b ≤ 16) ∧ n = b.toNat ∧ pushInt n = [Opcode.ofSmallNumber b] ∧
        (Piece.int n).meaning = (Opcode.ofSmallNumber b, [])) ∨
      (n ≠ -1 ∧ ¬ (1 ≤ n ∧ n ≤ 16)) ∧ pushInt n = pushData (encode n) ∧
        (Piece.int n).meaning = (pushOpcode (encode n).length, encode n) := by
  unfold pushInt Piece.meaning
  by_cases hnegative : n = -1
  · subst hnegative
    exact .inl ⟨rfl, rfl, rfl⟩
  rw [if_neg hnegative]
  dsimp only
  rw [if_neg hnegative]
  by_cases hsmall : 1 ≤ n ∧ n ≤ 16
  · have hnat : (UInt8.ofNat n.toNat).toNat = n.toNat := by
      rw [UInt8.toNat_ofNat']
      omega
    have hbyte : 1 ≤ UInt8.ofNat n.toNat ∧ UInt8.ofNat n.toNat ≤ 16 := by
      rw [UInt8.le_iff_toNat_le, UInt8.le_iff_toNat_le, hnat]
      change 1 ≤ n.toNat ∧ n.toNat ≤ 16
      omega
    rw [if_pos hsmall, if_pos (by omega)]
    exact .inr (.inl ⟨_, hbyte, by omega, rfl, rfl⟩)
  · refine .inr (.inr ⟨⟨hnegative, hsmall⟩, ?_, if_neg hsmall⟩)
    by_cases hzero : n = 0
    · subst hzero
      have hnil : encode 0 = [] := by
        unfold encode magnitudeBytes
        rfl
      rw [hnil]
      rfl
    · rw [if_neg (by omega)]

/-- The opcodes for 1 to 16 lie above those that push data, and name their numbers. -/
theorem ofSmallNumber_spec {b : UInt8} (hpos : 1 ≤ b) (hle : b ≤ 16) :
    Opcode.pushData4 < Opcode.ofSmallNumber b ∧ Opcode.ofSmallNumber b ≤ Opcode.sixteen ∧
      Operation.ofOpcode (Opcode.ofSmallNumber b) = .number b.toNat := by
  have hnumber : ∀ byte : UInt8, 1 ≤ byte → byte ≤ 16 →
      Opcode.pushData4 < Opcode.ofSmallNumber byte ∧ Opcode.ofSmallNumber byte ≤ Opcode.sixteen ∧
        Opcode.isPositiveNumber (Opcode.ofSmallNumber byte) = true ∧
          Opcode.smallNumber (Opcode.ofSmallNumber byte) = byte := by
    apply Bytes.forall_byte
    decide +kernel
  obtain ⟨habove, hlimit, hpositive, hsame⟩ := hnumber b hpos hle
  refine ⟨habove, hlimit, ?_⟩
  rw [Operation.ofOpcode_of_isPositiveNumber hpositive, hsame]

/-- The encoding of a number without an opcode of its own is pushed in the shortest way. -/
theorem isMinimalPush_encode {n : Int} (hnegative : n ≠ -1) (hsmall : ¬ (1 ≤ n ∧ n ≤ 16)) :
    isMinimalPush (encode n) (pushOpcode (encode n).length) = true := by
  have hvalue := value_encode n
  match hencode : encode n with
  | [] => rfl
  | [b] =>
    rw [hencode] at hvalue
    have hlow : ¬ (1 ≤ b ∧ b ≤ 16) := by
      rintro ⟨hpos, hle⟩
      rw [value_small hle] at hvalue
      have hpos' : 1 ≤ b.toNat := hpos
      have hle' : b.toNat ≤ 16 := hle
      omega
    have hsign : b ≠ 0x81 := by
      rintro rfl
      exact hnegative hvalue.symm
    change (!(decide (1 ≤ b) && decide (b ≤ 16)) && b != 0x81 && true) = true
    rw [Bool.and_true, Bool.and_eq_true, bne_iff_ne, Bool.not_eq_true', ← Bool.decide_and]
    exact ⟨decide_eq_false hlow, hsign⟩
  | first :: second :: rest => exact isMinimalPush_pushOpcode (Nat.le_add_left 2 _)

/-- A number that is pushed as data is pushed in the shortest way. -/
theorem isMinimalPush_int (n : Int) (hpush : (Piece.int n).meaning.1 ≤ Opcode.pushData4) :
    isMinimalPush (Piece.int n).meaning.2 (Piece.int n).meaning.1 = true := by
  rcases pushInt_cases n with ⟨-, -, hmeaning⟩ | ⟨b, hb, -, -, hmeaning⟩ | ⟨hn, -, hmeaning⟩
  · rw [hmeaning] at hpush
    exact absurd hpush (by decide)
  · rw [hmeaning] at hpush
    exact absurd hpush (UInt8.not_le.mpr (ofSmallNumber_spec hb.1 hb.2).1)
  · rw [hmeaning]
    exact isMinimalPush_encode hn.1 hn.2

/-! ## One piece -/

/-- Whatever is made after it, a piece is read as the instruction that it stands for. -/
theorem Piece.exists_first?_bytes {p : Piece} (hcall : p.IsCall) (rest : Bytes) :
    ∃ field, Instruction.first? (p.bytes ++ rest) = some ⟨p.meaning.1, field, p.meaning.2, rest⟩ := by
  cases p with
  | opcode byte => exact ⟨[], Instruction.first?_opcode hcall rest⟩
  | data bytes => exact exists_first?_pushData hcall rest
  | int n =>
    change ∃ field, Instruction.first? (pushInt n ++ rest) = _
    rcases pushInt_cases n with ⟨-, hbytes, hmeaning⟩ | ⟨b, hb, -, hbytes, hmeaning⟩ | ⟨-, hbytes, hmeaning⟩
    · rw [hbytes, hmeaning]
      exact ⟨[], Instruction.first?_opcode (by decide) rest⟩
    · rw [hbytes, hmeaning]
      exact ⟨[], Instruction.first?_opcode (ofSmallNumber_spec hb.1 hb.2).1 rest⟩
    · rw [hbytes, hmeaning]
      exact exists_first?_pushData (Nat.lt_of_le_of_lt (length_encode_le hcall) (by decide)) rest

/-! ## All pieces -/

theorem build_cons (p : Piece) (pieces : List Piece) : build (p :: pieces) = p.bytes ++ build pieces :=
  List.flatMap_cons

theorem build_singleton (p : Piece) : build [p] = p.bytes := List.append_nil _

/-- A reader that stands after some pieces tells the next ones, each with the length of all that was made up to
it. By induction on the pieces that are left. -/
theorem items_build_from (done : Bytes) {pieces : List Piece} (hcalls : ∀ p ∈ pieces, p.IsCall) :
    ((Reader.mk done.length false).items (done ++ build pieces)).length = pieces.length ∧
      ∀ before p after, pieces = before ++ p :: after →
        ((Reader.mk done.length false).items (done ++ build pieces))[before.length]? =
          some (.ok ⟨p.meaning.1, p.meaning.2, (done ++ build (before ++ [p])).length⟩) := by
  induction pieces generalizing done with
  | nil =>
    have hend : (done ++ build []).length ≤ done.length := Nat.le_of_eq (by rw [build]; simp)
    rw [Reader.items_of_end hend]
    exact ⟨rfl, fun before _ _ h ↦ by cases before <;> cases h⟩
  | cons p pieces ih =>
    rw [List.forall_mem_cons] at hcalls
    obtain ⟨field, hread⟩ := p.exists_first?_bytes hcalls.1 (build pieces)
    have hscript : done ++ build (p :: pieces) = (done ++ p.bytes) ++ build pieces := by
      rw [build_cons, List.append_assoc]
    have hfirst : Instruction.first? ((done ++ build (p :: pieces)).drop done.length) =
        some ⟨p.meaning.1, field, p.meaning.2, build pieces⟩ := by
      rw [List.drop_left]
      exact hread
    have hstop : (done ++ build (p :: pieces)).length - (build pieces).length = (done ++ p.bytes).length := by
      rw [hscript, List.length_append, Nat.add_sub_cancel]
    obtain ⟨hlength, hitems⟩ := ih (done ++ p.bytes) hcalls.2
    rw [Reader.items_of_some hfirst]
    dsimp only
    rw [hstop, hscript]
    refine ⟨congrArg (· + 1) hlength, ?_⟩
    intro before q after hsplit
    cases before with
    | nil =>
      cases hsplit
      rw [List.nil_append, build_singleton]
      rfl
    | cons first before =>
      cases hsplit
      rw [List.cons_append, build_cons, ← List.append_assoc]
      exact hitems before q after rfl

/-- A built script is read back piece by piece. -/
theorem items_build {pieces : List Piece} (hcalls : ∀ p ∈ pieces, p.IsCall) :
    (items (build pieces)).length = pieces.length ∧
      ∀ before p after, pieces = before ++ p :: after →
        (items (build pieces))[before.length]? =
          some (.ok ⟨p.meaning.1, p.meaning.2, (build (before ++ [p])).length⟩) :=
  items_build_from [] hcalls

/-! ## Numbers on the stack -/

section Evaluation

variable {σ : Type} {env : Env σ}

/-- The instruction of a number pushes its encoding, whatever the rules are. -/
theorem pushed_int {n : Int} (hword : (Piece.int n).IsCall) (field rest : Bytes) :
    Instruction.pushed env ⟨(Piece.int n).meaning.1, field, (Piece.int n).meaning.2, rest⟩ =
      .ok (encode n) := by
  rcases pushInt_cases n with ⟨hn, -, hmeaning⟩ | ⟨b, hb, hn, -, hmeaning⟩ | ⟨hn, -, hmeaning⟩
  · rw [hmeaning, hn]
    exact Instruction.pushed_number rfl (show Opcode.pushData4 < Opcode.negativeOne by decide) rfl
  · obtain ⟨habove, -, hnumber⟩ := ofSmallNumber_spec hb.1 hb.2
    rw [hmeaning, hn]
    exact Instruction.pushed_number rfl habove hnumber
  · rw [hmeaning]
    exact Instruction.pushed_data (pushOpcode_le _) (isMinimalPush_encode hn.1 hn.2)
      (Nat.le_trans (length_encode_le hword) (by decide))

/-- Numbers are pushed by opcodes that push. -/
theorem meaning_int_le_sixteen (n : Int) : (Piece.int n).meaning.1 ≤ Opcode.sixteen := by
  rcases pushInt_cases n with ⟨-, -, hmeaning⟩ | ⟨b, hb, -, -, hmeaning⟩ | ⟨-, -, hmeaning⟩
  · rw [hmeaning]
    decide
  · rw [hmeaning]
    exact (ofSmallNumber_spec hb.1 hb.2).2.1
  · rw [hmeaning]
    exact UInt8.le_trans (pushOpcode_le _) (by decide)

/-- Pushing a word takes ten bytes at most. -/
theorem length_pushInt_le {n : Int} (hword : (Piece.int n).IsCall) : (pushInt n).length ≤ 10 := by
  rcases pushInt_cases n with ⟨-, hbytes, -⟩ | ⟨b, -, -, hbytes, -⟩ | ⟨-, hbytes, -⟩
  · rw [hbytes]
    decide
  · rw [hbytes]
    exact Nat.le_add_left 1 9
  · have hsize := length_encode_le hword
    rw [hbytes]
    unfold pushData
    rw [if_pos (by omega), List.length_cons]
    omega

/-- Evaluating a number leaves its encoding on top of the stack. -/
theorem evalScript_pushInt {n : Int} (hword : (Piece.int n).IsCall) {m : Machine σ}
    (hroom : m.stack.length < Limit.stackSize) :
    ∃ m', evalScript env (pushInt n) m = .ok () m' ∧ m'.stack = encode n :: m.stack := by
  obtain ⟨field, hfirst⟩ := (Piece.int n).exists_first?_bytes hword []
  rw [List.append_nil] at hfirst
  have hparse : parse (pushInt n) =
      ⟨[⟨(Piece.int n).meaning.1, field, (Piece.int n).meaning.2, []⟩], []⟩ := by
    change parse (Piece.int n).bytes = _
    rw [parse_of_first? hfirst, parse_nil]
  have hpush : isPushOnly (pushInt n) = true := by
    rw [isPushOnly_iff, hparse]
    exact ⟨rfl, List.forall_mem_singleton.mpr (meaning_int_le_sixteen n)⟩
  have hall : pushAll env (parse (pushInt n)).instructions m.stack = .ok (encode n :: m.stack) := by
    rw [hparse]
    unfold pushAll
    rw [pushed_int hword]
    exact if_neg (Nat.not_lt.mpr hroom)
  have hsize : (pushInt n).length ≤ maxSize := Nat.le_trans (length_pushInt_le hword) (by decide)
  have hruns : (m.enter (pushInt n)).Pushes () (evalScript env (pushInt n) m) (.ok (encode n :: m.stack)) :=
    hall ▸ evalScript_pushes hpush hsize m
  exact ⟨_, hruns, rfl⟩

end Evaluation

/-! ## Making and reading -/

/-- **Making scripts and reading them are inverse.** Of a script that is made of pieces, a reader tells one
instruction for each, in order, with the opcode and the data of the piece and the length of what was made up
to it. A number that is pushed as data is pushed in the shortest way, and evaluating a number, under
whatever rules, leaves its shortest encoding on top of the stack. And of any byte string the reader tells
what parsing finds: instructions that lie side by side from the first byte on, at most one error, which
stands last, and without an error instructions up to the end. -/
theorem build_items_inverse :
    (∀ pieces : List Piece, (∀ p ∈ pieces, p.IsCall) →
      (items (build pieces)).length = pieces.length ∧
        ∀ before p after, pieces = before ++ p :: after →
          (items (build pieces))[before.length]? =
            some (.ok ⟨p.meaning.1, p.meaning.2, (build (before ++ [p])).length⟩)) ∧
      (∀ n : Int64,
        ((Piece.int n.toInt).meaning.1 ≤ Opcode.pushData4 →
          isMinimalPush (Piece.int n.toInt).meaning.2 (Piece.int n.toInt).meaning.1 = true) ∧
        ∀ {σ : Type} (env : Env σ) (m : Machine σ), m.stack.length < Limit.stackSize →
          ∃ m' b, evalScript env (build [.int n.toInt]) m = .ok () m' ∧ m'.stack = b :: m.stack ∧
            IsShortest b n.toInt) ∧
      ∀ script : Bytes,
        items script = (parse script).instructions.map (fun i ↦ .ok (itemOf script i)) ++
          (if (parse script).tail = [] then [] else [.error .badOpcode]) ∧
        IsTiling script 0 (items script) := by
  refine ⟨fun pieces ↦ items_build, ?_, fun script ↦ ⟨items_eq script, isTiling_items script⟩⟩
  intro n
  refine ⟨isMinimalPush_int n.toInt, ?_⟩
  intro σ env m hroom
  have hword : (Piece.int n.toInt).IsCall := ⟨n.minValue_le_toInt, n.toInt_le⟩
  obtain ⟨m', hrun, hstack⟩ : ∃ m', evalScript env (pushInt n.toInt) m = .ok () m' ∧
      m'.stack = encode n.toInt :: m.stack := evalScript_pushInt hword hroom
  rw [build_singleton]
  exact ⟨m', _, hrun, hstack, isShortest_encode _⟩

end Script

end UtxoConsensus
