import Mathlib.Data.List.Forall2
import UtxoConsensus.Proofs.Interpreter.Pushes
import UtxoConsensus.Proofs.Script.CodeSeparators
import UtxoConsensus.Proofs.Script.Numbers

/-!
# Pushes in the shortest way

An element can be pushed in several ways: by an opcode that names a number, by one that is the length of the
data, or with one, two or four bytes for the length. The rule that pushes are minimal leaves one of them for
each element. So a script that only pushes can be read off the elements that it has pushed, and there are no
two such scripts with the same effect.
-/

namespace UtxoConsensus

variable {σ τ : Type} {env : Env σ} {i : Instruction} {script b : Bytes}

/-! ## The bytes of a push -/

/-- The shortest way to push an element: by an opcode of its own, if it has one. -/
def Script.shortestPush : Bytes → Bytes
  | [byte] =>
    if 1 ≤ byte ∧ byte ≤ 16 then [Opcode.ofSmallNumber byte]
    else if byte = 0x81 then [Opcode.negativeOne]
    else pushData [byte]
  | b => pushData b

namespace Instruction

/-- A push has as many bytes as it announces. -/
theorem lengths_of_first? (h : first? script = some i) (hpush : i.opcode ≤ Opcode.pushData4) :
    i.lengthField.length = lengthFieldSize i.opcode ∧ i.data.length = pushSize i.opcode i.lengthField :=
  ((cases_of_first? h).resolve_right fun hnot ↦ hnot.1 hpush).2

/-- All other opcodes are single bytes. -/
theorem bytes_of_not_push (h : first? script = some i) (hpush : ¬ i.opcode ≤ Opcode.pushData4) :
    i.bytes = [i.opcode] :=
  ((cases_of_first? h).resolve_left fun hle ↦ hpush hle.1).2

/-- An opcode that is the length of its data has no other length behind it. -/
theorem bytes_of_direct (hfirst : first? script = some i) (hopcode : i.opcode.toNat = i.data.length)
    (hshort : i.data.length < 0x4c) : i.bytes = Script.pushData i.data := by
  have hpush : i.opcode ≤ Opcode.pushData4 := by
    rw [UInt8.le_iff_toNat_le, hopcode]
    exact Nat.le_trans (Nat.le_of_lt hshort) (by decide)
  have hfield := (lengths_of_first? hfirst hpush).1
  rw [lengthFieldSize_eq_zero (hopcode ▸ hshort), List.length_eq_zero_iff] at hfield
  unfold bytes Script.pushData
  rw [if_pos hshort, hfield, ← hopcode, UInt8.ofNat_toNat]
  rfl

/-- A length that stands behind its opcode is the length of the data. -/
theorem lengthField_eq (hfirst : first? script = some i) (hpush : i.opcode ≤ Opcode.pushData4)
    (hfield : lengthFieldSize i.opcode ≠ 0) :
    i.lengthField = Bytes.ofNat (lengthFieldSize i.opcode) i.data.length := by
  obtain ⟨hlength, hdata⟩ := lengths_of_first? hfirst hpush
  unfold pushSize at hdata
  rw [if_neg hfield] at hdata
  rw [← hlength, hdata, Bytes.ofNat_toNat]

/-- Data of two bytes or more, pushed with the shortest opcode for its length. -/
theorem bytes_of_two_le (hfirst : first? script = some i) (hpush : i.opcode ≤ Opcode.pushData4)
    (hmin : 2 ≤ i.data.length) (hmax : i.data.length ≤ 65535)
    (hminimal : Script.isMinimalPush i.data i.opcode = true) : i.bytes = Script.pushData i.data := by
  rw [Script.isMinimalPush_of_two_le hmin] at hminimal
  by_cases hshort : i.data.length ≤ 75
  · rw [if_pos hshort, beq_iff_eq] at hminimal
    exact bytes_of_direct hfirst hminimal (Nat.lt_succ_of_le hshort)
  have hlong : ¬ i.data.length < 0x4c := fun h ↦ hshort (Nat.le_of_lt_succ h)
  have hfield := lengthField_eq hfirst hpush
  unfold bytes Script.pushData
  rw [if_neg hshort] at hminimal
  rw [if_neg hlong]
  by_cases hone : i.data.length ≤ 255
  · rw [if_pos hone, beq_iff_eq] at hminimal
    rw [if_pos hone, hfield (by rw [hminimal]; decide), hminimal]
    change Opcode.pushData1 :: UInt8.ofNat (i.data.length % 256) :: i.data = _
    rw [Nat.mod_eq_of_lt (Nat.lt_succ_of_le hone)]
  · rw [if_neg hone, if_pos hmax, beq_iff_eq] at hminimal
    rw [if_neg hone, if_pos hmax, hfield (by rw [hminimal]; decide), hminimal]
    rfl

/-- The rule leaves one form of a push. The cases are those of the rule: no byte, a single one, more. -/
theorem bytes_of_isMinimalPush (hfirst : first? script = some i)
    (hpush : i.opcode ≤ Opcode.pushData4) (hmax : i.data.length ≤ 65535)
    (hminimal : Script.isMinimalPush i.data i.opcode = true) : i.bytes = Script.shortestPush i.data := by
  match hdata : i.data with
  | [] =>
    have hlength : i.data.length = 0 := congrArg List.length hdata
    rw [hdata, Script.isMinimalPush, beq_iff_eq] at hminimal
    have hopcode : i.opcode.toNat = i.data.length := by
      rw [hminimal, hlength]
      rfl
    rw [bytes_of_direct hfirst hopcode (hlength ▸ by decide), hdata]
    rfl
  | [byte] =>
    have hlength : i.data.length = 1 := congrArg List.length hdata
    rw [hdata, Script.isMinimalPush, Bool.and_eq_true, Bool.and_eq_true, Bool.not_eq_true', beq_iff_eq,
      bne_iff_ne, Bool.and_eq_false_iff, decide_eq_false_iff_not, decide_eq_false_iff_not, ← not_and_or]
      at hminimal
    obtain ⟨⟨hnumber, hnegative⟩, hone⟩ := hminimal
    have hopcode : i.opcode.toNat = i.data.length := by
      rw [hone, hlength]
      rfl
    rw [bytes_of_direct hfirst hopcode (hlength ▸ by decide), hdata, Script.shortestPush,
      if_neg hnumber, if_neg hnegative]
  | first :: second :: rest =>
    have hmin : 2 ≤ i.data.length := by
      rw [hdata]
      exact Nat.le_add_left _ _
    rw [bytes_of_two_le hfirst hpush hmin hmax hminimal, hdata]
    rfl

/-- Under the rule of minimal data, what is pushed determines the bytes of the push. -/
theorem bytes_eq_shortestPush (hfirst : first? script = some i)
    (hle : i.opcode ≤ Opcode.sixteen) (hrule : env.has .minimalData = true) (hpushed : i.pushed env = .ok b) :
    i.bytes = Script.shortestPush b := by
  obtain ⟨hsize, ⟨hpush, hminimal, rfl⟩ | ⟨hpush, n, hoperation, rfl⟩⟩ := cases_of_pushed_eq_ok hpushed
  · rw [hrule, Bool.true_and, Bool.not_eq_false'] at hminimal
    exact bytes_of_isMinimalPush hfirst hpush (Nat.le_trans hsize (by decide)) hminimal
  · rw [bytes_of_not_push hfirst hpush]
    rcases Operation.cases_of_le_sixteen hpush hle with hnumber | hnegative | hinvalid
    · rw [Operation.ofOpcode_of_isPositiveNumber hnumber] at hoperation
      cases hoperation
      obtain ⟨hsmall, hopcode⟩ := Opcode.smallNumber_of_isPositiveNumber hnumber
      rw [ScriptNumber.encode_small hsmall.1 hsmall.2, Script.shortestPush, if_pos hsmall, hopcode]
    · rw [hnegative] at hoperation ⊢
      cases hoperation
      rw [ScriptNumber.encode_negativeOne]
      rfl
    · rw [hinvalid] at hoperation
      cases hoperation

end Instruction

/-! ## Runs -/

/-- A run that only pushes leaves its elements on top of the stack, one for each instruction. -/
theorem exists_elements_of_pushAll {instructions : List Instruction} {stack stack' : List Bytes}
    (h : pushAll env instructions stack = .ok stack') :
    ∃ elements, List.Forall₂ (fun i b ↦ Instruction.pushed env i = .ok b) instructions elements ∧
      stack' = elements.reverse ++ stack := by
  induction instructions generalizing stack with
  | nil =>
    cases h
    exact ⟨[], .nil, rfl⟩
  | cons i rest ih =>
    unfold pushAll at h
    cases hpushed : i.pushed env with
    | error e =>
      rw [hpushed] at h
      cases h
    | ok b =>
      rw [hpushed] at h
      change (if _ then _ else _) = _ at h
      split at h
      · cases h
      · obtain ⟨elements, hall, rfl⟩ := ih h
        refine ⟨b :: elements, .cons hpushed hall, ?_⟩
        rw [List.reverse_cons, List.append_assoc]
        rfl

/-- The script is read off the elements that it pushes. The induction is on its instructions. -/
theorem eq_flatMap_shortestPush (hrule : env.has .minimalData = true)
    (hpush : Script.isPushOnly script = true) (elements : List Bytes)
    (hall : List.Forall₂ (fun i b ↦ Instruction.pushed env i = .ok b) (Script.parse script).instructions
      elements) : script = elements.flatMap Script.shortestPush := by
  rw [Script.isPushOnly_iff] at hpush
  obtain ⟨htail, hle⟩ := hpush
  revert elements
  fun_induction Script.parse script with
  | case1 script hnone =>
    intro elements hall
    cases hall
    exact htail
  | case2 script i hfirst parsed ih =>
    intro elements hall
    rw [List.forall_mem_cons] at hle
    cases hall with
    | cons hpushed hrest =>
      rw [List.flatMap_cons, ← Instruction.bytes_eq_shortestPush hfirst hle.1 hrule hpushed,
        ← ih htail hle.2 _ hrest, Instruction.bytes_append_rest hfirst]

/-- What a script has pushed is found on top of the stack that it started on, and says what the script was. -/
theorem exists_elements_of_evalScript (hrule : env.has .minimalData = true)
    (hpush : Script.isPushOnly script = true) {m m' : Machine σ} (hrun : evalScript env script m = .ok () m') :
    ∃ elements : List Bytes, m'.stack = elements.reverse ++ m.stack ∧
      script = elements.flatMap Script.shortestPush := by
  have hpushes : (m.enter script).Pushes () (evalScript env script m) _ :=
    evalScript_pushes hpush (length_le_of_evalScript_eq_ok hrun) m
  cases hall : pushAll env (Script.parse script).instructions m.stack with
  | error e =>
    rw [hall, hrun] at hpushes
    obtain ⟨m'', hfailed, -⟩ := hpushes
    cases hfailed
  | ok stack =>
    rw [hall, hrun] at hpushes
    cases hpushes
    obtain ⟨elements, hpushed, rfl⟩ := exists_elements_of_pushAll hall
    exact ⟨elements, rfl, eq_flatMap_shortestPush hrule hpush elements hpushed⟩

/-! ## Two scripts -/

/-- Of the scripts that only push, each element in the shortest way, there is only one that leaves a given
stack on top of another. -/
theorem eq_of_pushOnly_of_sameStack {env' : Env τ} (hrule : env.has .minimalData = true)
    (hrule' : env'.has .minimalData = true) {first second : Bytes} (hfirst : Script.isPushOnly first = true)
    (hsecond : Script.isPushOnly second = true) {m m₁ : Machine σ} {n n₁ : Machine τ}
    (hstart : m.stack = n.stack) (hrun : evalScript env first m = .ok () m₁)
    (hrun' : evalScript env' second n = .ok () n₁) (hend : m₁.stack = n₁.stack) : first = second := by
  obtain ⟨elements, hstack, rfl⟩ := exists_elements_of_evalScript hrule hfirst hrun
  obtain ⟨elements', hstack', rfl⟩ := exists_elements_of_evalScript hrule' hsecond hrun'
  rw [hstack, hstack', hstart, List.append_cancel_right_eq, List.reverse_inj] at hend
  rw [hend]

def minimalEnv : Env Unit where
  checker := Checker.base
  flags := .minimalData

/-- Two numbers with opcodes of their own, and a push of two bytes. -/
theorem eq_of_pushOnly_of_sameStack_threeForms :
    let script : Bytes := [0x4f, 0x52, 0x02, 7, 8]
    minimalEnv.has .minimalData = true ∧ Script.isPushOnly script = true ∧
      (∃ m, evalScript minimalEnv script (.start [] ()) = .ok () m ∧ m.stack = [[7, 8], [2], [0x81]]) ∧
      script = Script.build [.int (-1), .int 2, .data [7, 8]] := by
  intro script
  have hparse : Script.parse script = ⟨[⟨0x4f, [], [], [0x52, 0x02, 7, 8]⟩, ⟨0x52, [], [], [0x02, 7, 8]⟩,
      ⟨0x02, [], [7, 8], []⟩], []⟩ := by
    rw [Script.parse_of_first? (Instruction.first?_opcode (by decide) _),
      Script.parse_of_first? (Instruction.first?_opcode (by decide) _),
      Script.parse_of_first? (show Instruction.first? [0x02, 7, 8] = some ⟨0x02, [], [7, 8], []⟩ from rfl),
      Script.parse_nil]
  have hpush : Script.isPushOnly script = true := by
    rw [Script.isPushOnly_iff, hparse]
    decide
  have hpushed : pushAll minimalEnv (Script.parse script).instructions [] = .ok [[7, 8], [2], [0x81]] := by
    rw [hparse]
    change Except.ok [[7, 8], ScriptNumber.encode ((2 : UInt8).toNat), ScriptNumber.encode (-1)] = _
    rw [ScriptNumber.encode_small (by decide) (by decide), ScriptNumber.encode_negativeOne]
  have hrun : ∃ m, evalScript minimalEnv script (.start [] ()) = .ok () m ∧
      m.stack = [[7, 8], [2], [0x81]] := by
    have hpushes : (Machine.enter (.start [] ()) script).Pushes ()
        (evalScript minimalEnv script (.start [] ()))
        (pushAll minimalEnv (Script.parse script).instructions []) :=
      evalScript_pushes hpush (by decide) _
    rw [hpushed] at hpushes
    exact ⟨_, hpushes, rfl⟩
  obtain ⟨m, hm, hstack⟩ := hrun
  exact ⟨rfl, hpush, ⟨m, hm, hstack⟩, eq_of_pushOnly_of_sameStack rfl rfl hpush hpush rfl hm hm rfl⟩

end UtxoConsensus
