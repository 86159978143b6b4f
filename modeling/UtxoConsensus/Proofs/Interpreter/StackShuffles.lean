import UtxoConsensus.Proofs.Interpreter.BuiltScripts
import UtxoConsensus.Proofs.Interpreter.ExactArithmetic
import UtxoConsensus.Proofs.Interpreter.ListedBranches
import UtxoConsensus.Proofs.Interpreter.ScriptHashSpends

/-!
# Stack opcodes in terms of copying and moving

Every opcode that rearranges the stack does what a few copies and moves of single elements do, each from a
depth that is pushed as a number, or what simpler such opcodes do one after the other. The effect of an opcode
is a function of the stack alone, which has no result where elements are missing. So two scripts agree on all
stacks, the ones that are too small included, if their effects are the same function.
-/

namespace UtxoConsensus

open Exec

variable {σ α : Type} {env : Env σ} {m : Machine σ}

/-! ## Effects -/

def StackOp.opcode : StackOp → UInt8
  | .toAltStack => 0x6b
  | .fromAltStack => 0x6c
  | .drop2 => 0x6d
  | .dup2 => 0x6e
  | .dup3 => 0x6f
  | .over2 => 0x70
  | .rot2 => 0x71
  | .swap2 => 0x72
  | .ifDup => 0x73
  | .depth => 0x74
  | .drop => 0x75
  | .dup => 0x76
  | .nip => 0x77
  | .over => 0x78
  | .pick => 0x79
  | .roll => 0x7a
  | .rot => 0x7b
  | .swap => 0x7c
  | .tuck => 0x7d

theorem StackOp.ofOpcode_opcode (op : StackOp) : Operation.ofOpcode op.opcode = .stack op := by
  cases op <;> rfl

/-- What an opcode makes of a stack, which is listed from the top. The opcodes that are not listed here depend
on more than the number of elements. -/
def StackOp.effect? : StackOp → List α → Option (List α)
  | .drop, _ :: s => some s
  | .drop2, _ :: _ :: s => some s
  | .dup, a :: s => some (a :: a :: s)
  | .dup2, b :: a :: s => some (b :: a :: b :: a :: s)
  | .dup3, c :: b :: a :: s => some (c :: b :: a :: c :: b :: a :: s)
  | .over2, d :: c :: b :: a :: s => some (b :: a :: d :: c :: b :: a :: s)
  | .rot2, f :: e :: d :: c :: b :: a :: s => some (b :: a :: f :: e :: d :: c :: s)
  | .swap2, d :: c :: b :: a :: s => some (b :: a :: d :: c :: s)
  | .nip, b :: _ :: s => some (b :: s)
  | .over, b :: a :: s => some (a :: b :: a :: s)
  | .rot, c :: b :: a :: s => some (a :: c :: b :: s)
  | .swap, b :: a :: s => some (a :: b :: s)
  | .tuck, b :: a :: s => some (b :: a :: b :: s)
  | _, _ => none

/-- The opcodes whose effect depends on nothing but the number of elements. -/
def StackOp.isShuffle : StackOp → Bool
  | .toAltStack | .fromAltStack | .ifDup | .depth | .pick | .roll => false
  | _ => true

/-- A turn of a script that rearranges the stack: an opcode, or a depth from 0 to 16 that is pushed, and the
opcode that copies or moves the element at this depth. -/
inductive Turn where
  | plain (op : StackOp)
  | pick (depth : Fin 17)
  | roll (depth : Fin 17)
deriving DecidableEq

namespace Turn

def bytes : Turn → Bytes
  | .plain op => [op.opcode]
  | .pick depth => [Opcode.ofSmallNumber (UInt8.ofNat depth), StackOp.pick.opcode]
  | .roll depth => [Opcode.ofSmallNumber (UInt8.ofNat depth), StackOp.roll.opcode]

def isShuffle : Turn → Bool
  | .plain op => op.isShuffle
  | .pick _ | .roll _ => true

def effect? : Turn → List α → Option (List α)
  | .plain op, s => op.effect? s
  | .pick depth, s => s[depth.val]?.map (· :: s)
  | .roll depth, s => s[depth.val]?.map (· :: s.eraseIdx depth)

def script (turns : List Turn) : Bytes :=
  turns.flatMap bytes

end Turn

/-- The stack opcodes, each with turns that have the same effect. -/
def shuffles : List (StackOp × List Turn) :=
  [(.dup, [.pick 0]),
    (.over, [.pick 1]),
    (.swap, [.roll 1]),
    (.rot, [.roll 2]),
    (.nip, [.roll 1, .plain .drop]),
    (.tuck, [.plain .swap, .plain .over]),
    (.dup2, [.pick 1, .pick 1]),
    (.dup3, [.pick 2, .pick 2, .pick 2]),
    (.over2, [.pick 3, .pick 3]),
    (.swap2, [.roll 3, .roll 3]),
    (.rot2, [.roll 5, .roll 5]),
    (.drop2, [.plain .drop, .plain .drop])]

/-- The effects are the same function. It is enough to look at the first six elements. -/
theorem effect?_of_mem_shuffles {shuffle : StackOp × List Turn} (h : shuffle ∈ shuffles) (s : List α) :
    shuffle.1.effect? s = shuffle.2.foldlM (fun s turn ↦ turn.effect? s) s := by
  have hall : ∀ shuffle ∈ shuffles, ∀ s : List α,
      shuffle.1.effect? s = shuffle.2.foldlM (fun s turn ↦ turn.effect? s) s := by
    simp only [shuffles, List.forall_mem_cons, List.not_mem_nil, false_imp_iff, implies_true, and_true]
    refine ⟨?_, ?_, ?_, ?_, ?_, ?_, ?_, ?_, ?_, ?_, ?_, ?_⟩
    all_goals
      rintro (_ | ⟨a, _ | ⟨b, _ | ⟨c, _ | ⟨d, _ | ⟨e, _ | ⟨f, s⟩⟩⟩⟩⟩⟩) <;> rfl
  exact hall shuffle h s

/-! ## Opcodes -/

/-- A run leaves the given stack in place of the one that it found. If there is none, it fails for want of
elements. -/
def Machine.Shuffles (m : Machine σ) (a : α) (r : EStateM.Result Halt (Machine σ) α) :
    Option (List Bytes) → Prop
  | some stack => r = .ok a { m with stack }
  | none => ∃ m', r = .error (.failed .invalidStackOperation) m'

/-- As many elements as an opcode rearranges have to be there, and those below them do not matter. -/
theorem executeStack_shuffles {op : StackOp} (hop : op.isShuffle = true) (m : Machine σ) :
    m.Shuffles () (executeStack env op m) (op.effect? m.stack) := by
  obtain ⟨stack, altStack, scriptCode, opCount, sigChecks, world⟩ := m
  cases op with
  | toAltStack | fromAltStack | ifDup | depth | pick | roll => cases hop
  | drop | dup =>
    cases stack with
    | nil => exact ⟨_, rfl⟩
    | cons a s => rfl
  | drop2 | dup2 | nip | «over» | swap | tuck =>
    match stack with
    | [] | [_] => exact ⟨_, rfl⟩
    | _ :: _ :: _ => rfl
  | dup3 | rot =>
    match stack with
    | [] | [_] | [_, _] => exact ⟨_, rfl⟩
    | _ :: _ :: _ :: _ => rfl
  | over2 | swap2 =>
    match stack with
    | [] | [_] | [_, _] | [_, _, _] => exact ⟨_, rfl⟩
    | _ :: _ :: _ :: _ :: _ => rfl
  | rot2 =>
    match stack with
    | [] | [_] | [_, _] | [_, _, _] | [_, _, _, _] | [_, _, _, _, _] => exact ⟨_, rfl⟩
    | _ :: _ :: _ :: _ :: _ :: _ :: _ => rfl

/-- A depth is a number under all rules for numbers. -/
theorem reads_depth (env : Env σ) (depth : Fin 17) : env.Reads (ScriptNumber.encode depth.val) depth.val := by
  have hfour : 4 ≤ env.maxNumberSize := by
    unfold Env.maxNumberSize
    split <;> decide
  apply ScriptNumber.decode_encode
  refine Nat.le_trans (ScriptNumber.length_encode_le_iff.mpr ?_) hfour
  omega

/-- The depth is taken from the stack, and must lie within what is left of it. -/
theorem popDepth_shuffles (env : Env σ) (depth : Fin 17) {s : List Bytes}
    (hstack : m.stack = ScriptNumber.encode depth.val :: s) :
    { m with stack := s }.Shuffles depth.val (popDepth env m) (s[depth.val]?.map fun _ ↦ s) := by
  obtain ⟨stack, altStack, scriptCode, opCount, sigChecks, world⟩ := m
  subst hstack
  cases s with
  | nil => exact ⟨_, rfl⟩
  | cons a rest =>
    change Machine.Shuffles _ _ ((env.number (ScriptNumber.encode depth.val) >>= fun n ↦ _) _) _
    rw [bind_of_ok (Env.number_of_reads (reads_depth env depth) _)]
    change Machine.Shuffles _ _ ((failIf (decide ((depth.val : Int) < 0) ||
      decide ((depth.val : Int).toNat ≥ (a :: rest).length)) .invalidStackOperation >>= fun _ ↦ pure _) _) _
    rw [decide_eq_false (Int.not_lt.mpr (Int.natCast_nonneg _)), Int.toNat_natCast, Bool.false_or]
    by_cases hdepth : depth.val < (a :: rest).length
    · rw [List.getElem?_eq_getElem hdepth, decide_eq_false (Nat.not_le.mpr hdepth)]
      rfl
    · rw [List.getElem?_eq_none (Nat.le_of_not_lt hdepth), decide_eq_true (Nat.le_of_not_lt hdepth)]
      exact ⟨_, rfl⟩

section Depths

variable {s : List Bytes} {depth : Fin 17}

/-- What is done with an element at a depth is done if there is such an element. -/
theorem popDepth_bind_shuffles (hstack : m.stack = ScriptNumber.encode depth.val :: s)
    {f : Nat → Exec σ Unit} {effect : Bytes → List Bytes}
    (hf : ∀ element, s[depth.val]? = some element →
      f depth.val { m with stack := s } = .ok () { m with stack := effect element }) :
    { m with stack := s }.Shuffles () ((popDepth env >>= f) m) (s[depth.val]?.map effect) := by
  have hpop := popDepth_shuffles env depth hstack
  cases hfound : s[depth.val]? with
  | none =>
    rw [hfound] at hpop
    obtain ⟨m', hfail⟩ := hpop
    exact ⟨m', bind_of_error hfail _⟩
  | some element =>
    rw [hfound] at hpop
    rw [bind_of_ok hpop]
    exact hf element hfound

theorem peek_run {element : Bytes} (h : m.stack[depth.val]? = some element) :
    peek depth.val m = .ok element m := by
  change orFault m.stack[depth.val]? m = _
  rw [h]
  rfl

/-- The depth lies on top, and the element at this depth is copied. -/
theorem pick_shuffles (hstack : m.stack = ScriptNumber.encode depth.val :: s) :
    { m with stack := s }.Shuffles () (executeStack env .pick m) ((Turn.pick depth).effect? s) := by
  apply popDepth_bind_shuffles hstack
  intro element hfound
  rw [bind_of_ok (peek_run (m := { m with stack := s }) hfound)]
  rfl

/-- The depth lies on top, and the element at this depth is moved. -/
theorem roll_shuffles (hstack : m.stack = ScriptNumber.encode depth.val :: s) :
    { m with stack := s }.Shuffles () (executeStack env .roll m) ((Turn.roll depth).effect? s) := by
  apply popDepth_bind_shuffles hstack
  intro element hfound
  change ((peek depth.val >>= fun element ↦ _) >>= push) _ = _
  rw [bind_assoc, bind_of_ok (peek_run (m := { m with stack := s }) hfound)]
  rfl

end Depths

/-! ## Scripts of single bytes -/

/-- The instructions of a script in which no instruction has more than one byte. -/
def singles : Bytes → List Instruction
  | [] => []
  | opcode :: rest => ⟨opcode, [], [], rest⟩ :: singles rest

/-- Opcodes without data are read one by one. -/
theorem parse_eq_singles {script : Bytes} (h : ∀ opcode ∈ script, opcode = 0 ∨ Opcode.pushData4 < opcode) :
    Script.parse script = ⟨singles script, []⟩ := by
  induction script with
  | nil => exact Script.parse_nil
  | cons opcode rest ih =>
    rw [List.forall_mem_cons] at h
    have hfirst : Instruction.first? (opcode :: rest) = some ⟨opcode, [], [], rest⟩ := by
      rcases h.1 with rfl | habove
      · exact Instruction.first?_push (show ([] : Bytes).length < 0x4c by decide) rest
      · exact Instruction.first?_opcode habove rest
    rw [Script.parse_of_first? hfirst, ih h.2]
    rfl

theorem Turn.single_bytes (turn : Turn) : ∀ opcode ∈ turn.bytes, opcode = 0 ∨ Opcode.pushData4 < opcode := by
  cases turn with
  | plain op => cases op <;> decide +kernel
  | pick depth | roll depth =>
    revert depth
    decide +kernel

theorem Turn.parse_script (turns : List Turn) : Script.parse (script turns) = ⟨singles (script turns), []⟩ := by
  apply parse_eq_singles
  intro opcode hmem
  obtain ⟨turn, -, hbyte⟩ := List.mem_flatMap.mp hmem
  exact turn.single_bytes opcode hbyte

/-! ## Steps -/

/-- A stack opcode counts as one operation. -/
theorem step_stackOp (env : Env σ) (op : StackOp) (rest : Bytes) (hcount : m.opCount < Limit.operations) :
    step env .none ⟨op.opcode, [], [], rest⟩ m =
      (executeStack env op >>= fun _ ↦ pure .none) { m with opCount := m.opCount + 1 } := by
  have habove : op.opcode > Opcode.sixteen := by cases op <;> decide
  have hhigh : ¬ op.opcode ≤ Opcode.pushData4 := by cases op <;> decide
  have hallowed : isDisabled op.opcode env.flags = false := by cases op <;> rfl
  have hlimits : checkLimits env ⟨op.opcode, [], [], rest⟩ m = .ok () { m with opCount := m.opCount + 1 } := by
    unfold checkLimits
    rw [if_pos habove, hallowed]
    change (Env.countOperations 1 >>= fun _ ↦ failIf false _) m = _
    rw [bind_of_ok (Env.countOperations_of_few (Nat.not_lt.mpr hcount))]
    rfl
  unfold step stepWith
  simp only [if_neg hhigh, op.ofOpcode_opcode]
  rw [bind_of_ok hlimits]
  rfl

/-- The opcodes for 0 to 16 push their numbers, whatever the rules are. -/
theorem pushed_depth (env : Env σ) (depth : Fin 17) (rest : Bytes) :
    Instruction.pushed env ⟨Opcode.ofSmallNumber (UInt8.ofNat depth), [], [], rest⟩ =
      .ok (ScriptNumber.encode depth.val) := by
  have hnat : (UInt8.ofNat depth.val).toNat = depth.val := by
    rw [UInt8.toNat_ofNat']
    omega
  by_cases hzero : depth.val = 0
  · have hnil : ScriptNumber.encode 0 = [] := List.eq_nil_of_length_eq_zero
      (Nat.le_zero.mp (ScriptNumber.length_encode_le_iff.mpr (by decide)))
    rw [hzero]
    change _ = Except.ok (ScriptNumber.encode 0)
    rw [hnil]
    exact Instruction.pushed_data (show Opcode.ofSmallNumber 0 ≤ Opcode.pushData4 by decide) rfl (Nat.zero_le _)
  · have hpos : 1 ≤ UInt8.ofNat depth.val := by
      rw [UInt8.le_iff_toNat_le, hnat]
      exact Nat.pos_of_ne_zero hzero
    have hle : UInt8.ofNat depth.val ≤ 16 := by
      rw [UInt8.le_iff_toNat_le, hnat]
      exact Nat.le_of_lt_succ depth.isLt
    obtain ⟨habove, -, hnumber⟩ := Script.ofSmallNumber_spec hpos hle
    rw [hnat] at hnumber
    exact Instruction.pushed_number rfl habove hnumber

/-- A small number pushes a depth. -/
theorem step_depth (depth : Fin 17) (rest : Bytes) (m : Machine σ) :
    step env .none ⟨Opcode.ofSmallNumber (UInt8.ofNat depth), [], [], rest⟩ m =
      .ok .none { m with stack := ScriptNumber.encode depth.val :: m.stack } := by
  have hle : Opcode.ofSmallNumber (UInt8.ofNat depth) ≤ Opcode.sixteen := by
    revert depth
    decide
  rw [step_of_le_sixteen hle rfl, pushed_depth]
  rfl

/-! ## Runs -/

theorem StackOp.length_le_of_effect? {op : StackOp} {s s' : List α} (h : op.effect? s = some s') :
    s'.length ≤ s.length + 3 := by
  unfold effect? at h
  split at h <;> cases h
  all_goals
    simp only [List.length_cons]
    omega

/-- No effect adds more than three elements. -/
theorem Turn.length_le_of_effect? {turn : Turn} {s s' : List α} (h : turn.effect? s = some s') :
    s'.length ≤ s.length + 3 := by
  cases turn with
  | plain op => exact StackOp.length_le_of_effect? h
  | pick depth =>
    obtain ⟨element, -, rfl⟩ := Option.map_eq_some_iff.mp h
    exact Nat.add_le_add_left (by decide) _
  | roll depth =>
    obtain ⟨element, -, rfl⟩ := Option.map_eq_some_iff.mp h
    have hrest := List.length_eraseIdx_le s depth.val
    rw [List.length_cons]
    omega

/-- The run goes on behind some bytes on the given stack, with the other stack empty and one more operation
counted. If there is no stack, it fails for want of elements. -/
def Machine.GoesOn (env : Env σ) (m : Machine σ) (bytes rest : Bytes) : Option (List Bytes) → Prop
  | some stack => ∃ m', runInstructions env .none (singles (bytes ++ rest)) m =
      runInstructions env .none (singles rest) m' ∧
      m'.stack = stack ∧ m'.altStack = [] ∧ m'.opCount = m.opCount + 1
  | none => ∃ m', runInstructions env .none (singles (bytes ++ rest)) m =
      .error (.failed .invalidStackOperation) m'

theorem goesOn_stackOp {op : StackOp} {below : List Bytes} {stack? : Option (List Bytes)}
    (halt : m.altStack = []) (hcount : m.opCount < Limit.operations)
    (hrun : { m with stack := below, opCount := m.opCount + 1 }.Shuffles ()
      (executeStack env op { m with opCount := m.opCount + 1 }) stack?)
    (hroom : ∀ stack, stack? = some stack → stack.length ≤ Limit.stackSize) (rest : Bytes) :
    m.GoesOn env [op.opcode] rest stack? := by
  have hstep := step_stackOp env op rest hcount
  cases stack? with
  | none =>
    obtain ⟨m', hfail⟩ := hrun
    refine ⟨m', ?_⟩
    change (step env .none ⟨op.opcode, [], [], rest⟩ >>= _) m = _
    rw [bind_of_error (hstep.trans (bind_of_error hfail _))]
  | some stack =>
    refine ⟨_, runInstructions_cons_of_ok (hstep.trans (bind_of_ok hrun _)) ?_ _, rfl, halt, rfl⟩
    rw [halt]
    exact hroom stack rfl

/-- A depth is pushed before it is used. -/
theorem Machine.GoesOn.behind_depth {depth : Fin 17} {bytes rest : Bytes} {stack? : Option (List Bytes)}
    (h : { m with stack := ScriptNumber.encode depth.val :: m.stack }.GoesOn env bytes rest stack?)
    (halt : m.altStack = []) (hroom : m.stack.length < Limit.stackSize) :
    m.GoesOn env (Opcode.ofSmallNumber (UInt8.ofNat depth) :: bytes) rest stack? := by
  have hpush : runInstructions env .none (singles (Opcode.ofSmallNumber (UInt8.ofNat depth) :: bytes ++ rest)) m =
      runInstructions env .none (singles (bytes ++ rest))
        { m with stack := ScriptNumber.encode depth.val :: m.stack } := by
    refine runInstructions_cons_of_ok (step_depth depth _ m) ?_ _
    rw [halt]
    exact hroom
  cases stack? with
  | none =>
    obtain ⟨m', hfail⟩ := h
    exact ⟨m', hpush.trans hfail⟩
  | some stack =>
    obtain ⟨m', hrun, hrest⟩ := h
    exact ⟨m', hpush.trans hrun, hrest⟩

/-- A turn has its effect. -/
theorem goesOn_turn (env : Env σ) {turn : Turn} (hturn : turn.isShuffle = true) (halt : m.altStack = [])
    (hcount : m.opCount < Limit.operations) (hroom : m.stack.length + 3 ≤ Limit.stackSize) (rest : Bytes) :
    m.GoesOn env turn.bytes rest (turn.effect? m.stack) := by
  have hfits : ∀ stack, turn.effect? m.stack = some stack → stack.length ≤ Limit.stackSize :=
    fun stack hsome ↦ Nat.le_trans (Turn.length_le_of_effect? hsome) hroom
  have hpush : m.stack.length < Limit.stackSize := Nat.lt_of_lt_of_le (Nat.lt_add_of_pos_right (by decide)) hroom
  cases turn with
  | plain op => exact goesOn_stackOp halt hcount (executeStack_shuffles hturn _) hfits rest
  | pick depth =>
    apply Machine.GoesOn.behind_depth _ halt hpush
    exact goesOn_stackOp (m := { m with stack := ScriptNumber.encode depth.val :: m.stack }) halt hcount
      (pick_shuffles rfl) hfits rest
  | roll depth =>
    apply Machine.GoesOn.behind_depth _ halt hpush
    exact goesOn_stackOp (m := { m with stack := ScriptNumber.encode depth.val :: m.stack }) halt hcount
      (roll_shuffles rfl) hfits rest

/-- A run ends on the given stack. If there is none, it fails for want of elements. -/
def EndsOn (a : α) (r : EStateM.Result Halt (Machine σ) α) : Option (List Bytes) → Prop
  | some stack => ∃ m', r = .ok a m' ∧ m'.stack = stack
  | none => ∃ m', r = .error (.failed .invalidStackOperation) m'

/-- By induction on the turns: as long as there is room and operations are left, each has its effect. -/
theorem runInstructions_turns {turns : List Turn} (hturns : ∀ turn ∈ turns, turn.isShuffle = true)
    (halt : m.altStack = []) (hcount : m.opCount + turns.length ≤ Limit.operations)
    (hroom : m.stack.length + 3 * turns.length ≤ Limit.stackSize) :
    EndsOn .none (runInstructions env .none (singles (Turn.script turns)) m)
      (turns.foldlM (fun s turn ↦ turn.effect? s) m.stack) := by
  induction turns generalizing m with
  | nil => exact ⟨m, rfl, rfl⟩
  | cons turn turns ih =>
    rw [List.forall_mem_cons] at hturns
    rw [List.length_cons] at hcount hroom
    have hgoes := goesOn_turn env hturns.1 halt (by omega) (by omega) (Turn.script turns)
    rw [List.foldlM_cons]
    cases heffect : turn.effect? m.stack with
    | none =>
      rw [heffect] at hgoes
      exact hgoes
    | some stack =>
      rw [heffect] at hgoes
      obtain ⟨m', hrun, rfl, halt', hcount'⟩ := hgoes
      have hlength := Turn.length_le_of_effect? heffect
      have hrest := ih (m := m') hturns.2 halt' (by omega) (by omega)
      rw [← hrun] at hrest
      exact hrest

theorem Turn.length_script_le (turns : List Turn) : (script turns).length ≤ 2 * turns.length := by
  induction turns with
  | nil => exact Nat.le_refl _
  | cons turn turns ih =>
    have hturn : turn.bytes.length ≤ 2 := by
      cases turn with
      | plain op => exact Nat.le_succ 1
      | pick depth | roll depth => exact Nat.le_refl 2
    change (turn.bytes ++ script turns).length ≤ _
    rw [List.length_append, List.length_cons]
    omega

/-- A script of turns starts with the other stack empty, and with no operation counted. -/
theorem evalScript_turns {turns : List Turn} (hturns : ∀ turn ∈ turns, turn.isShuffle = true)
    (hshort : turns.length ≤ 3) (hroom : m.stack.length ≤ 990) :
    EndsOn () (evalScript env (Turn.script turns) m) (turns.foldlM (fun s turn ↦ turn.effect? s) m.stack) := by
  have hlength := Turn.length_script_le turns
  have hsize : (Turn.script turns).length ≤ Script.maxSize :=
    Nat.le_trans hlength (Nat.le_trans (Nat.mul_le_mul_left 2 hshort) (by decide))
  have hoperations : Limit.operations = 201 := rfl
  have hstacks : Limit.stackSize = 1000 := rfl
  have hrun : EndsOn .none (runInstructions env .none (singles (Turn.script turns)) (m.enter (Turn.script turns)))
      (turns.foldlM (fun s turn ↦ turn.effect? s) m.stack) := by
    apply runInstructions_turns hturns rfl
    · change 0 + turns.length ≤ _
      omega
    · change m.stack.length + 3 * turns.length ≤ _
      omega
  rw [evalScript_of_length_le hsize, Turn.parse_script]
  cases heffect : turns.foldlM (fun s turn ↦ turn.effect? s) m.stack with
  | none =>
    rw [heffect] at hrun
    obtain ⟨m', hfail⟩ := hrun
    exact ⟨m', bind_of_error hfail _⟩
  | some stack =>
    rw [heffect] at hrun
    obtain ⟨m', hok, hstack⟩ := hrun
    refine ⟨m', ?_, hstack⟩
    rw [bind_of_ok hok]
    rfl

/-- The shuffles that are compared are short, and they consist of stack opcodes. -/
theorem shuffles_fit : ∀ shuffle ∈ shuffles,
    shuffle.1.isShuffle = true ∧ shuffle.2.length ≤ 3 ∧ ∀ turn ∈ shuffle.2, turn.isShuffle = true := by
  decide

/-- **Stack opcodes agree with their definitions by copying and moving.** On a stack of at most 990 elements,
under any rules and with any checker, an opcode of the table and the script beside it both end well, and on
the same stack, or both fail for want of elements. Which of both it is, and what the stack is, is told by the
effect of the opcode. -/
theorem shuffles_agree (env : Env σ) (m : Machine σ) (hroom : m.stack.length ≤ 990) :
    ∀ shuffle ∈ shuffles,
      (∃ m₁ m₂, evalScript env [shuffle.1.opcode] m = .ok () m₁ ∧
        evalScript env (Turn.script shuffle.2) m = .ok () m₂ ∧
        m₁.stack = m₂.stack ∧ shuffle.1.effect? m.stack = some m₁.stack) ∨
      (∃ m₁ m₂, evalScript env [shuffle.1.opcode] m = .error (.failed .invalidStackOperation) m₁ ∧
        evalScript env (Turn.script shuffle.2) m = .error (.failed .invalidStackOperation) m₂ ∧
        shuffle.1.effect? m.stack = none) := by
  intro shuffle hmem
  obtain ⟨hshuffle, hshort, hturns⟩ := shuffles_fit shuffle hmem
  have hopcode : EndsOn () (evalScript env [shuffle.1.opcode] m) (shuffle.1.effect? m.stack) := by
    have hfold : [Turn.plain shuffle.1].foldlM (fun s turn ↦ turn.effect? s) m.stack =
        shuffle.1.effect? m.stack := bind_pure _
    rw [← hfold]
    exact evalScript_turns (List.forall_mem_singleton.mpr hshuffle) (Nat.le_add_left 1 2) hroom
  have hscript : EndsOn () (evalScript env (Turn.script shuffle.2) m) (shuffle.1.effect? m.stack) := by
    rw [effect?_of_mem_shuffles hmem]
    exact evalScript_turns hturns hshort hroom
  cases heffect : shuffle.1.effect? m.stack with
  | some stack =>
    rw [heffect] at hopcode hscript
    obtain ⟨m₁, hrun₁, rfl⟩ := hopcode
    obtain ⟨m₂, hrun₂, hsame⟩ := hscript
    exact .inl ⟨m₁, m₂, hrun₁, hrun₂, hsame.symm, rfl⟩
  | none =>
    rw [heffect] at hopcode hscript
    obtain ⟨m₁, hfail₁⟩ := hopcode
    obtain ⟨m₂, hfail₂⟩ := hscript
    exact .inr ⟨m₁, m₂, hfail₁, hfail₂, rfl⟩

/-- Six elements are rotated by two; five are not enough, for the opcode and for the moves from depth 5. -/
theorem shuffles_agree_rot2 :
    let run (script : Bytes) (stack : List Bytes) := evalScript wideEnv script (.start stack ())
    let six : List Bytes := [[6], [5], [4], [3], [2], [1]]
    (∃ m₁ m₂, run [0x71] six = .ok () m₁ ∧ run [0x55, 0x7a, 0x55, 0x7a] six = .ok () m₂ ∧
      m₁.stack = [[2], [1], [6], [5], [4], [3]] ∧ m₂.stack = m₁.stack) ∧
    (∃ m₁ m₂, run [0x71] (six.drop 1) = .error (.failed .invalidStackOperation) m₁ ∧
      run [0x55, 0x7a, 0x55, 0x7a] (six.drop 1) = .error (.failed .invalidStackOperation) m₂) := by
  intro run six
  have hmem : (.rot2, [.roll 5, .roll 5]) ∈ shuffles := by decide
  constructor
  · rcases shuffles_agree wideEnv (.start six ()) (by decide) _ hmem with
      ⟨m₁, m₂, hopcode, hscript, hsame, heffect⟩ | ⟨m₁, m₂, -, -, heffect⟩
    · exact ⟨m₁, m₂, hopcode, hscript, (Option.some.inj heffect).symm, hsame.symm⟩
    · cases heffect
  · rcases shuffles_agree wideEnv (.start (six.drop 1) ()) (by decide) _ hmem with
      ⟨m₁, m₂, -, -, -, heffect⟩ | ⟨m₁, m₂, hopcode, hscript, -⟩
    · cases heffect
    · exact ⟨m₁, m₂, hopcode, hscript⟩

end UtxoConsensus
