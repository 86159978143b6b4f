import Mathlib.Tactic.SplitIfs
import UtxoConsensus.Proofs.Interpreter.Counts
import UtxoConsensus.Proofs.Interpreter.ListedBranches
import UtxoConsensus.Proofs.Interpreter.Pushes
import UtxoConsensus.Proofs.Script.Numbers

/-!
# Signature checks and the static count

How many signatures a script may check can be read off its opcodes without running it, and every check is
also an operation that has been counted before. A multisignature is the only case in which the opcode alone
says too little. It stands for as many checks as the number right before it says, if one of the opcodes for
1 to 16 is there. That number is what is on top of the stack when the multisignature runs: no branch begins
or ends between the two, so both are run or both are passed over.
-/

namespace UtxoConsensus

open Exec

variable {σ α β : Type} {env : Env σ} {limit count : Nat} {m m' m'' : Machine σ}

/-! ## Charges -/

/-- Between two machines signatures were checked, within a limit, and each check is one of the operations
that were counted before the limit on operations was reached. -/
def Machine.Charged (limit : Nat) (m m' : Machine σ) : Prop :=
  ∃ checks, m'.sigChecks = m.sigChecks + checks ∧ checks ≤ limit ∧
    m.opCount + checks ≤ m'.opCount ∧ checks ≤ Limit.operations - m.opCount

namespace Machine.Charged

theorem of_sigChecks (hsame : m'.sigChecks = m.sigChecks) (hcount : m.opCount ≤ m'.opCount) :
    Charged limit m m' :=
  ⟨0, hsame, Nat.zero_le _, hcount, Nat.zero_le _⟩

theorem of_counts (h : m'.counts = m.counts) : Charged limit m m' :=
  of_sigChecks (congrArg Prod.snd h) (Nat.le_of_eq (congrArg Prod.fst h).symm)

theorem mono {limit' : Nat} (hlimit : limit ≤ limit') (h : Charged limit m m') : Charged limit' m m' := by
  obtain ⟨checks, hchecks, hle, hcount⟩ := h
  exact ⟨checks, hchecks, Nat.le_trans hle hlimit, hcount⟩

/-- Charges add up. -/
theorem trans {limit' : Nat} (h : Charged limit m m') (h' : Charged limit' m' m'') :
    Charged (limit + limit') m m'' := by
  obtain ⟨checks, hchecks, hle, hcount, hroom⟩ := h
  obtain ⟨checks', hchecks', hle', hcount', hroom'⟩ := h'
  refine ⟨checks + checks', ?_, Nat.add_le_add hle hle', ?_, ?_⟩
  · rw [hchecks', hchecks, Nat.add_assoc]
  · omega
  · omega

/-- What is joined is charged with what its parts are charged with. -/
theorem bind {limit' : Nat} {x : Exec σ α} {f : α → Exec σ β} (hx : m.Charged limit (after (x m)))
    (hf : ∀ a m', x m = .ok a m' → m'.Charged limit' (after (f a m'))) :
    m.Charged (limit + limit') (after ((x >>= f) m)) := by
  cases hr : x m with
  | ok a m' =>
    rw [hr] at hx
    rw [bind_of_ok hr]
    exact hx.trans (hf a m' hr)
  | error e m' =>
    rw [hr] at hx
    rw [bind_of_error hr]
    exact hx.mono (Nat.le_add_right _ _)

theorem bind_keeps {x : Exec σ α} {f : α → Exec σ β} (hx : m.Charged limit (after (x m)))
    (hf : ∀ a, Keeps counts (f a)) : m.Charged limit (after ((x >>= f) m)) := by
  rw [← Nat.add_zero limit]
  exact .bind hx fun a m' _ ↦ .of_counts (hf a m')

/-- What only reads the machine is not charged. -/
theorem read_bind {x : Exec σ α} {f : α → Exec σ β} (hx : Keeps id x)
    (hf : ∀ a, x m = .ok a m → m.Charged limit (after (f a m))) :
    m.Charged limit (after ((x >>= f) m)) := by
  rw [← Nat.zero_add limit]
  refine .bind (.of_counts (congrArg counts (hx m))) fun a m' hr ↦ ?_
  obtain rfl := hx.eq_of_ok hr
  exact hf a hr

end Machine.Charged

/-! ## Operations that pay -/

namespace Exec

/-- A computation counts so many operations, within the limit on them, or fails; it checks no signature. -/
def Pays (count : Nat) (x : Exec σ α) : Prop :=
  ∀ m, match x m with
    | .ok _ m' => m'.sigChecks = m.sigChecks ∧ m'.opCount = m.opCount + count ∧ m'.opCount ≤ Limit.operations
    | .error _ m' => m'.sigChecks = m.sigChecks ∧ m.opCount ≤ m'.opCount

/-- A computation counts no operation, and checks signatures within a limit. -/
def ChecksWithin (limit : Nat) (x : Exec σ α) : Prop :=
  ∀ m, (Machine.after (x m)).opCount = m.opCount ∧
    ∃ checks ≤ limit, (Machine.after (x m)).sigChecks = m.sigChecks + checks

theorem pays_countOperations (count : Nat) : Pays count (Env.countOperations count : Exec σ Unit) := by
  intro m
  by_cases hmany : m.opCount + count > Limit.operations
  · rw [Env.countOperations_of_many hmany]
    exact ⟨rfl, Nat.le_add_right _ _⟩
  · rw [Env.countOperations_of_few hmany]
    exact ⟨rfl, rfl, Nat.le_of_not_lt hmany⟩

/-- Checks that come after as many operations are paid for. -/
theorem Pays.charged_bind {x : Exec σ α} {f : α → Exec σ β} (hx : Pays count x)
    (hf : ∀ a, ChecksWithin count (f a)) (m : Machine σ) :
    m.Charged count (Machine.after ((x >>= f) m)) := by
  have hpaid := hx m
  cases hr : x m with
  | ok a m' =>
    rw [hr] at hpaid
    rw [bind_of_ok hr]
    obtain ⟨hsame, hcount, hroom⟩ := hpaid
    obtain ⟨hcount', checks, hle, hchecks⟩ := hf a m'
    exact ⟨checks, by rw [hchecks, hsame], hle, by omega, by omega⟩
  | error e m' =>
    rw [hr] at hpaid
    rw [bind_of_error hr]
    exact .of_sigChecks hpaid.1 hpaid.2

namespace ChecksWithin

theorem of_keeps {x : Exec σ α} (h : Keeps Machine.counts x) : ChecksWithin limit x :=
  fun m ↦ ⟨congrArg Prod.fst (h m), 0, Nat.zero_le _, congrArg Prod.snd (h m)⟩

theorem mono {limit' : Nat} {x : Exec σ α} (hlimit : limit ≤ limit') (h : ChecksWithin limit x) :
    ChecksWithin limit' x := by
  intro m
  obtain ⟨hcount, checks, hle, hchecks⟩ := h m
  exact ⟨hcount, checks, Nat.le_trans hle hlimit, hchecks⟩

theorem countSigChecks (count : Nat) : ChecksWithin count (Env.countSigChecks count : Exec σ Unit) :=
  fun _ ↦ ⟨rfl, count, Nat.le_refl _, rfl⟩

/-- Parts within limits stay within their sum. -/
theorem bind {limit' : Nat} {x : Exec σ α} {f : α → Exec σ β} (hx : ChecksWithin limit x)
    (hf : ∀ a, (∃ m m', x m = .ok a m') → ChecksWithin limit' (f a)) :
    ChecksWithin (limit + limit') (x >>= f) := by
  intro m
  have hfirst := hx m
  cases hr : x m with
  | ok a m' =>
    rw [hr] at hfirst
    rw [bind_of_ok hr]
    obtain ⟨hcount, checks, hle, hchecks⟩ := hfirst
    obtain ⟨hcount', checks', hle', hchecks'⟩ := hf a ⟨m, m', hr⟩ m'
    refine ⟨hcount'.trans hcount, checks + checks', Nat.add_le_add hle hle', ?_⟩
    rw [hchecks', ← Nat.add_assoc]
    exact congrArg (· + checks') hchecks
  | error e m' =>
    rw [hr] at hfirst
    rw [bind_of_error hr]
    obtain ⟨hcount, checks, hle, hchecks⟩ := hfirst
    exact ⟨hcount, checks, Nat.le_add_right_of_le hle, hchecks⟩

/-- A part that keeps the counts is free. -/
theorem keeps_bind {x : Exec σ α} {f : α → Exec σ β} (hx : Keeps Machine.counts x)
    (hf : ∀ a, (∃ m m', x m = .ok a m') → ChecksWithin limit (f a)) : ChecksWithin limit (x >>= f) := by
  rw [← Nat.zero_add limit]
  exact .bind (of_keeps hx) hf

theorem bind_keeps {x : Exec σ α} {f : α → Exec σ β} (hx : ChecksWithin limit x)
    (hf : ∀ a, Keeps Machine.counts (f a)) : ChecksWithin limit (x >>= f) := by
  rw [← Nat.add_zero limit]
  exact .bind hx fun a _ ↦ of_keeps (hf a)

theorem ite {p : Prop} [Decidable p] {x y : Exec σ α} (hx : ChecksWithin limit x)
    (hy : ChecksWithin limit y) : ChecksWithin limit (if p then x else y) := by
  split
  · exact hx
  · exact hy

end ChecksWithin

end Exec

/-! ## Single signatures -/

/-- A signature counts at most once, good or bad. -/
theorem checksWithin_settle (good : Bool) : ChecksWithin 1 (settle env good) :=
  .bind_keeps (.countSigChecks 1) fun _ ↦ .failIf _ _

theorem checksWithin_checkSig (verify : Bool) : ChecksWithin 1 (executeCheckSig env verify) := by
  refine .keeps_bind (.require 2) fun _ _ ↦ .keeps_bind (.peek 1) fun sig _ ↦ ?_
  refine .keeps_bind (.peek 0) fun key _ ↦ .keeps_bind (.lift _) fun _ _ ↦ .keeps_bind (.lift _) fun _ _ ↦ ?_
  have hlast := keepsCounts_dropAndAnswer (σ := σ) 2 verify .checkSigVerify
  refine .ite (.of_keeps (.bind (.pure _) hlast)) ?_
  refine .keeps_bind (fun _ ↦ rfl) fun m _ ↦ .keeps_bind (.ask _) fun good _ ↦ ?_
  exact .bind_keeps (checksWithin_settle good) fun _ ↦ .bind (.pure good) hlast

theorem checksWithin_checkDataSig (verify : Bool) : ChecksWithin 1 (executeCheckDataSig env verify) := by
  refine .keeps_bind (.require 3) fun _ _ ↦ .keeps_bind (.peek 2) fun sig _ ↦ ?_
  refine .keeps_bind (.peek 1) fun message _ ↦ .keeps_bind (.peek 0) fun key _ ↦ ?_
  refine .keeps_bind (.lift _) fun _ _ ↦ .keeps_bind (.lift _) fun _ _ ↦ ?_
  have hlast := keepsCounts_dropAndAnswer (σ := σ) 3 verify .checkDataSigVerify
  refine .ite (.of_keeps (.bind (.pure _) hlast)) ?_
  refine .keeps_bind (.ask _) fun good _ ↦ ?_
  exact .bind_keeps (checksWithin_settle good) fun _ ↦ .bind (.pure good) hlast

/-! ## Multisignatures -/

theorem keepsCounts_matchInOrder (scriptCode : Bytes) (sigs keys : List Bytes) :
    Keeps Machine.counts (matchInOrder env scriptCode sigs keys) := by
  induction keys generalizing sigs with
  | nil => exact .ite (.pure true) (.throw _)
  | cons key keys ih =>
    cases sigs with
    | nil => exact .pure true
    | cons sig rest =>
      refine .bind (.lift _) fun _ ↦ .bind (.lift _) fun _ ↦ .bind (.ask _) fun good ↦ ?_
      exact .ite (.pure false) (ih _)

/-- As many checks as there are keys. -/
theorem checksWithin_legacyMultisig (keys sigs : List Bytes) :
    ChecksWithin keys.length (legacyMultisig env keys sigs) := by
  refine .keeps_bind (fun _ ↦ rfl) fun m _ ↦ .keeps_bind (keepsCounts_matchInOrder _ _ _) fun good _ ↦ ?_
  refine .keeps_bind (.failIf _ _) fun _ _ ↦ .bind_keeps ?_ fun _ ↦ .pure _
  apply ChecksWithin.mono _ (.countSigChecks _)
  split
  · exact Nat.zero_le _
  · exact Nat.le_refl _

/-- Each signature is checked once. -/
theorem checksWithin_matchChosen (scriptCode : Bytes) (sigs : List Bytes) (bits : Nat) (keys : List Bytes) :
    ChecksWithin sigs.length (matchChosen env scriptCode sigs bits keys) := by
  induction sigs generalizing bits keys with
  | nil => exact .of_keeps (.bind (.failIf _ _) fun _ ↦ .pure true)
  | cons sig sigs ih =>
    refine .keeps_bind (.failIf _ _) fun _ _ ↦ ?_
    split
    · exact .of_keeps (.throw _)
    · refine .keeps_bind (.lift _) fun _ _ ↦ .keeps_bind (.lift _) fun _ _ ↦ ?_
      refine .keeps_bind (.ask _) fun good _ ↦ .keeps_bind (.failIf _ _) fun _ _ ↦ ?_
      rw [List.length_cons, Nat.add_comm]
      exact .bind (.countSigChecks 1) fun _ _ ↦ ih _ _

/-- As many checks as there are signatures. -/
theorem checksWithin_schnorrMultisig (keys sigs : List Bytes) (dummy : Bytes) :
    ChecksWithin sigs.length (schnorrMultisig env keys sigs dummy) := by
  refine .keeps_bind (.lift _) fun bits _ ↦ .keeps_bind (.failIf _ _) fun _ _ ↦ ?_
  refine .keeps_bind (fun _ ↦ rfl) fun m _ ↦ ?_
  rw [← List.length_reverse]
  exact checksWithin_matchChosen _ _ _ _

section Counts

variable {depth bound n : Nat} {e : ScriptError}

theorem keeps_boundedCount {γ : Type} {part : Machine σ → γ} : Keeps part (boundedCount env depth bound e) :=
  .bind (.peek depth) fun _ ↦ .bind (.lift _) fun _ ↦ .bind (.failIf _ _) fun _ ↦ .pure _

/-- A count that was read is within its limit, and is the number that the element denotes. -/
theorem of_boundedCount_eq_ok (h : boundedCount env depth bound e m = .ok n m') :
    n ≤ bound ∧ ∀ b, m.stack[depth]? = some b → n = (ScriptNumber.value b).toNat := by
  obtain ⟨b, m₁, hpeek, h⟩ := exists_of_bind_eq_ok h
  obtain ⟨i, m₂, hnumber, h⟩ := exists_of_bind_eq_ok h
  obtain ⟨u, m₃, hfail, h⟩ := exists_of_bind_eq_ok h
  cases h
  have hrange := false_of_failIf_eq_ok hfail
  rw [Bool.or_eq_false_iff, decide_eq_false_iff_not, decide_eq_false_iff_not, Nat.not_lt] at hrange
  refine ⟨hrange.2, fun top htop ↦ ?_⟩
  change orFault m.stack[depth]? m = _ at hpeek
  rw [htop] at hpeek
  cases hpeek
  rw [ScriptNumber.value_of_decode_eq_ok (eq_ok_of_lift_eq_ok hnumber)]

theorem length_of_peekMany_eq_ok {first : Nat} {elements : List Bytes}
    (h : peekMany first count m = .ok elements m') : elements.length = count := by
  change (if ((m.stack.drop first).take count).length = count then pure _ else throw .fault :
    Exec σ (List Bytes)) m = _ at h
  split at h
  · next hlength =>
    cases h
    exact hlength
  · cases h

/-- After the keys have been counted as operations, there are no more checks than keys. -/
theorem charged_checkMultisig (verify : Bool) (m : Machine σ)
    (hlimit : ∀ keyCount, boundedCount env 0 Script.maxMultisigKeys .pubkeyCount m = .ok keyCount m →
      keyCount ≤ limit) :
    m.Charged limit (Machine.after (executeCheckMultisig env verify m)) := by
  refine .read_bind (.require 1) fun _ _ ↦ .read_bind keeps_boundedCount fun keyCount hkeyCount ↦ ?_
  refine .mono (hlimit keyCount hkeyCount) ((pays_countOperations keyCount).charged_bind (fun _ ↦ ?_) m)
  refine .keeps_bind (.require _) fun _ _ ↦ .keeps_bind keeps_boundedCount fun sigCount hsigCount ↦ ?_
  refine .keeps_bind (.require _) fun _ _ ↦ .keeps_bind (.peekMany _ _) fun keys hkeys ↦ ?_
  refine .keeps_bind (.peekMany _ _) fun sigs hsigs ↦ .keeps_bind (.peek _) fun dummy _ ↦ ?_
  obtain ⟨_, _, hsigCount⟩ := hsigCount
  obtain ⟨_, _, hkeys⟩ := hkeys
  obtain ⟨_, _, hsigs⟩ := hsigs
  have hkeysLength := length_of_peekMany_eq_ok hkeys
  have hsigsLength := length_of_peekMany_eq_ok hsigs
  have hfewer := (of_boundedCount_eq_ok hsigCount).1
  have hlast := keepsCounts_dropAndAnswer (σ := σ) (keyCount + sigCount + 3) verify .checkMultisigVerify
  refine .ite (.bind_keeps ?_ hlast) (.bind_keeps ?_ hlast)
  · exact .mono (hsigsLength ▸ hfewer) (checksWithin_schnorrMultisig keys sigs dummy)
  · exact .mono (Nat.le_of_eq hkeysLength) (checksWithin_legacyMultisig keys sigs)

end Counts

/-! ## Instructions -/

theorem charged_checkLimits (i : Instruction) (m : Machine σ) :
    m.Charged 0 (Machine.after (checkLimits env i m)) := by
  have hcount : m.opCount ≤ Listed.countWith i m.opCount := by
    unfold Listed.countWith
    split
    · exact Nat.le_succ _
    · exact Nat.le_refl _
  rw [Listed.checkLimits_eq_pass]
  rcases Listed.pass_cases env i m with hpass | ⟨e, m', hpass, rfl | rfl, -⟩
  · rw [hpass]
    exact .of_sigChecks rfl hcount
  · rw [hpass]
    exact .of_counts rfl
  · rw [hpass]
    exact .of_sigChecks rfl hcount

/-- What is asked of an instruction before it runs is not charged, and changes nothing on the stack. -/
theorem charged_checkLimits_bind {i : Instruction} {f : Unit → Exec σ α}
    (hf : ∀ m' : Machine σ, m'.stack = m.stack → m'.Charged limit (Machine.after (f () m'))) :
    m.Charged limit (Machine.after ((checkLimits env i >>= f) m)) := by
  rw [← Nat.zero_add limit]
  refine .bind (charged_checkLimits i m) fun _ m' hok ↦ hf m' ?_
  have hstack : (Machine.after (checkLimits env i m)).stack = m.stack :=
    keeps_checkLimits (fun _ _ ↦ rfl) i m
  rwa [hok] at hstack

/-- An instruction that is not a push is paid for before it runs. -/
theorem pays_checkLimits {i : Instruction} (hhigh : i.opcode > Opcode.sixteen) :
    Pays 1 (checkLimits env i) := by
  intro m
  rw [Listed.checkLimits_eq_pass]
  unfold Listed.pass Listed.countWith
  rw [if_pos hhigh]
  dsimp only
  split_ifs with hsize hmany hdisabled
  · exact ⟨rfl, Nat.le_refl _⟩
  · exact ⟨rfl, Nat.le_succ _⟩
  · exact ⟨rfl, Nat.le_succ _⟩
  · exact ⟨rfl, rfl, Nat.le_of_not_lt fun h ↦ hmany ⟨hhigh, h⟩⟩

theorem sixteen_lt_of_checksSignatures {opcode : UInt8}
    (h : (Operation.ofOpcode opcode).checksSignatures = true) : opcode > Opcode.sixteen := by
  revert opcode
  apply Bytes.forall_byte
  decide +kernel

theorem perform_of_sixteen_lt {i : Instruction} (hhigh : i.opcode > Opcode.sixteen) :
    Listed.perform env i = execute env i.rest (Operation.ofOpcode i.opcode) := by
  have hnot : ¬ i.opcode ≤ Opcode.pushData4 := fun hlow ↦
    UInt8.not_lt.mpr (UInt8.le_trans hlow (by decide)) hhigh
  unfold Listed.perform
  rw [if_neg hnot]

theorem keepsCounts_perform {i : Instruction}
    (hfree : (Operation.ofOpcode i.opcode).checksSignatures = false) :
    Keeps Machine.counts (Listed.perform env i) :=
  .ite (keepsCounts_push i) (keepsCounts_execute hfree i.rest)

/-- The number that the previous opcode stands for is on top of the stack, where instructions are run. -/
def Machine.Remembers (m : Machine σ) (conditions : Conditions) (previous : UInt8) : Prop :=
  Opcode.isPositiveNumber previous = true → conditions.allTrue = true →
    m.stack.head? = some [Opcode.smallNumber previous]

/-- A multisignature has no more keys than it stands for after the previous opcode. -/
theorem le_of_boundedCount_of_remembers {conditions : Conditions} {previous : UInt8} {keyCount : Nat}
    (hm : m.Remembers conditions previous) (htaken : conditions.allTrue = true)
    (h : boundedCount env 0 Script.maxMultisigKeys .pubkeyCount m = .ok keyCount m') :
    keyCount ≤ if true && Opcode.isPositiveNumber previous then (Opcode.smallNumber previous).toNat
      else Script.maxMultisigKeys := by
  obtain ⟨hle, hvalue⟩ := of_boundedCount_eq_ok h
  by_cases hnumber : Opcode.isPositiveNumber previous = true
  · have htop : m.stack[0]? = some [Opcode.smallNumber previous] := by
      rw [← List.head?_eq_getElem?]
      exact hm hnumber htaken
    rw [hnumber, Bool.true_and, if_pos rfl, hvalue _ htop,
      ScriptNumber.value_small (Opcode.smallNumber_of_isPositiveNumber hnumber).1.2]
    exact Nat.le_refl _
  · rw [Bool.true_and, if_neg hnumber]
    exact hle

/-- An instruction that is run. -/
theorem charged_perform {conditions : Conditions} {previous : UInt8} (hm : m.Remembers conditions previous)
    (htaken : conditions.allTrue = true) (i : Instruction) :
    m.Charged (Script.sigOpsOf true previous i.opcode)
      (Machine.after ((do checkLimits env i; Listed.perform env i; return conditions) m)) := by
  unfold Script.sigOpsOf
  -- An operation for signatures stands above the pushes, so it is counted itself before its checks are.
  by_cases hchecks : (Operation.ofOpcode i.opcode).checksSignatures = true
  · have hhigh := sixteen_lt_of_checksSignatures hchecks
    rw [perform_of_sixteen_lt hhigh]
    cases hoperation : Operation.ofOpcode i.opcode with
    | checkSig verify =>
      exact (pays_checkLimits hhigh).charged_bind
        (fun _ ↦ .bind_keeps (checksWithin_checkSig verify) fun _ ↦ .pure _) m
    | checkDataSig verify =>
      exact (pays_checkLimits hhigh).charged_bind
        (fun _ ↦ .bind_keeps (checksWithin_checkDataSig verify) fun _ ↦ .pure _) m
    | checkMultisig verify =>
      apply charged_checkLimits_bind
      intro m' hstack
      have hm' : m'.Remembers conditions previous := by
        unfold Machine.Remembers
        rwa [hstack]
      refine .bind_keeps (charged_checkMultisig verify m' fun keyCount hcount ↦ ?_) fun _ ↦ .pure _
      exact le_of_boundedCount_of_remembers hm' htaken hcount
    | _ =>
      rw [hoperation] at hchecks
      cases hchecks
  · rw [Bool.not_eq_true] at hchecks
    exact charged_checkLimits_bind fun m' _ ↦
      .of_counts ((Keeps.bind (keepsCounts_perform hchecks) fun _ ↦ .pure conditions) m')

/-- An instruction is charged what the count of the script has for it. -/
theorem charged_step {conditions : Conditions} {previous : UInt8} (hm : m.Remembers conditions previous)
    (i : Instruction) :
    m.Charged (Script.sigOpsOf true previous i.opcode) (Machine.after (step env conditions i m)) := by
  cases hop : BranchOp.ofOpcode? i.opcode with
  | some op =>
    have hoperation := (Operation.ofOpcode_eq_branch_iff i.opcode op).mpr hop
    unfold step stepWith
    simp only [if_neg (BranchOp.not_le_pushData4 hop), hoperation]
    exact charged_checkLimits_bind fun m' _ ↦ .of_counts (keepsCounts_branch conditions op m')
  | none =>
    rw [Listed.step_of_not_branch env hop]
    by_cases htaken : conditions.allTrue = true
    · rw [if_pos htaken]
      exact charged_perform hm htaken i
    · rw [if_neg htaken]
      exact charged_checkLimits_bind fun m' _ ↦ .of_counts rfl

theorem remembers_step {conditions conditions' : Conditions} {i : Instruction}
    (h : step env conditions i m = .ok conditions' m') : m'.Remembers conditions' i.opcode := by
  intro hnumber htaken
  have hoperation := Operation.ofOpcode_of_isPositiveNumber hnumber
  have hsmall := (Opcode.smallNumber_of_isPositiveNumber hnumber).1
  obtain ⟨hone, hle⟩ := Bool.and_eq_true_iff.mp hnumber
  rw [decide_eq_true_eq] at hone hle
  -- A number leaves the branches as they are, so it is pushed exactly if it was in a taken branch.
  by_cases hbefore : conditions.allTrue = true
  · rw [step_of_le_sixteen hle hbefore] at h
    obtain ⟨b, m₁, hpushed, h⟩ := exists_of_bind_eq_ok h
    cases h
    change some b = some [Opcode.smallNumber i.opcode]
    obtain ⟨-, ⟨hlow, -⟩ | ⟨-, n, hn, rfl⟩⟩ :=
      Instruction.cases_of_pushed_eq_ok (eq_ok_of_lift_eq_ok hpushed)
    · exact absurd (UInt8.le_trans hone hlow) (by decide)
    · rw [hoperation] at hn
      cases hn
      rw [ScriptNumber.encode_small hsmall.1 hsmall.2]
  · have hop : BranchOp.ofOpcode? i.opcode = none := by
      rw [Option.eq_none_iff_forall_ne_some]
      intro op hop
      rw [← Operation.ofOpcode_eq_branch_iff, hoperation] at hop
      cases hop
    rw [Listed.step_of_not_branch env hop, if_neg hbefore] at h
    obtain ⟨_, _, -, h⟩ := exists_of_bind_eq_ok h
    cases h
    exact absurd htaken hbefore

/-- By induction on the instructions, with the opcode before them. -/
theorem charged_runInstructions {conditions : Conditions} {previous : UInt8}
    (hm : m.Remembers conditions previous) (instructions : List Instruction) :
    m.Charged (Script.countSigOps true previous (instructions.map Instruction.opcode))
      (Machine.after (runInstructions env conditions instructions m)) := by
  induction instructions generalizing conditions previous m with
  | nil => exact .of_counts rfl
  | cons i rest ih =>
    refine .bind (charged_step hm i) fun conditions' m' hstep ↦ ?_
    refine .read_bind (fun _ ↦ rfl) fun m'' _ ↦ .read_bind (.failIf _ _) fun _ _ ↦ ?_
    exact ih (remembers_step hstep)

/-! ## Scripts -/

/-- However a script ends, it has checked no more signatures than its opcodes stand for, and no more than
the limit on operations allows. -/
theorem evalScript_sigChecks_le (env : Env σ) (script : Bytes) (m : Machine σ) :
    ∃ checks, (Machine.after (evalScript env script m)).sigChecks = m.sigChecks + checks ∧
      checks ≤ Script.sigOpCount script true ∧ checks ≤ Limit.operations := by
  by_cases hsize : script.length > Script.maxSize
  · unfold evalScript
    rw [decide_eq_true hsize]
    exact ⟨0, rfl, Nat.zero_le _, Nat.zero_le _⟩
  · have hstart : (m.enter script).Remembers .none 0xff := fun hnumber ↦ absurd hnumber (by decide)
    have hrun : (m.enter script).Charged (Script.sigOpCount script true)
        (Machine.after (evalScript env script m)) := by
      rw [evalScript_of_length_le (Nat.le_of_not_lt hsize)]
      refine .bind_keeps (charged_runInstructions hstart _) fun conditions ↦ ?_
      exact .bind (.failIf _ _) fun _ ↦ .failIf _ _
    obtain ⟨checks, hchecks, hle, -, hroom⟩ := hrun
    exact ⟨checks, hchecks, hle, hroom⟩

end UtxoConsensus
