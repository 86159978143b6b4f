import Mathlib.Data.List.Forall2
import Mathlib.Data.List.OfFn
import Mathlib.Order.Monotone.Basic
import UtxoConsensus.Interpreter.Verify
import UtxoConsensus.Proofs.Interpreter.Runs

/-!
# Signatures matched with keys in order

A multisignature of the old kind tries each key once, against the first signature that is left, and gives
up when more signatures are left than keys. It never goes back to a key. Nothing is lost by that: in an
assignment of signatures to keys the first signature can be moved to the first key under which it is good,
and the others stay where they are. So the loop finds an assignment whenever there is one, whatever pairs
of signatures and keys are good.
-/

namespace UtxoConsensus

open Exec

variable {σ : Type} {env : Env σ} {good : Bytes → Bytes → Bool} {sigs keys : List Bytes}

/-! ## Assignments -/

/-- The signatures can be assigned to as many keys, in the same order, so that each is good under its
key. -/
def HasAssignment (good : Bytes → Bytes → Bool) (sigs keys : List Bytes) : Prop :=
  ∃ place : Fin sigs.length → Fin keys.length, StrictMono place ∧ ∀ j, good sigs[j] keys[place j] = true

/-- Tries each key against the first signature that is left. -/
def assignable (good : Bytes → Bytes → Bool) : (sigs keys : List Bytes) → Bool
  | [], _ => true
  | _ :: _, [] => false
  | sig :: rest, key :: keys =>
    if good sig key then assignable good rest keys else assignable good (sig :: rest) keys

/-- Keys that are assigned in order form a sublist. -/
theorem hasAssignment_iff_sublist :
    HasAssignment good sigs keys ↔ List.SublistForall₂ (fun sig key ↦ good sig key = true) sigs keys := by
  rw [List.sublistForall₂_iff]
  constructor
  · rintro ⟨place, hmono, hgood⟩
    refine ⟨(List.ofFn place).map (keys[·]), List.forall₂_iff_get.mpr ⟨by simp, ?_⟩, ?_⟩
    · intro i hsig hkey
      have h := hgood ⟨i, hsig⟩
      simpa using h
    · exact List.map_getElem_sublist (List.pairwise_ofFn.mpr fun i j hij ↦ hmono hij)
  · rintro ⟨chosen, hgood, hsublist⟩
    obtain ⟨places, rfl, hsorted⟩ := List.sublist_eq_map_getElem hsublist
    obtain ⟨hlength, hgood⟩ := List.forall₂_iff_get.mp hgood
    rw [List.length_map] at hlength
    refine ⟨fun j ↦ places[j], fun i j hij ↦ ?_, fun j ↦ ?_⟩
    · exact List.pairwise_iff_getElem.mp hsorted _ _ _ _ hij
    · have h := hgood j j.isLt (by rw [List.length_map, ← hlength]; exact j.isLt)
      simpa using h

namespace HasAssignment

variable {sig key : Bytes} {rest : List Bytes}

theorem nil : HasAssignment good [] keys :=
  hasAssignment_iff_sublist.mpr .nil

theorem length_le (h : HasAssignment good sigs keys) : sigs.length ≤ keys.length := by
  obtain ⟨chosen, hgood, hsublist⟩ := List.sublistForall₂_iff.mp (hasAssignment_iff_sublist.mp h)
  rw [hgood.length_eq]
  exact hsublist.length_le

/-- A signature that is left out leaves its key free. -/
theorem of_cons (h : HasAssignment good (sig :: rest) keys) : HasAssignment good rest keys := by
  rw [hasAssignment_iff_sublist, List.sublistForall₂_iff] at h ⊢
  obtain ⟨chosen, hgood, hsublist⟩ := h
  cases hgood with
  | cons _ hrest => exact ⟨_, hrest, (List.sublist_cons_self _ _).trans hsublist⟩

/-- A signature that is good under the first key can as well be assigned to it: the key that it has in
an assignment lies before those of the other signatures, and is not needed for them. -/
theorem cons_iff_of_good (h : good sig key = true) :
    HasAssignment good (sig :: rest) (key :: keys) ↔ HasAssignment good rest keys := by
  constructor
  · intro hassigned
    rw [hasAssignment_iff_sublist] at hassigned
    cases hassigned with
    | cons _ hrest => exact hasAssignment_iff_sublist.mpr hrest
    | cons_right hlater => exact (hasAssignment_iff_sublist.mpr hlater).of_cons
  · intro hrest
    rw [hasAssignment_iff_sublist] at hrest ⊢
    exact .cons h hrest

/-- A key under which the first signature is not good is of no use to any signature. -/
theorem cons_iff_of_bad (h : ¬ good sig key = true) :
    HasAssignment good (sig :: rest) (key :: keys) ↔ HasAssignment good (sig :: rest) keys := by
  rw [hasAssignment_iff_sublist, hasAssignment_iff_sublist]
  constructor
  · intro hassigned
    cases hassigned with
    | cons hgood _ => exact absurd hgood h
    | cons_right hlater => exact hlater
  · exact .cons_right

end HasAssignment

/-- Trying each key once finds an assignment if there is one. The induction is on the keys. -/
theorem assignable_iff : assignable good sigs keys = true ↔ HasAssignment good sigs keys := by
  induction keys generalizing sigs with
  | nil =>
    cases sigs with
    | nil => exact iff_of_true rfl .nil
    | cons sig rest =>
      apply iff_of_false
      · exact Bool.false_ne_true
      · exact fun h ↦ Nat.not_succ_le_zero _ h.length_le
  | cons key keys ih =>
    cases sigs with
    | nil => exact iff_of_true rfl .nil
    | cons sig rest =>
      unfold assignable
      by_cases h : good sig key = true
      · rw [if_pos h, HasAssignment.cons_iff_of_good h]
        exact ih
      · rw [if_neg h, HasAssignment.cons_iff_of_bad h]
        exact ih

instance : Decidable (HasAssignment good sigs keys) :=
  decidable_of_iff _ assignable_iff

example : HasAssignment (· == ·) [[2], [2], [3]] [[1], [2], [3], [2], [3]] ∧
    ¬ HasAssignment (· == ·) [[3], [2]] [[1], [2], [3]] := by decide

/-! ## Checkers that answer by a predicate -/

/-- Whether a signature signs the transaction under a key is settled by a predicate, whatever else the
checker keeps. -/
def Checker.JudgesBy (k : Checker σ) (accepts : Bytes → Bytes → Bytes → ScriptFlags → Bool) : Prop :=
  ∀ sig key scriptCode flags state,
    ((k.checkSig sig key scriptCode flags).run state).1 = accepts sig key scriptCode flags

variable {accepts : Bytes → Bytes → Bytes → ScriptFlags → Bool}

theorem Checker.JudgesBy.ask_eq {k : Checker σ} (h : k.JudgesBy accepts) (sig key scriptCode : Bytes)
    (flags : ScriptFlags) (m : Machine σ) :
    ∃ world, Env.ask (k.checkSig sig key scriptCode flags) m =
      .ok (accepts sig key scriptCode flags) { m with world } := by
  rw [← h sig key scriptCode flags m.world]
  exact ⟨_, rfl⟩

/-! ## The loop -/

/-- One round of the loop, where the signature and the key are well formed. -/
theorem matchInOrder_cons {sig key : Bytes} {rest : List Bytes}
    (hsig : Encoding.checkTransactionEcdsa env.flags sig = .ok ())
    (hkey : Encoding.checkPublicKey env.flags key = .ok ()) (scriptCode : Bytes) :
    matchInOrder env scriptCode (sig :: rest) (key :: keys) = (do
      let good ← Env.ask (env.checker.checkSig sig key scriptCode env.flags)
      let left := if good then rest else sig :: rest
      if left.length > keys.length then pure false else matchInOrder env scriptCode left keys) := by
  rw [matchInOrder, hsig, hkey]
  rfl

/-- The loop finds an assignment if there is one, and changes nothing but the state of the checker. -/
theorem matchInOrder_eq_ok (hchecker : env.checker.JudgesBy accepts) (scriptCode : Bytes)
    (hcount : sigs.length ≤ keys.length)
    (hsigs : ∀ sig ∈ sigs, Encoding.checkTransactionEcdsa env.flags sig = .ok ())
    (hkeys : ∀ key ∈ keys, Encoding.checkPublicKey env.flags key = .ok ()) (m : Machine σ) :
    ∃ world, matchInOrder env scriptCode sigs keys m =
      .ok (HasAssignment (accepts · · scriptCode env.flags) sigs keys) { m with world } := by
  induction keys generalizing sigs m with
  | nil =>
    obtain rfl := List.length_eq_zero_iff.mp (Nat.le_zero.mp hcount)
    exact ⟨m.world, by rw [decide_eq_true HasAssignment.nil]; rfl⟩
  | cons key keys ih =>
    rw [List.forall_mem_cons] at hkeys
    cases sigs with
    | nil => exact ⟨m.world, by rw [decide_eq_true HasAssignment.nil]; rfl⟩
    | cons sig rest =>
      rw [List.forall_mem_cons] at hsigs
      rw [List.length_cons, List.length_cons, Nat.succ_le_succ_iff] at hcount
      obtain ⟨world, hask⟩ := hchecker.ask_eq sig key scriptCode env.flags m
      rw [matchInOrder_cons hsigs.1 hkeys.1, bind_of_ok hask]
      by_cases hgood : accepts sig key scriptCode env.flags = true
      · rw [decide_eq_decide.mpr (HasAssignment.cons_iff_of_good hgood), hgood, if_pos rfl,
          if_neg (Nat.not_lt.mpr hcount)]
        exact ih hcount hsigs.2 hkeys.2 _
      · rw [decide_eq_decide.mpr (HasAssignment.cons_iff_of_bad hgood), if_neg hgood]
        by_cases hfew : (sig :: rest).length > keys.length
        · rw [if_pos hfew, decide_eq_false fun h ↦ Nat.not_le.mpr hfew h.length_le]
          exact ⟨world, rfl⟩
        · rw [if_neg hfew]
          exact ih (Nat.le_of_not_lt hfew) (List.forall_mem_cons.mpr hsigs) hkeys.2 _

/-! ## Multisignatures -/

theorem all_isEmpty_eq (sigs : List Bytes) :
    sigs.all List.isEmpty = !decide (∃ sig ∈ sigs, sig ≠ []) := by
  rw [Bool.eq_iff_iff, List.all_eq_true]
  simp

/-- What follows from the answer of the loop. -/
theorem legacyMultisig_of_matchInOrder {m m' : Machine σ} {answer : Bool}
    (h : matchInOrder env (sigs.foldl (cleanScriptCode env.flags) m.scriptCode) sigs keys m =
      .ok answer m') :
    legacyMultisig env keys sigs m =
      let sigChecks := m'.sigChecks + if ∃ sig ∈ sigs, sig ≠ [] then keys.length else 0
      if answer = true then .ok true { m' with sigChecks }
      else if env.has .nullFail = true ∧ ∃ sig ∈ sigs, sig ≠ [] then .error (.failed .sigNullFail) m'
      else .ok false { m' with sigChecks } := by
  change (matchInOrder env _ sigs keys >>= _) m = _
  rw [bind_of_ok h, all_isEmpty_eq]
  by_cases hsome : ∃ sig ∈ sigs, sig ≠ []
  · rw [decide_eq_true hsome]
    cases answer <;> cases env.has .nullFail <;> simp [hsome] <;> rfl
  · rw [decide_eq_false hsome]
    cases answer <;> cases env.has .nullFail <;> simp [hsome] <;> rfl

/-- A multisignature of the old kind, where all signatures and keys are well formed, is good if and only if
there is an assignment; otherwise it fails where a failed signature had to be empty. Each key counts as a
check as long as some signature is not empty. -/
theorem legacyMultisig_findsAssignment (hchecker : env.checker.JudgesBy accepts)
    (hcount : sigs.length ≤ keys.length)
    (hsigs : ∀ sig ∈ sigs, Encoding.checkTransactionEcdsa env.flags sig = .ok ())
    (hkeys : ∀ key ∈ keys, Encoding.checkPublicKey env.flags key = .ok ()) (m : Machine σ) :
    let scriptCode := sigs.foldl (cleanScriptCode env.flags) m.scriptCode
    let sigChecks := m.sigChecks + if ∃ sig ∈ sigs, sig ≠ [] then keys.length else 0
    ∃ world, legacyMultisig env keys sigs m =
      if HasAssignment (accepts · · scriptCode env.flags) sigs keys then .ok true { m with world, sigChecks }
      else if env.has .nullFail = true ∧ ∃ sig ∈ sigs, sig ≠ [] then
        .error (.failed .sigNullFail) { m with world }
      else .ok false { m with world, sigChecks } := by
  intro scriptCode sigChecks
  obtain ⟨world, hmatch⟩ := matchInOrder_eq_ok hchecker scriptCode hcount hsigs hkeys m
  refine ⟨world, ?_⟩
  rw [legacyMultisig_of_matchInOrder hmatch]
  simp only [decide_eq_true_eq]
  rfl

/-- A checker for which a signature signs under the key that it equals. -/
def literalEnv : Env Unit where
  checker := { Checker.base with checkSig := fun sig key _ _ ↦ return sig == key }
  flags := .nullFail

theorem literalEnv_judgesBy : literalEnv.checker.JudgesBy fun sig key _ _ ↦ sig == key :=
  fun _ _ _ _ _ ↦ rfl

/-- Two signatures for four keys, the first and the third of which are passed over. -/
theorem legacyMultisig_findsAssignment_passedOver :
    literalEnv.checker.JudgesBy (fun sig key _ _ ↦ sig == key) ∧
      ([[2], [3]] : List Bytes).length ≤ ([[1], [2], [4], [3]] : List Bytes).length ∧
      (∀ sig ∈ [[2], [3]], Encoding.checkTransactionEcdsa literalEnv.flags sig = .ok ()) ∧
      (∀ key ∈ [[1], [2], [4], [3]], Encoding.checkPublicKey literalEnv.flags key = .ok ()) ∧
      ∃ world, legacyMultisig literalEnv [[1], [2], [4], [3]] [[2], [3]] (.start [] ()) =
        .ok true { Machine.start [] () with world, sigChecks := 4 } := by
  have hsigs : ∀ sig ∈ [[2], [3]], Encoding.checkTransactionEcdsa literalEnv.flags sig = .ok () := by decide
  have hkeys : ∀ key ∈ [[1], [2], [4], [3]], Encoding.checkPublicKey literalEnv.flags key = .ok () := by
    decide
  obtain ⟨world, hrun⟩ := legacyMultisig_findsAssignment literalEnv_judgesBy (by decide) hsigs hkeys
    (.start [] ())
  rw [if_pos (by decide)] at hrun
  exact ⟨literalEnv_judgesBy, by decide, hsigs, hkeys, world, hrun⟩

end UtxoConsensus
