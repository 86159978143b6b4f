import Mathlib.Data.List.InsertIdx
import UtxoConsensus.Interpreter.Verify
import UtxoConsensus.Proofs.Interpreter.Runs
import UtxoConsensus.Proofs.Script.Numbers

/-!
# Steps that cannot fault

A step of the script machine faults if it uses something that is not there. `Exec.NeverFaults` says of a
computation that it does not, given how many elements there are when it starts, and also what it returns
and how many elements it leaves. Each step that the interpreter is made of has a rule here, with what it
needs as a hypothesis, and `NeverFaults.bind` joins the rules: what one step leaves is what the next one
has. So the checks that an opcode makes first are exactly what its other steps need.
-/

namespace UtxoConsensus

variable {σ α β : Type}

namespace Exec

/-- A result that is no fault: what is returned has a property, and there are as many elements as it
asks for, or the script has failed. -/
def EndsWell (returns : α → Prop) (leaves : α → Nat) :
    EStateM.Result Halt (Machine σ) α → Prop
  | .ok a m => returns a ∧ leaves a ≤ m.stack.length
  | .error halt _ => halt ≠ .fault

/-- A computation never faults where it starts on at least as many elements as it needs. -/
def NeverFaults (needs : Nat) (x : Exec σ α) (returns : α → Prop := fun _ ↦ True)
    (leaves : α → Nat := fun _ ↦ 0) : Prop :=
  ∀ m, needs ≤ m.stack.length → EndsWell returns leaves (x m)

variable {n k : Nat} {p : α → Prop} {q : β → Prop} {l : α → Nat} {l' : β → Nat}

namespace NeverFaults

theorem ne_fault {x : Exec σ α} (h : NeverFaults n x p l) {m : Machine σ} (hm : n ≤ m.stack.length)
    (m' : Machine σ) : x m ≠ .error .fault m' := by
  intro hx
  have hend := h m hm
  rw [hx] at hend
  exact hend rfl

/-! ## Joined computations -/

/-- The second part may rely on what the first part ensures, and on the elements that it leaves. -/
theorem bind {x : Exec σ α} {f : α → Exec σ β} (hx : NeverFaults n x p l)
    (hf : ∀ a, p a → NeverFaults (l a) (f a) q l') : NeverFaults n (x >>= f) q l' := by
  intro m hm
  have hfirst := hx m hm
  cases hr : x m with
  | ok a m' =>
    rw [hr] at hfirst
    rw [bind_of_ok hr]
    exact hf a hfirst.1 m' hfirst.2
  | error halt m' =>
    rw [hr] at hfirst
    rw [bind_of_error hr]
    exact hfirst

theorem pure {a : α} (ha : p a) (hl : l a ≤ n) : NeverFaults n (pure a : Exec σ α) p l :=
  fun _ hm ↦ ⟨ha, Nat.le_trans hl hm⟩

theorem done (a : α) : NeverFaults n (Pure.pure a : Exec σ α) :=
  .pure trivial (Nat.zero_le n)

theorem fail (e : ScriptError) : NeverFaults n (fail e : Exec σ α) p l := fun _ _ ↦ nofun

theorem ite {c : Prop} [Decidable c] {x y : Exec σ α} (hx : c → NeverFaults n x p l)
    (hy : ¬ c → NeverFaults n y p l) : NeverFaults n (if c then x else y) p l := by
  by_cases hc : c
  · rw [if_pos hc]
    exact hx hc
  · rw [if_neg hc]
    exact hy hc

theorem get : NeverFaults n (get : Exec σ (Machine σ)) (fun m ↦ n ≤ m.stack.length)
    fun m ↦ m.stack.length :=
  fun _ hm ↦ ⟨hm, Nat.le_refl _⟩

theorem modify {f : Machine σ → Machine σ} (hf : ∀ m, n ≤ m.stack.length → k ≤ (f m).stack.length) :
    NeverFaults n (modify f : Exec σ Unit) (fun _ ↦ True) fun _ ↦ k :=
  fun m hm ↦ ⟨trivial, hf m hm⟩

/-- Less is ensured than holds. -/
theorem weaken {x : Exec σ α} {p' : α → Prop} {k : α → Nat} (hx : NeverFaults n x p l)
    (hp : ∀ a, p a → p' a) (hl : ∀ a, k a ≤ l a) : NeverFaults n x p' k := by
  intro m hm
  have hend := hx m hm
  cases hr : x m with
  | ok a m' =>
    rw [hr] at hend
    exact ⟨hp a hend.1, Nat.le_trans (hl a) hend.2⟩
  | error halt m' =>
    rw [hr] at hend
    exact hend

theorem any {x : Exec σ α} (hx : NeverFaults n x p l) : NeverFaults n x :=
  hx.weaken (fun _ _ ↦ trivial) fun _ ↦ Nat.zero_le _

/-! ## Checks -/

theorem failIf (b : Bool) (e : ScriptError) :
    NeverFaults n (failIf b e : Exec σ Unit) (fun _ ↦ b = false) fun _ ↦ n := by
  cases b with
  | true => exact .fail e
  | false => exact .pure rfl (Nat.le_refl n)

theorem lift (r : Except ScriptError α) :
    NeverFaults n (lift r : Exec σ α) (fun a ↦ r = .ok a) fun _ ↦ n := by
  cases r with
  | ok a => exact .pure rfl (Nat.le_refl n)
  | error e => exact .fail e

theorem orFault {o : Option α} (h : o ≠ none) :
    NeverFaults n (orFault o : Exec σ α) (fun a ↦ o = some a) fun _ ↦ n := by
  cases o with
  | none => exact absurd rfl h
  | some a => exact .pure rfl (Nat.le_refl n)

theorem difference {a b : Nat} (h : b ≤ a) :
    NeverFaults n (difference a b : Exec σ Nat) (fun d ↦ d = a - b) fun _ ↦ n := by
  unfold Exec.difference
  rw [if_pos h]
  exact .pure rfl (Nat.le_refl n)

/-- After the check so many elements are there. -/
theorem require (k : Nat) :
    NeverFaults n (require k : Exec σ Unit) (fun _ ↦ True) fun _ ↦ k := by
  refine .bind .get fun m _ ↦ ?_
  by_cases hk : m.stack.length < k
  · rw [decide_eq_true hk]
    exact .fail _
  · rw [decide_eq_false hk]
    exact .pure trivial (Nat.le_of_not_lt hk)

/-! ## The stack -/

theorem peek {depth : Nat} (h : depth < n) :
    NeverFaults n (peek depth : Exec σ Bytes) (fun _ ↦ True) fun _ ↦ n := by
  intro m hm
  have hget : m.stack[depth]? = some m.stack[depth] := List.getElem?_eq_getElem _
  change EndsWell _ _ (Exec.orFault m.stack[depth]? m)
  rw [hget]
  exact ⟨trivial, hm⟩

theorem peekMany {depth count : Nat} (h : depth + count ≤ n) :
    NeverFaults n (peekMany depth count : Exec σ (List Bytes)) (fun elements ↦ elements.length = count)
      fun _ ↦ n := by
  refine .bind .get fun m hm ↦ ?_
  have hlength : ((m.stack.drop depth).take count).length = count := by
    rw [List.length_take, List.length_drop]
    omega
  dsimp only
  rw [if_pos hlength]
  exact .pure hlength hm

theorem push (b : Bytes) : NeverFaults n (push b : Exec σ Unit) (fun _ ↦ True) fun _ ↦ n + 1 :=
  .modify fun _ hm ↦ Nat.succ_le_succ hm

/-- One element less is left, or the pop is an error. -/
theorem pop : NeverFaults n (pop : Exec σ Bytes) (fun _ ↦ True) fun _ ↦ n - 1 := by
  refine .bind .get fun m hm ↦ ?_
  cases hstack : m.stack with
  | nil => exact .fail _
  | cons top rest =>
    rw [hstack] at hm
    exact .bind (.modify (k := n - 1) fun _ _ ↦ Nat.pred_le_pred hm) fun _ _ ↦
      .pure trivial (Nat.le_refl _)

theorem drop (count : Nat) :
    NeverFaults n (drop count : Exec σ Unit) (fun _ ↦ True) fun _ ↦ n - count := by
  refine .modify fun m hm ↦ ?_
  rw [List.length_drop]
  exact Nat.sub_le_sub_right hm count

theorem removeAt {depth : Nat} (h : depth < n) :
    NeverFaults n (removeAt depth : Exec σ Bytes) (fun _ ↦ True) fun _ ↦ n - 1 := by
  refine .bind (.peek h) fun b _ ↦ .bind (.modify (k := n - 1) fun m hm ↦ ?_)
    fun _ _ ↦ .pure trivial (Nat.le_refl _)
  rw [List.length_eraseIdx]
  split
  · exact Nat.sub_le_sub_right hm 1
  · omega

theorem exchange {i j : Nat} (hi : i < n) (hj : j < n) :
    NeverFaults n (exchange i j : Exec σ Unit) (fun _ ↦ True) fun _ ↦ n := by
  refine .bind (.peek hi) fun _ _ ↦ .bind (.peek hj) fun _ _ ↦ .modify fun m hm ↦ ?_
  rwa [List.length_set, List.length_set]

theorem insertAt {depth : Nat} (h : depth ≤ n) (b : Bytes) :
    NeverFaults n (insertAt depth b : Exec σ Unit) := by
  refine .bind .get fun m hm ↦ ?_
  rw [if_pos (Nat.le_trans h hm)]
  exact .any (.modify (k := 0) fun _ _ ↦ Nat.zero_le _)

/-! ## Numbers -/

theorem word {i : Int} (h : Int64.minValue.toInt ≤ i ∧ i ≤ Int64.maxValue.toInt) :
    NeverFaults n (word i : Exec σ Int) (fun r ↦ r = i) fun _ ↦ n := by
  unfold Exec.word
  rw [if_pos h]
  exact .pure rfl (Nat.le_refl n)

theorem pushNumber {i : Int} (h : Int64.minValue.toInt ≤ i ∧ i ≤ Int64.maxValue.toInt) :
    NeverFaults n (pushNumber i : Exec σ Unit) :=
  .bind (.word h) fun _ _ ↦ .any (.push _)

theorem pushCount (count : Nat) : NeverFaults n (pushCount count : Exec σ Unit) :=
  .pushNumber ⟨Int64.minValue_le_toInt _, Int64.toInt_le _⟩

theorem pushBool (b : Bool) : NeverFaults n (pushBool b : Exec σ Unit) := .any (.push _)

theorem answer (verify : Bool) (e : ScriptError) (result : Bool) :
    NeverFaults n (answer verify e result : Exec σ Unit) :=
  .ite (fun _ ↦ .any (.failIf _ e)) fun _ ↦ .pushBool result

/-! ## Steps that leave the stack alone -/

theorem countSigChecks (count : Nat) :
    NeverFaults n (Env.countSigChecks count : Exec σ Unit) (fun _ ↦ True) fun _ ↦ n :=
  .modify fun _ hm ↦ hm

theorem countOperations (count : Nat) :
    NeverFaults n (Env.countOperations count : Exec σ Unit) (fun _ ↦ True) fun _ ↦ n := by
  refine .bind (.modify (k := n) fun _ hm ↦ hm) fun _ _ ↦ .bind .get fun m hm ↦ ?_
  by_cases hmany : m.opCount > Limit.operations
  · rw [decide_eq_true hmany]
    exact .fail _
  · rw [decide_eq_false hmany]
    exact .pure trivial hm

theorem ask (question : StateM σ α) :
    NeverFaults n (Env.ask question : Exec σ α) (fun _ ↦ True) fun _ ↦ n :=
  fun _ hm ↦ ⟨trivial, hm⟩

end NeverFaults

end Exec

end UtxoConsensus
