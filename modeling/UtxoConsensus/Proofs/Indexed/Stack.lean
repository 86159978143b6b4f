import UtxoConsensus.Proofs.Indexed.Machine

/-!
# Rearranging by positions

The opcodes that rearrange the stack, on a vector that grows at its end. They copy, cut out, exchange, remove
and insert what lies at positions counted back from its length. A list that is turned over has its elements
at these positions, so that each of these steps is one on the list from the top.
-/

namespace UtxoConsensus.Indexed

open Exec

variable {σ α : Type} {m : Machine σ}

/-! ## Lists that are turned over -/

section

variable {elements : List α} {depth : Nat}

/-- A block of elements, counted from the bottom. -/
theorem slice?_reverse {count : Nat} (h : depth + count ≤ elements.length) :
    slice? elements.reverse (elements.length - (depth + count)) (elements.length - depth) =
      some ((elements.drop depth).take count).reverse := by
  have hkept : elements.length - (elements.length - depth) = depth := by omega
  rw [slice?_of_le (by omega) (by rw [List.length_reverse]; omega), List.take_reverse, hkept, List.drop_reverse,
    List.length_drop]
  congr 3
  omega

theorem set_reverse (h : depth < elements.length) (a : α) :
    elements.reverse.set (elements.length - (depth + 1)) a = (elements.set depth a).reverse := by
  have habove : elements.length - (elements.length - (depth + 1)) = depth + 1 := by omega
  have hbelow : elements.length - (elements.length - (depth + 1) + 1) = depth := by omega
  rw [List.set_eq_take_append_cons_drop, if_pos (by rw [List.length_reverse]; omega), List.take_reverse,
    List.drop_reverse, habove, hbelow, List.set_eq_take_append_cons_drop, if_pos h, List.reverse_append,
    List.reverse_cons, List.append_assoc]
  rfl

theorem eraseIdx_reverse (h : depth < elements.length) :
    elements.reverse.eraseIdx (elements.length - (depth + 1)) = (elements.eraseIdx depth).reverse := by
  have habove : elements.length - (elements.length - (depth + 1)) = depth + 1 := by omega
  have hbelow : elements.length - (elements.length - (depth + 1) + 1) = depth := by omega
  rw [List.eraseIdx_eq_take_drop_succ, List.take_reverse, List.drop_reverse, habove, hbelow,
    List.eraseIdx_eq_take_drop_succ, List.reverse_append]

theorem insertIdx_eq_take_cons_drop (h : depth ≤ elements.length) (a : α) :
    elements.insertIdx depth a = elements.take depth ++ a :: elements.drop depth := by
  induction depth generalizing elements with
  | zero => rfl
  | succ depth ih =>
    cases elements with
    | nil => exact absurd h (Nat.not_succ_le_zero depth)
    | cons first rest =>
      rw [List.insertIdx_succ_cons, ih (Nat.le_of_succ_le_succ h)]
      rfl

theorem insertIdx_reverse (h : depth ≤ elements.length) (a : α) :
    elements.reverse.insertIdx (elements.length - depth) a = (elements.insertIdx depth a).reverse := by
  have hkept : elements.length - (elements.length - depth) = depth := by omega
  rw [insertIdx_eq_take_cons_drop (by rw [List.length_reverse]; omega), List.take_reverse, List.drop_reverse, hkept,
    insertIdx_eq_take_cons_drop h, List.reverse_append, List.reverse_cons, List.append_assoc]
  rfl

end

/-! ## Steps on positions -/

/-- Copies the elements from one position up to another to the end. -/
def extendFromWithin (start stop : Nat) : Exec σ Unit := do
  let elements := (← get).stack.reverse
  let copies ← orFault (slice? elements start stop)
  modify fun m ↦ { m with stack := (elements ++ copies).reverse }

/-- Cuts out the elements from one position up to another and puts them at the end. -/
def moveToEnd (start stop : Nat) : Exec σ Unit := do
  let elements := (← get).stack.reverse
  let moved ← orFault (slice? elements start stop)
  modify fun m ↦ { m with stack := (elements.take start ++ elements.drop stop ++ moved).reverse }

def swap (i j : Nat) : Exec σ Unit := do
  let a ← element i
  let b ← element j
  modify fun m ↦ { m with stack := ((m.stack.reverse.set i b).set j a).reverse }

def remove (position : Nat) : Exec σ Bytes := do
  let removed ← element position
  modify fun m ↦ { m with stack := (m.stack.reverse.eraseIdx position).reverse }
  return removed

def insert (position : Nat) (b : Bytes) : Exec σ Unit := do
  if position ≤ (← get).stack.reverse.length then
    modify fun m ↦ { m with stack := (m.stack.reverse.insertIdx position b).reverse }
  else throw .fault

/-! ## Steps on depths -/

theorem peekMany_of_le (first : Nat) {count : Nat} (h : first + count ≤ m.stack.length) :
    peekMany first count m = .ok ((m.stack.drop first).take count) m := by
  have hlength : ((m.stack.drop first).take count).length = count := by
    rw [List.length_take, List.length_drop]
    omega
  change (if ((m.stack.drop first).take count).length = count then pure ((m.stack.drop first).take count)
    else throw .fault : Exec σ (List Bytes)) m = _
  rw [if_pos hlength]
  rfl

/-- A block that is copied to the end of the list is copied to the top of the stack. -/
theorem extendFromWithin_back (first count : Nat) (h : first + count ≤ m.stack.length) :
    (back (first + count) >>= fun start ↦ back first >>= fun stop ↦ extendFromWithin start stop) m =
      copyMany first count m := by
  have hstack : (m.stack.reverse ++ ((m.stack.drop first).take count).reverse).reverse =
      (m.stack.drop first).take count ++ m.stack := by
    rw [List.reverse_append, List.reverse_reverse, List.reverse_reverse]
  rw [bind_of_ok (back_of_le h), bind_of_ok (back_of_le (Nat.le_of_add_right_le h)), copyMany,
    bind_of_ok (peekMany_of_le first h)]
  change (orFault (slice? m.stack.reverse _ _) >>= _) m = _
  rw [slice?_reverse h, orFault_some, pure_bind]
  exact congrArg (fun stack ↦ EStateM.Result.ok () { m with stack }) hstack

/-- A block that is moved to the end of the list is moved to the top of the stack. -/
theorem moveToEnd_back (first count : Nat) (h : first + count ≤ m.stack.length) :
    (back (first + count) >>= fun start ↦ back first >>= fun stop ↦ moveToEnd start stop) m =
      moveMany first count m := by
  have hbelow : m.stack.length - (m.stack.length - (first + count)) = first + count := by omega
  have habove : m.stack.length - (m.stack.length - first) = first := by omega
  have hstack : (m.stack.reverse.take (m.stack.length - (first + count)) ++
      m.stack.reverse.drop (m.stack.length - first) ++ ((m.stack.drop first).take count).reverse).reverse =
        (m.stack.drop first).take count ++ (m.stack.take first ++ m.stack.drop (first + count)) := by
    rw [List.take_reverse, List.drop_reverse, hbelow, habove, ← List.reverse_append, ← List.reverse_append,
      List.reverse_reverse]
  rw [bind_of_ok (back_of_le h), bind_of_ok (back_of_le (Nat.le_of_add_right_le h)), moveMany,
    bind_of_ok (peekMany_of_le first h)]
  change (orFault (slice? m.stack.reverse _ _) >>= _) m = _
  rw [slice?_reverse h, orFault_some, pure_bind]
  exact congrArg (fun stack ↦ EStateM.Result.ok () { m with stack }) hstack

/-- Two elements are exchanged, or both runs fault. -/
theorem swap_back (i j : Nat) :
    (back (i + 1) >>= fun a ↦ back (j + 1) >>= fun b ↦ swap a b : Exec σ Unit) = exchange i j := by
  funext m
  unfold exchange swap
  by_cases hi : i < m.stack.length
  · by_cases hj : j < m.stack.length
    · have hsecond : j < (m.stack.set i m.stack[j]).length := by rwa [List.length_set]
      have hset := set_reverse hsecond m.stack[i]
      rw [List.length_set, ← set_reverse hi] at hset
      rw [bind_of_ok (back_of_le hi), bind_of_ok (back_of_le hj), bind_of_ok (element_sub hi),
        bind_of_ok (element_sub hj), bind_of_ok (peek_of_lt hi), bind_of_ok (peek_of_lt hj)]
      exact congrArg (fun stack ↦ EStateM.Result.ok () { m with stack })
        ((congrArg List.reverse hset).trans (List.reverse_reverse _))
    · have hshort := Nat.le_of_not_lt hj
      rw [bind_of_ok (back_of_le hi), bind_of_error (back_of_lt (Nat.lt_succ_of_le hshort)),
        bind_of_ok (peek_of_lt hi), bind_of_error (peek_of_ge hshort)]
  · have hshort := Nat.le_of_not_lt hi
    rw [bind_of_error (back_of_lt (Nat.lt_succ_of_le hshort)), bind_of_error (peek_of_ge hshort)]

theorem remove_back (depth : Nat) : (back (depth + 1) >>= remove : Exec σ Bytes) = removeAt depth := by
  funext m
  unfold removeAt remove
  by_cases hdepth : depth < m.stack.length
  · have hstack : (m.stack.reverse.eraseIdx (m.stack.length - (depth + 1))).reverse =
        m.stack.eraseIdx depth := by
      rw [eraseIdx_reverse hdepth, List.reverse_reverse]
    rw [bind_of_ok (back_of_le hdepth), bind_of_ok (element_sub hdepth), bind_of_ok (peek_of_lt hdepth)]
    exact congrArg (fun stack ↦ EStateM.Result.ok m.stack[depth] { m with stack }) hstack
  · have hshort := Nat.le_of_not_lt hdepth
    rw [bind_of_error (back_of_lt (Nat.lt_succ_of_le hshort)), bind_of_error (peek_of_ge hshort)]

theorem insert_back (depth : Nat) (b : Bytes) :
    (back depth >>= fun position ↦ insert position b : Exec σ Unit) = insertAt depth b := by
  funext m
  by_cases hdepth : depth ≤ m.stack.length
  · have hstack : (m.stack.reverse.insertIdx (m.stack.length - depth) b).reverse =
        m.stack.insertIdx depth b := by
      rw [insertIdx_reverse hdepth, List.reverse_reverse]
    have hposition : m.stack.length - depth ≤ m.stack.reverse.length := by
      rw [List.length_reverse]
      exact Nat.sub_le _ _
    rw [bind_of_ok (back_of_le hdepth)]
    change (if m.stack.length - depth ≤ m.stack.reverse.length then _ else _ : Exec σ Unit) m =
      (if depth ≤ m.stack.length then _ else _ : Exec σ Unit) m
    rw [if_pos hposition, if_pos hdepth]
    exact congrArg (fun stack ↦ EStateM.Result.ok () { m with stack }) hstack
  · rw [bind_of_error (back_of_lt (Nat.lt_of_not_le hdepth))]
    change _ = (if depth ≤ m.stack.length then _ else _ : Exec σ Unit) m
    rw [if_neg hdepth]
    rfl

/-- Counting back from the last position. -/
theorem difference_back_one (depth : Nat) :
    (back 1 >>= fun last ↦ difference last depth : Exec σ Nat) = back (depth + 1) := by
  funext m
  by_cases hempty : m.stack.length = 0
  · rw [bind_of_error (back_of_lt (hempty ▸ Nat.one_pos)), back_of_lt (hempty ▸ Nat.succ_pos depth)]
  · rw [bind_of_ok (back_of_le (Nat.pos_of_ne_zero hempty))]
    change (if depth ≤ m.stack.length - 1 then pure (m.stack.length - 1 - depth) else throw .fault : Exec σ Nat) m =
      (if depth + 1 ≤ m.stack.length then pure (m.stack.length - (depth + 1)) else throw .fault : Exec σ Nat) m
    have hiff : depth ≤ m.stack.length - 1 ↔ depth + 1 ≤ m.stack.length := by omega
    have hplace : m.stack.length - 1 - depth = m.stack.length - (depth + 1) := by omega
    simp only [hiff, hplace]

/-! ## Opcodes -/

/-- The position of an element that was chosen by its depth. -/
def chosen (env : Env σ) : Exec σ Nat := do
  let depth ← popDepthWith (number env)
  difference (← back 1) depth

def executeStack (env : Env σ) : StackOp → Exec σ Unit
  | .dup2 => do
    require 2
    extendFromWithin (← back 2) (← back 0)
  | .dup3 => do
    require 3
    extendFromWithin (← back 3) (← back 0)
  | .over2 => do
    require 4
    extendFromWithin (← back 4) (← back 2)
  | .rot2 => do
    require 6
    moveToEnd (← back 6) (← back 4)
  | .swap2 => do
    require 4
    swap (← back 4) (← back 2)
    swap (← back 3) (← back 1)
  | .ifDup => do
    require 1
    let element ← top 1
    if ← orFault (toBool? element) then push element
  | .depth => do pushCount (← get).stack.length
  | .dup => do
    require 1
    push (← top 1)
  | .nip => do
    require 2
    let _ ← remove (← back 2)
  | .over => do
    require 2
    push (← top 2)
  | .pick => do push (← element (← chosen env))
  | .roll => do push (← remove (← chosen env))
  | .rot => do
    require 3
    swap (← back 3) (← back 2)
    swap (← back 2) (← back 1)
  | .swap => do
    require 2
    swap (← back 2) (← back 1)
  | .tuck => do
    require 2
    let element ← top 1
    insert (← back 2) element
  | op => UtxoConsensus.executeStack env op

theorem chosen_bind {β : Type} (env : Env σ) (f : Nat → Exec σ β) :
    (chosen env >>= f) = popDepth env >>= fun depth ↦ back (depth + 1) >>= f := by
  unfold chosen popDepth
  rw [number_eq, bind_assoc]
  simp only [difference_back_one]

/-- Every shuffle by positions from the bottom is the one by depths from the top. -/
theorem executeStack_eq (env : Env σ) (op : StackOp) :
    executeStack env op = UtxoConsensus.executeStack env op := by
  cases op with
  | dup2 => exact require_bind_congr fun m hm ↦ extendFromWithin_back 0 2 hm
  | dup3 => exact require_bind_congr fun m hm ↦ extendFromWithin_back 0 3 hm
  | over2 => exact require_bind_congr fun m hm ↦ extendFromWithin_back 2 2 hm
  | rot2 => exact require_bind_congr fun m hm ↦ moveToEnd_back 4 2 hm
  | swap2 =>
    refine bind_congr fun _ ↦ ?_
    rw [← swap_back, ← swap_back]
    simp only [bind_assoc]
  | rot =>
    refine bind_congr fun _ ↦ ?_
    rw [← swap_back, ← swap_back]
    simp only [bind_assoc]
  | swap => exact bind_congr fun _ ↦ swap_back 1 0
  | nip =>
    refine bind_congr fun _ ↦ ?_
    exact (bind_assoc _ _ _).symm.trans (congrArg (· >>= fun _ ↦ pure ()) (remove_back 1))
  | tuck =>
    refine bind_congr fun _ ↦ ?_
    rw [top_succ]
    exact bind_congr fun element ↦ insert_back 2 element
  | pick =>
    refine (chosen_bind env fun position ↦ element position >>= push).trans (bind_congr fun depth ↦ ?_)
    exact (bind_assoc _ _ _).symm.trans (congrArg (· >>= push) (top_succ depth))
  | roll =>
    refine (chosen_bind env fun position ↦ remove position >>= push).trans (bind_congr fun depth ↦ ?_)
    exact (bind_assoc _ _ _).symm.trans (congrArg (· >>= push) (remove_back depth))
  | _ =>
    simp only [executeStack, UtxoConsensus.executeStack, toBool?_eq, orFault_some, pure_bind, pushCount_eq, top_succ]

end UtxoConsensus.Indexed
