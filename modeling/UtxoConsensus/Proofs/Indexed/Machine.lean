import UtxoConsensus.Proofs.Indexed.Numbers
import UtxoConsensus.Proofs.Interpreter.FaultFreedom

/-!
# The stack by positions

The stack as a list from the bottom, whose elements are found by counting back from its length, and the
steps that read numbers from it and push numbers on it. Each step is the one that the script machine takes.
-/

namespace UtxoConsensus.Indexed

open Exec

variable {σ α β : Type} {env : Env σ}

/-! ## Computations that are equal -/

@[simp] theorem orFault_some (a : α) : (orFault (some a) : Exec σ α) = pure a := rfl

/-- What comes after a rule may count on its result. -/
theorem lift_bind_congr {r : Except ScriptError α} {f g : α → Exec σ β}
    (h : ∀ a, r = .ok a → f a = g a) : (lift r >>= f) = (lift r >>= g) := by
  cases r with
  | ok a => exact h a rfl
  | error e => rfl

/-- What comes after a check may count on the elements that it asks for. -/
theorem require_bind_congr {count : Nat} {f g : Exec σ α}
    (h : ∀ m : Machine σ, count ≤ m.stack.length → f m = g m) :
    (require count >>= fun _ ↦ f) = (require count >>= fun _ ↦ g) := by
  funext m
  by_cases hfew : m.stack.length < count
  · have hrequire : require count m = .error (.failed .invalidStackOperation) m := by
      change failIf (decide (m.stack.length < count)) _ m = _
      rw [decide_eq_true hfew]
      rfl
    rw [bind_of_error hrequire, bind_of_error hrequire]
  · have hrequire : require count m = .ok () m := by
      change failIf (decide (m.stack.length < count)) _ m = _
      rw [decide_eq_false hfew]
      rfl
    rw [bind_of_ok hrequire, bind_of_ok hrequire, h m (Nat.le_of_not_lt hfew)]

/-- Two computations agree where the stack is the given one. -/
def EqOn (stack : List Bytes) (x y : Exec σ α) : Prop :=
  ∀ m, m.stack = stack → x m = y m

namespace EqOn

variable {stack : List Bytes}

theorem refl (x : Exec σ α) : EqOn stack x x := fun _ _ ↦ rfl

/-- Computations that agree part by part agree as a whole, if the first part leaves the stack alone. -/
theorem bind {x y : Exec σ α} {f g : α → Exec σ β} (hx : EqOn stack x y) (hy : Keeps Machine.stack y)
    (h : ∀ a, EqOn stack (f a) (g a)) : EqOn stack (x >>= f) (y >>= g) := by
  intro m hm
  have hstack := hy m
  cases hr : y m with
  | ok a m' =>
    rw [hr] at hstack
    rw [bind_of_ok hr, bind_of_ok ((hx m hm).trans hr), h a m' (hstack.trans hm)]
  | error e m' => rw [bind_of_error hr, bind_of_error ((hx m hm).trans hr)]

theorem same_bind {x : Exec σ α} {f g : α → Exec σ β} (hx : Keeps Machine.stack x)
    (h : ∀ a, EqOn stack (f a) (g a)) : EqOn stack (x >>= f) (x >>= g) :=
  bind (refl x) hx h

theorem lift_bind {r : Except ScriptError α} {f g : α → Exec σ β}
    (h : ∀ a, r = .ok a → EqOn stack (f a) (g a)) : EqOn stack (lift r >>= f) (lift r >>= g) := by
  cases r with
  | ok a => exact h a rfl
  | error e => exact refl _

/-- What is known of the stack need not be looked up. -/
theorem pure_bind {x : Exec σ α} {a : α} {f : α → Exec σ β} {y : Exec σ β} (hx : EqOn stack x (pure a))
    (h : EqOn stack (f a) y) : EqOn stack (x >>= f) y := by
  intro m hm
  rw [bind_of_ok (hx m hm), h m hm]

end EqOn

/-! ## Elements -/

/-- The position that lies a distance before the end of the stack. -/
def back (distance : Nat) : Exec σ Nat := do
  difference (← get).stack.length distance

def element (position : Nat) : Exec σ Bytes := do
  orFault (← get).stack.reverse[position]?

/-- The element that lies as many places from the top, where the topmost is the first. -/
def top (depth : Nat) : Exec σ Bytes := do
  element (← back depth)

/-- Positions are counted from the bottom. -/
theorem back_of_le {m : Machine σ} {distance : Nat} (h : distance ≤ m.stack.length) :
    back distance m = .ok (m.stack.length - distance) m := by
  change difference m.stack.length distance m = _
  unfold difference
  rw [if_pos h]
  rfl

/-- Going back further than there are elements is a fault. -/
theorem back_of_lt {m : Machine σ} {distance : Nat} (h : m.stack.length < distance) :
    back distance m = .error .fault m := by
  change difference m.stack.length distance m = _
  unfold difference
  rw [if_neg (Nat.not_le.mpr h)]
  rfl

theorem getElem?_reverse_sub {elements : List α} {depth : Nat} (h : depth < elements.length) :
    elements.reverse[elements.length - (depth + 1)]? = elements[depth]? := by
  rw [List.getElem?_reverse (by omega)]
  congr 1
  omega

theorem peek_of_ge {m : Machine σ} {depth : Nat} (h : m.stack.length ≤ depth) :
    peek depth m = .error .fault m := by
  change orFault m.stack[depth]? m = _
  rw [List.getElem?_eq_none h]
  rfl

theorem peek_of_lt {m : Machine σ} {depth : Nat} (h : depth < m.stack.length) :
    peek depth m = .ok m.stack[depth] m := by
  change orFault m.stack[depth]? m = _
  rw [List.getElem?_eq_getElem h]
  rfl

theorem element_sub {m : Machine σ} {depth : Nat} (h : depth < m.stack.length) :
    element (m.stack.length - (depth + 1)) m = .ok m.stack[depth] m := by
  change orFault m.stack.reverse[m.stack.length - (depth + 1)]? m = _
  rw [getElem?_reverse_sub h, List.getElem?_eq_getElem h]
  rfl

theorem top_succ (depth : Nat) : (top (depth + 1) : Exec σ Bytes) = peek depth := by
  funext m
  change (back (depth + 1) >>= element) m = _
  by_cases hdepth : depth < m.stack.length
  · rw [bind_of_ok (back_of_le hdepth), element_sub hdepth, peek_of_lt hdepth]
  · have hshort := Nat.le_of_not_lt hdepth
    rw [bind_of_error (back_of_lt (Nat.lt_succ_of_le hshort)), peek_of_ge hshort]

/-- The element that lies as many places from the top is the given one. -/
def At (stack : List Bytes) (depth : Nat) (b : Bytes) : Prop :=
  ∃ below, depth = below + 1 ∧ stack[below]? = some b

theorem At.eqOn {stack : List Bytes} {depth : Nat} {b : Bytes} (h : At stack depth b) :
    EqOn stack (top depth : Exec σ Bytes) (pure b) := by
  obtain ⟨below, rfl, hb⟩ := h
  rintro m rfl
  rw [top_succ]
  change orFault m.stack[below]? m = _
  rw [hb]
  rfl

/-! ## Numbers -/

def decode (b : Bytes) (requireMinimal : Bool) (maxSize : Nat) (wide : Bool) : Exec σ Int := do
  failIf (decide (b.length > maxSize)) (ScriptNumber.rangeError wide)
  if requireMinimal then failIf (!(← orFault (isMinimal? b maxSize))) .minimalNum
  orFault (value? b)

def number (env : Env σ) (b : Bytes) : Exec σ Int :=
  decode b (env.has .minimalData) env.maxNumberSize (env.has .integers64Bit)

def lockTime (env : Env σ) (b : Bytes) : Exec σ Int :=
  decode b (env.has .minimalData) ScriptNumber.maxLockTimeSize (env.has .integers64Bit)

def pushNumber (n : Int) : Exec σ Unit := do
  push (← orFault (encode? (← word n)))

def pushCount (n : Nat) : Exec σ Unit :=
  pushNumber (signed n)

/-- A number has at most eight bytes, so that its bytes have their places in a word. -/
theorem decode_eq {maxSize : Nat} (hsize : maxSize ≤ 8) (b : Bytes) (requireMinimal wide : Bool) :
    (decode b requireMinimal maxSize wide : Exec σ Int) =
      lift (ScriptNumber.decode b requireMinimal maxSize wide) := by
  unfold decode ScriptNumber.decode
  by_cases hlong : b.length > maxSize
  · rw [if_pos hlong, decide_eq_true hlong]
    rfl
  · rw [if_neg hlong, decide_eq_false hlong, isMinimal?_eq, value?_eq (by omega)]
    cases requireMinimal <;> cases ScriptNumber.isMinimal b maxSize <;> rfl

theorem number_eq (env : Env σ) : number env = env.number :=
  funext fun b ↦ decode_eq env.maxNumberSize_le_maxSize64 b _ _

theorem lockTime_eq (env : Env σ) : lockTime env = env.lockTime := by
  have hsize : ScriptNumber.maxLockTimeSize ≤ 8 := by decide
  exact funext fun b ↦ decode_eq hsize b _ _

theorem pushNumber_eq : (pushNumber : Int → Exec σ Unit) = Exec.pushNumber := by
  funext n
  unfold pushNumber Exec.pushNumber
  simp only [encode?_eq, orFault_some, pure_bind]

theorem pushCount_eq : (pushCount : Nat → Exec σ Unit) = Exec.pushCount :=
  funext fun n ↦ congrFun pushNumber_eq (signed n)

end UtxoConsensus.Indexed
