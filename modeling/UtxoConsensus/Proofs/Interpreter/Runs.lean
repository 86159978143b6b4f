import UtxoConsensus.Interpreter.Machine

/-!
# What a run leaves alone

How computations of the script machine are joined, and what part of the machine is the same after a
computation as before it, however the computation ends.
-/

namespace UtxoConsensus

variable {σ α β γ : Type}

/-- The machine when a computation ends, well or not. -/
def Machine.after : EStateM.Result Halt (Machine σ) α → Machine σ
  | .ok _ m => m
  | .error _ m => m

/-- The machine on which a script starts to run, given the machine that it finds. -/
def Machine.enter (m : Machine σ) (script : Bytes) : Machine σ :=
  { m with altStack := [], scriptCode := script, opCount := 0 }

namespace Exec

/-! ## Joined computations -/

theorem bind_of_ok {x : Exec σ α} {m m' : Machine σ} {a : α} (h : x m = .ok a m')
    (f : α → Exec σ β) : (x >>= f) m = f a m' := by
  change EStateM.bind x f m = f a m'
  unfold EStateM.bind
  rw [h]

theorem bind_of_error {x : Exec σ α} {m m' : Machine σ} {e : Halt} (h : x m = .error e m')
    (f : α → Exec σ β) : (x >>= f) m = .error e m' := by
  change EStateM.bind x f m = .error e m'
  unfold EStateM.bind
  rw [h]

/-- What comes after two computations that end alike ends alike. -/
theorem bind_congr_run {x y : Exec σ α} {m m' : Machine σ} (h : x m = y m') (f : α → Exec σ β) :
    (x >>= f) m = (y >>= f) m' := by
  change EStateM.bind x f m = EStateM.bind y f m'
  unfold EStateM.bind
  rw [h]

/-- A joined run that succeeds has succeeded in both parts. -/
theorem exists_of_bind_eq_ok {x : Exec σ α} {f : α → Exec σ β} {m m'' : Machine σ} {b : β}
    (h : (x >>= f) m = .ok b m'') : ∃ a m', x m = .ok a m' ∧ f a m' = .ok b m'' := by
  cases hx : x m with
  | ok a m' =>
    rw [bind_of_ok hx] at h
    exact ⟨a, m', rfl, h⟩
  | error e m' =>
    rw [bind_of_error hx] at h
    cases h

theorem lift_ok (a : α) : (lift (.ok a) : Exec σ α) = pure a := rfl

theorem eq_ok_of_lift_eq_ok {r : Except ScriptError α} {m m' : Machine σ} {a : α}
    (h : lift r m = .ok a m') : r = .ok a := by
  cases r with
  | ok a' =>
    cases h
    rfl
  | error e => cases h

theorem false_of_failIf_eq_ok {b : Bool} {e : ScriptError} {m m' : Machine σ} {u : Unit}
    (h : failIf b e m = .ok u m') : b = false := by
  cases b with
  | true => cases h
  | false => rfl

end Exec

/-- An element is an operand that stands for a number, under the rules for numbers. -/
def Env.Reads (env : Env σ) (b : Bytes) (n : Int) : Prop :=
  ScriptNumber.decode b (env.has .minimalData) env.maxNumberSize (env.has .integers64Bit) = .ok n

theorem Env.number_of_reads {env : Env σ} {b : Bytes} {n : Int} (h : env.Reads b n) (m : Machine σ) :
    env.number b m = .ok n m := by
  unfold number
  rw [h]
  rfl

namespace Exec

/-! ## Parts of the machine -/

/-- A computation leaves a part of the machine as it is. With `id` it is the whole machine. -/
def Keeps (part : Machine σ → γ) (x : Exec σ α) : Prop :=
  ∀ m, part (Machine.after (x m)) = part m

variable {part : Machine σ → γ}

namespace Keeps

theorem eq_of_ok {x : Exec σ α} {m m' : Machine σ} {a : α} (h : Keeps id x) (hr : x m = .ok a m') :
    m' = m := by
  have hsame := h m
  rwa [hr] at hsame

theorem bind {x : Exec σ α} {f : α → Exec σ β} (hx : Keeps part x) (hf : ∀ a, Keeps part (f a)) :
    Keeps part (x >>= f) := by
  intro m
  have hfirst := hx m
  cases hr : x m with
  | ok a m' =>
    rw [hr] at hfirst
    rw [bind_of_ok hr, hf a m']
    exact hfirst
  | error e m' =>
    rw [hr] at hfirst
    rw [bind_of_error hr]
    exact hfirst

theorem pure (a : α) : Keeps part (pure a : Exec σ α) := fun _ ↦ rfl

theorem throw (e : Halt) : Keeps part (throw e : Exec σ α) := fun _ ↦ rfl

theorem bind_get {f : Machine σ → Exec σ α} (hf : ∀ m, Keeps part (f m)) :
    Keeps part (get >>= f) := fun m ↦ hf m m

theorem modify {f : Machine σ → Machine σ} (hf : ∀ m, part (f m) = part m) :
    Keeps part (modify f : Exec σ Unit) := hf

theorem ite {p : Prop} [Decidable p] {x y : Exec σ α} (hx : Keeps part x) (hy : Keeps part y) :
    Keeps part (if p then x else y) := by
  split
  · exact hx
  · exact hy

theorem failIf (b : Bool) (e : ScriptError) : Keeps part (failIf b e : Exec σ Unit) :=
  .ite (.throw _) (.pure ())

theorem lift (r : Except ScriptError α) : Keeps part (lift r : Exec σ α) := by
  cases r with
  | ok a => exact .pure a
  | error e => exact .throw _

theorem orFault (a : Option α) : Keeps part (orFault a : Exec σ α) := by
  cases a with
  | none => exact .throw _
  | some a => exact .pure a

theorem difference (a b : Nat) : Keeps part (difference a b : Exec σ Nat) :=
  .ite (.pure _) (.throw _)

theorem word (n : Int) : Keeps part (word n : Exec σ Int) :=
  .ite (.pure n) (.throw _)

theorem require (count : Nat) : Keeps part (require count : Exec σ Unit) :=
  .bind_get fun _ ↦ .failIf _ _

theorem peek (depth : Nat) : Keeps part (peek depth : Exec σ Bytes) :=
  .bind_get fun _ ↦ .orFault _

theorem peekMany (depth count : Nat) : Keeps part (peekMany depth count : Exec σ (List Bytes)) :=
  .bind_get fun _ ↦ .ite (.pure _) (.throw _)

end Keeps

end Exec

end UtxoConsensus
