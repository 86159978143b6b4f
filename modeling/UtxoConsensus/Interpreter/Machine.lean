import UtxoConsensus.Spend.Checker

/-!
# The script machine

The state in which instructions run, and the steps that they are made of. A run ends early for one
of two reasons. It may fail, as a script is free to do. Or a step may use something that is not
there: an element below the bottom of the stack, bytes beyond the end of an element, a number beyond
64 bits. The latter is a fault of the interpreter and not of the script. Each instruction has to
check first, and no script can bring a fault about.

What an instruction does with numbers and elements does not depend on how these are found and read. Where
that matters, a function whose name ends in `With` is given the steps that it is made of.
-/

namespace UtxoConsensus

/-- Why a run ends early. -/
inductive Halt where
  | failed (e : ScriptError)
  | fault
deriving DecidableEq

/-- The state of a run. Both stacks are listed from the top. -/
structure Machine (σ : Type) where
  stack : List Bytes
  altStack : List Bytes
  /-- What signatures commit to: the script after the last separator that was executed. -/
  scriptCode : Bytes
  /-- The operations met so far, keys of multisignatures included. -/
  opCount : Nat
  /-- The signatures checked so far; empty ones are free. -/
  sigChecks : Nat
  /-- The state of the checker. -/
  world : σ

/-- What does not change in a run. -/
structure Env (σ : Type) where
  checker : Checker σ
  flags : ScriptFlags

abbrev Exec (σ : Type) := EStateM Halt (Machine σ)

/-! ## Limits -/

namespace Limit

def elementSize : Nat := 520

def operations : Nat := 201

/-- The most elements on both stacks together. -/
def stackSize : Nat := 1000

end Limit

namespace Exec

/-! ## Ends of a run -/

def fail (e : ScriptError) : Exec σ α :=
  throw (.failed e)

def failIf (condition : Bool) (e : ScriptError) : Exec σ Unit :=
  if condition then fail e else pure ()

/-- A result of a rule; its error is a failure of the script. -/
def lift : Except ScriptError α → Exec σ α
  | .ok a => pure a
  | .error e => fail e

def orFault : Option α → Exec σ α
  | some a => pure a
  | none => throw .fault

/-- A difference that must not be negative. -/
def difference (a b : Nat) : Exec σ Nat :=
  if b ≤ a then pure (a - b) else throw .fault

def word (n : Int) : Exec σ Int :=
  if Int64.minValue.toInt ≤ n ∧ n ≤ Int64.maxValue.toInt then pure n else throw .fault

/-! ## The stack -/

def require (count : Nat) : Exec σ Unit := do
  failIf (decide ((← get).stack.length < count)) .invalidStackOperation

/-- The element `depth` places below the top, which must be there. -/
def peek (depth : Nat) : Exec σ Bytes := do
  orFault (← get).stack[depth]?

/-- The elements from `depth` places below the top on, all of which must be there. -/
def peekMany (depth count : Nat) : Exec σ (List Bytes) := do
  let elements := ((← get).stack.drop depth).take count
  if elements.length = count then pure elements else throw .fault

def push (b : Bytes) : Exec σ Unit :=
  modify fun m ↦ { m with stack := b :: m.stack }

def pop : Exec σ Bytes := do
  match (← get).stack with
  | [] => fail .invalidStackOperation
  | top :: rest => do
    modify fun m ↦ { m with stack := rest }
    pure top

/-- Removes up to `count` elements from the top. -/
def drop (count : Nat) : Exec σ Unit :=
  modify fun m ↦ { m with stack := m.stack.drop count }

/-- Removes the element `depth` places below the top, which must be there. -/
def removeAt (depth : Nat) : Exec σ Bytes := do
  let element ← peek depth
  modify fun m ↦ { m with stack := m.stack.eraseIdx depth }
  pure element

/-- Exchanges two elements, both of which must be there, by their places below the top. -/
def exchange (i j : Nat) : Exec σ Unit := do
  let a ← peek i
  let b ← peek j
  modify fun m ↦ { m with stack := (m.stack.set i b).set j a }

/-- Puts an element `depth` places below the top, where there must be as many elements. -/
def insertAt (depth : Nat) (b : Bytes) : Exec σ Unit := do
  if depth ≤ (← get).stack.length then
    modify fun m ↦ { m with stack := m.stack.insertIdx depth b }
  else throw .fault

/-! ## Truth values and numbers -/

def boolElement (b : Bool) : Bytes :=
  if b then [1] else []

def pushBool (b : Bool) : Exec σ Unit :=
  push (boolElement b)

def pushNumber (n : Int) : Exec σ Unit := do
  push (ScriptNumber.encode (← word n))

/-- Pushes how many of something there are, cast to 64 bits. -/
def pushCount (n : Nat) : Exec σ Unit :=
  pushNumber (Int64.ofNat n).toInt

def popNumberWith (number : Bytes → Exec σ Int) : Exec σ Int := do
  require 1
  let n ← number (← peek 0)
  let _ ← pop
  return n

/-- A result that is pushed, or that must be true. -/
def answer (verify : Bool) (e : ScriptError) (result : Bool) : Exec σ Unit :=
  if verify then failIf (!result) e else pushBool result

end Exec

namespace Env

def has (env : Env σ) (flags : ScriptFlags) : Bool :=
  env.flags.contains flags

def maxNumberSize (env : Env σ) : Nat :=
  if env.has .integers64Bit then ScriptNumber.maxSize64 else ScriptNumber.maxSize32

def number (env : Env σ) (b : Bytes) : Exec σ Int :=
  Exec.lift (ScriptNumber.decode b (env.has .minimalData) env.maxNumberSize
    (env.has .integers64Bit))

def popNumber (env : Env σ) : Exec σ Int :=
  Exec.popNumberWith env.number

/-- Asks the checker, which may change its state. -/
def ask (question : StateM σ α) : Exec σ α := do
  let m ← get
  let (a, world) := question.run m.world
  set { m with world }
  return a

def countSigChecks (count : Nat) : Exec σ Unit :=
  modify fun m ↦ { m with sigChecks := m.sigChecks + count }

/-- Adds to the operations; fails if there are too many. -/
def countOperations (count : Nat) : Exec σ Unit := do
  modify fun m ↦ { m with opCount := m.opCount + count }
  Exec.failIf (decide ((← get).opCount > Limit.operations)) .opCount

end Env

end UtxoConsensus
