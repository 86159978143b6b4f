/-!
# Open branches

While a script runs, each `IF` opens a branch that is taken or not, and instructions count only where
all open branches are taken. It is enough to know how many branches are open and which of them is the
first that is not taken: a branch within it is not taken whatever becomes of it.
-/

namespace UtxoConsensus

/-- The branches that are open. -/
structure Conditions where
  size : Nat
  /-- The first branch that is not taken, counted from the outermost. -/
  firstFalse : Option Nat
deriving DecidableEq

namespace Conditions

def none : Conditions := ⟨0, Option.none⟩

def isEmpty (c : Conditions) : Bool := c.size == 0

def allTrue (c : Conditions) : Bool := c.firstFalse.isNone

def push (c : Conditions) (taken : Bool) : Conditions :=
  ⟨c.size + 1, if c.firstFalse.isNone && !taken then some c.size else c.firstFalse⟩

/-- Closes the innermost branch, if there is one. -/
def pop? (c : Conditions) : Option Conditions :=
  match c.size with
  | 0 => Option.none
  | size + 1 => some ⟨size, if c.firstFalse = some size then Option.none else c.firstFalse⟩

/-- Changes sides in the innermost branch, if there is one. -/
def toggle? (c : Conditions) : Option Conditions :=
  match c.size with
  | 0 => Option.none
  | size + 1 =>
    some ⟨size + 1,
      match c.firstFalse with
      | Option.none => some size
      | some position => if position = size then Option.none else some position⟩

end Conditions

end UtxoConsensus
