import UtxoConsensus.Interpreter.Eval
import UtxoConsensus.Script.Template

/-!
# Verifying a spend

An unlocking script and a locking script run one after the other on the same stack, and must leave
something true. If the locking script only names another script by its hash, that script is what the
unlocking script pushed last, and it runs on the rest of what was pushed.
-/

namespace UtxoConsensus

open Exec

/-- How many bytes of unlocking script each signature check needs, less what is free. -/
def sigCheckDensityFactor : Nat := 43

@[inherit_doc sigCheckDensityFactor]
def sigCheckDensityBonus : Nat := 60

/-- The length of unlocking script that a number of signature checks needs. -/
def requiredLength (sigChecks : Nat) : Nat :=
  sigChecks * sigCheckDensityFactor - sigCheckDensityBonus

/-- The rules that hold given the flags: with replay protection encodings are strict. -/
def effectiveFlags (flags : ScriptFlags) : ScriptFlags :=
  if flags.contains .enableSighashForkId then flags ||| .strictEnc else flags

def requireTrue : Exec σ Unit := do
  failIf (!((← get).stack.head?.elim false ScriptNumber.toBool)) .evalFalse

/-- At the end exactly one element must be left. -/
def checkCleanStack (env : Env σ) : Exec σ Unit := do
  if env.has .cleanStack then
    failIf (!env.has .p2sh) .unknown
    failIf ((← get).stack.length != 1) .cleanStack

/-- The unlocking script must be long enough for the signatures that were checked. -/
def checkDensity (env : Env σ) (unlocking : Bytes) : Exec σ Unit := do
  if env.has .inputSigChecks then
    let required := requiredLength (← get).sigChecks
    failIf (decide (unlocking.length < required)) .inputSigChecks

/-- Runs the script that was pushed last on the rest of the given stack. Returns false where it does
not run because it is a lone witness program, which anyone may recover. -/
def runRedeemScript (env : Env σ) (unlocking : Bytes) (pushed : List Bytes) : Exec σ Bool := do
  failIf (!Script.isPushOnly unlocking) .sigPushOnly
  match pushed with
  | [] => fail .invalidStackOperation
  | redeemScript :: rest => do
    modify fun m ↦ { m with stack := rest }
    if !env.has .disallowSegwitRecovery && rest.isEmpty && Script.isWitnessProgram redeemScript then
      return false
    else
      evalScript env redeemScript
      requireTrue
      return true

/-- Runs both scripts, and the script behind a script hash. Returns false where the checks at the end
do not apply. -/
def runScripts (env : Env σ) (unlocking locking : Bytes) : Exec σ Bool := do
  failIf (env.has .sigPushOnly && !Script.isPushOnly unlocking) .sigPushOnly
  evalScript env unlocking
  let pushed := (← get).stack
  evalScript env locking
  requireTrue
  if env.has .p2sh && Script.isPayToScriptHash locking env.flags then
    runRedeemScript env unlocking pushed
  else return true

/-- Does the unlocking script satisfy the locking script? -/
def verifySpendWith (runScripts : Exec σ Bool) (env : Env σ) (unlocking : Bytes) : Exec σ Unit := do
  if ← runScripts then
    checkCleanStack env
    checkDensity env unlocking

def verifySpend (env : Env σ) (unlocking locking : Bytes) : Exec σ Unit :=
  verifySpendWith (runScripts env unlocking locking) env unlocking

def Machine.start (stack : List Bytes) (world : σ) : Machine σ where
  stack := stack
  altStack := []
  scriptCode := []
  opCount := 0
  sigChecks := 0
  world := world

/-- Verifies a pair of scripts; returns the number of signature checks. -/
def verifyScriptWith (verifySpend : Env σ → (unlocking locking : Bytes) → Exec σ Unit) (checker : Checker σ)
    (flags : ScriptFlags) (unlocking locking : Bytes) : StateM σ (Except Halt Nat) := fun world ↦
  let env : Env σ := ⟨checker, effectiveFlags flags⟩
  match (verifySpend env unlocking locking).run (.start [] world) with
  | .ok () m => (.ok m.sigChecks, m.world)
  | .error halt m => (.error halt, m.world)

def verifyScript (checker : Checker σ) (flags : ScriptFlags) (unlocking locking : Bytes) :
    StateM σ (Except Halt Nat) :=
  verifyScriptWith verifySpend checker flags unlocking locking

end UtxoConsensus
