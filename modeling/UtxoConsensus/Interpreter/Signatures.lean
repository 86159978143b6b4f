import UtxoConsensus.Interpreter.Machine
import UtxoConsensus.Signature.Encoding

/-!
# Signature opcodes

The bytes of signatures and keys are looked at before any signature is verified, and every signature
is preceded by its own check. Signatures that verify count towards a limit; empty ones never verify
and are free.
-/

namespace UtxoConsensus

open Exec

/-- A signature cannot sign itself: before replay protection it is removed from the script code. -/
def cleanScriptCode (flags : ScriptFlags) (scriptCode sig : Bytes) : Bytes :=
  if flags.contains .enableSighashForkId && (HashType.ofSignature sig).hasForkId then scriptCode
  else (Script.findAndDelete (Script.pushData sig) scriptCode).2

/-- What a failed signature leads to: an error where it had to be empty. -/
def settle (env : Env σ) (good : Bool) : Exec σ Unit := do
  Env.countSigChecks 1
  failIf (!good && env.has .nullFail) .sigNullFail

/-! ## Single signatures -/

def executeCheckSig (env : Env σ) (verify : Bool) : Exec σ Unit := do
  require 2
  let sig ← peek 1
  let key ← peek 0
  lift (Encoding.checkTransactionSignature env.flags sig)
  lift (Encoding.checkPublicKey env.flags key)
  let good ←
    if sig.isEmpty then pure false
    else do
      let scriptCode := cleanScriptCode env.flags (← get).scriptCode sig
      let good ← Env.ask (env.checker.checkSig sig key scriptCode env.flags)
      settle env good
      pure good
  drop 2
  answer verify .checkSigVerify good

/-- Verifies a signature of an element, which is hashed once. -/
def executeCheckDataSigWith (checkSignature checkKey : Bytes → Exec σ Unit) (env : Env σ) (verify : Bool) :
    Exec σ Unit := do
  require 3
  let sig ← peek 2
  let message ← peek 1
  let key ← peek 0
  checkSignature sig
  checkKey key
  let good ←
    if sig.isEmpty then pure false
    else do
      let good ← Env.ask (env.checker.verifySignature sig key (Digest.sha256 message))
      settle env good
      pure good
  drop 3
  answer verify .checkDataSigVerify good

def executeCheckDataSig (env : Env σ) (verify : Bool) : Exec σ Unit :=
  executeCheckDataSigWith (fun sig ↦ lift (Encoding.checkDataSignature env.flags sig))
    (fun key ↦ lift (Encoding.checkPublicKey env.flags key)) env verify

/-! ## Signatures matched in order -/

/-- Matches signatures with keys, both in the order of the stack from the top. Each key is tried
once, against the first signature that is left, until no signature is left or more than keys. -/
def matchInOrder (env : Env σ) (scriptCode : Bytes) (sigs : List Bytes) :
    (keys : List Bytes) → Exec σ Bool
  | [] => if sigs.isEmpty then pure true else throw .fault
  | key :: keys => do
    match sigs with
    | [] => pure true
    | sig :: rest => do
      lift (Encoding.checkTransactionEcdsa env.flags sig)
      lift (Encoding.checkPublicKey env.flags key)
      let good ← Env.ask (env.checker.checkSig sig key scriptCode env.flags)
      let left := if good then rest else sig :: rest
      if left.length > keys.length then pure false
      else matchInOrder env scriptCode left keys

def legacyMultisig (env : Env σ) (keys sigs : List Bytes) : Exec σ Bool := do
  let scriptCode := sigs.foldl (cleanScriptCode env.flags) (← get).scriptCode
  let good ← matchInOrder env scriptCode sigs keys
  let allEmpty := sigs.all List.isEmpty
  failIf (!good && env.has .nullFail && !allEmpty) .sigNullFail
  Env.countSigChecks (if allEmpty then 0 else keys.length)
  return good

/-! ## Signatures with chosen keys -/

def countBits (n : Nat) : Nat :=
  if _h : n = 0 then 0 else n % 2 + countBits (n / 2)
termination_by n
decreasing_by exact Nat.div_lt_self (Nat.pos_of_ne_zero _h) (by omega)

/-- The choice of keys: as many bits as there are keys, in as few bytes as can hold them. -/
def decodeBitfield (dummy : Bytes) (keyCount : Nat) : Except ScriptError Nat :=
  let bits := Bytes.toNat dummy
  if keyCount > 32 || dummy.length != (keyCount + 7) / 8 then .error .invalidBitfieldSize
  else if bits ≥ 1 <<< keyCount then .error .invalidBitRange
  else .ok bits

/-- Drops keys up to the first whose bit is set. -/
def skipUnset : (bits : Nat) → (keys : List Bytes) → Nat × List Bytes
  | bits, [] => (bits, [])
  | bits, key :: keys => if bits % 2 = 1 then (bits, key :: keys) else skipUnset (bits / 2) keys

/-- Matches each signature with the next chosen key, both from the bottom of the stack. -/
def matchChosen (env : Env σ) (scriptCode : Bytes) :
    (sigs : List Bytes) → (bits : Nat) → (keys : List Bytes) → Exec σ Bool
  | [], bits, _ => do
    failIf (bits != 0) .invalidBitCount
    return true
  | sig :: sigs, bits, keys => do
    failIf (bits == 0) .invalidBitRange
    match skipUnset bits keys with
    | (_, []) => fail .invalidBitRange
    | (bits, key :: keys) => do
      lift (Encoding.checkTransactionSchnorr env.flags sig)
      lift (Encoding.checkPublicKey env.flags key)
      let good ← Env.ask (env.checker.checkSig sig key scriptCode env.flags)
      failIf (!good) .sigNullFail
      Env.countSigChecks 1
      matchChosen env scriptCode sigs (bits / 2) keys

def schnorrMultisig (env : Env σ) (keys sigs : List Bytes) (dummy : Bytes) : Exec σ Bool := do
  let bits ← lift (decodeBitfield dummy keys.length)
  failIf (countBits bits != sigs.length) .invalidBitCount
  matchChosen env (← get).scriptCode sigs.reverse bits keys.reverse

/-! ## Multisignatures -/

def boundedCountWith (number : Bytes → Exec σ Int) (element : Exec σ Bytes) (limit : Nat) (e : ScriptError) :
    Exec σ Nat := do
  let n ← number (← element)
  failIf (decide (n < 0) || decide (n.toNat > limit)) e
  return n.toNat

def boundedCount (env : Env σ) (depth limit : Nat) (e : ScriptError) : Exec σ Nat :=
  boundedCountWith env.number (peek depth) limit e

/-- From the top: the number of keys, the keys, the number of signatures, the signatures, and one
more element. That element chooses the keys if it is not empty and the rules know about choices. -/
def executeCheckMultisig (env : Env σ) (verify : Bool) : Exec σ Unit := do
  require 1
  let keyCount ← boundedCount env 0 Script.maxMultisigKeys .pubkeyCount
  Env.countOperations keyCount
  require (keyCount + 2)
  let sigCount ← boundedCount env (keyCount + 1) keyCount .sigCount
  require (keyCount + sigCount + 3)
  let keys ← peekMany 1 keyCount
  let sigs ← peekMany (keyCount + 2) sigCount
  let dummy ← peek (keyCount + sigCount + 2)
  let good ←
    if env.has .enableSchnorrMultisig && !dummy.isEmpty then schnorrMultisig env keys sigs dummy
    else legacyMultisig env keys sigs
  drop (keyCount + sigCount + 3)
  answer verify .checkMultisigVerify good

end UtxoConsensus
