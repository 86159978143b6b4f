import UtxoConsensus.Proofs.Interpreter.Pushes
import UtxoConsensus.Proofs.Interpreter.ReplayProtection

/-!
# Spends of script hashes

Whoever can satisfy a script can spend a coin that names the script by its hash, and nobody else can:
the unlocking script has to push the script as well, and all that comes before it is the same. The two
spends have the same answer whatever it is, errors and signature checks included.
-/

namespace UtxoConsensus

open Exec
open Script (ScriptHashKind)

variable {σ : Type} {env : Env σ}

/-! ## Comparing the hash -/

theorem runInstructions_cons_of_ok {conditions conditions' : Conditions} {i : Instruction} {m m' : Machine σ}
    (hstep : step env conditions i m = .ok conditions' m')
    (hroom : m'.stack.length + m'.altStack.length ≤ Limit.stackSize) (rest : List Instruction) :
    runInstructions env conditions (i :: rest) m = runInstructions env conditions' rest m' := by
  change (step env conditions i >>= _) m = _
  rw [bind_of_ok hstep]
  change (failIf (decide (m'.stack.length + m'.altStack.length > Limit.stackSize)) .stackSize >>=
    fun _ ↦ runInstructions env conditions' rest) m' = _
  rw [decide_eq_false (Nat.not_lt.mpr hroom)]
  rfl

/-- The script that lies on top is replaced by its hash. -/
theorem step_hash {kind : ScriptHashKind} {redeemScript : Bytes} {m : Machine σ} {below : List Bytes}
    (hstack : m.stack = redeemScript :: below) (hcount : m.opCount = 0) (rest : Bytes) :
    step env .none ⟨kind.opcode, [], [], rest⟩ m =
      .ok .none { m with stack := kind.digest redeemScript :: below, opCount := 1 } := by
  obtain ⟨stack, altStack, scriptCode, opCount, sigChecks, world⟩ := m
  subst hstack hcount
  cases kind <;> rfl

theorem step_hashPush {hash : Bytes} {kind : ScriptHashKind} (hhash : hash.length = kind.size)
    (rest : Bytes) (m : Machine σ) :
    step env .none ⟨UInt8.ofNat kind.size, [], hash, rest⟩ m =
      .ok .none { m with stack := hash :: m.stack } := by
  have hle : UInt8.ofNat kind.size ≤ Opcode.pushData4 := by cases kind <;> decide
  have hbounds : 2 ≤ hash.length ∧ hash.length ≤ 75 ∧ (UInt8.ofNat kind.size).toNat = hash.length := by
    rw [hhash]
    cases kind <;> decide
  have hminimal : Script.isMinimalPush hash (UInt8.ofNat kind.size) = true := by
    rw [Script.isMinimalPush_of_two_le hbounds.1, if_pos hbounds.2.1, hbounds.2.2, beq_self_eq_true]
  have hpushed : Instruction.pushed env ⟨UInt8.ofNat kind.size, [], hash, rest⟩ = .ok hash := by
    unfold Instruction.pushed
    rw [if_neg (Nat.not_lt.mpr (Nat.le_trans hbounds.2.1 (by decide))), if_pos hle, hminimal,
      Bool.not_true, Bool.and_false]
    rfl
  rw [step_of_le_sixteen (UInt8.le_trans hle (by decide)) rfl, hpushed]
  rfl

/-- Equal elements leave the answer true. -/
theorem step_equal {b : Bytes} {m : Machine σ} {below : List Bytes} (hstack : m.stack = b :: b :: below)
    (hcount : m.opCount = 1) (rest : Bytes) :
    step env .none ⟨Opcode.equal, [], [], rest⟩ m =
      .ok .none { m with stack := [1] :: below, opCount := 2 } := by
  obtain ⟨stack, altStack, scriptCode, opCount, sigChecks, world⟩ := m
  subst hstack hcount
  change (answer false .equalVerify (b == b) >>= fun _ ↦ pure Conditions.none)
    ⟨below, altStack, scriptCode, 2, sigChecks, world⟩ = _
  rw [beq_self_eq_true]
  rfl

/-- The locking script is satisfied by the script that it names. -/
theorem evalScript_locking (kind : ScriptHashKind) {redeemScript : Bytes} {m : Machine σ}
    {below : List Bytes} (hstack : m.stack = redeemScript :: below) (hroom : below.length ≤ 998) :
    evalScript env (kind.locking redeemScript) m =
      .ok () { m.enter (kind.locking redeemScript) with stack := [1] :: below, opCount := 2 } := by
  have hsize : (kind.locking redeemScript).length ≤ Script.maxSize := by
    unfold ScriptHashKind.locking
    rw [List.length_cons, List.length_cons, List.length_append, kind.length_digest]
    cases kind <;> decide
  have hlimit : Limit.stackSize = 1000 := rfl
  obtain ⟨first, second, hparse⟩ := kind.parse_locking redeemScript
  rw [evalScript_of_length_le hsize, hparse]
  -- Each of the three instructions is run on a machine of which only this much is known.
  generalize hm : m.enter (kind.locking redeemScript) = start
  have hstart : start.stack = redeemScript :: below ∧ start.altStack = [] ∧ start.opCount = 0 := by
    rw [← hm]
    exact ⟨hstack, rfl, rfl⟩
  have hrun : runInstructions env .none
      [⟨kind.opcode, [], [], first⟩, ⟨UInt8.ofNat kind.size, [], kind.digest redeemScript, second⟩,
        ⟨Opcode.equal, [], [], []⟩] start =
      .ok .none { start with stack := [1] :: below, opCount := 2 } := by
    rw [runInstructions_cons_of_ok (step_hash hstart.1 hstart.2.2 _),
      runInstructions_cons_of_ok (step_hashPush (kind.length_digest redeemScript) _ _),
      runInstructions_cons_of_ok (step_equal rfl rfl _)]
    · rfl
    all_goals
      simp only [List.length_cons, hstart.2.1, List.length_nil, hlimit]
      omega
  rw [bind_of_ok hrun]
  rfl

/-! ## What both spends have in common -/

/-- A script is satisfied on the stack that is there, and leaves it clean if the rules ask for it. -/
def satisfy (env : Env σ) (script : Bytes) : Exec σ Unit := do
  evalScript env script
  requireTrue
  checkCleanStack env

/-- Of the machine that a script finds, only the stack, the count of signatures and the state of the
checker matter. -/
theorem satisfy_congr {script : Bytes} (hsize : script.length ≤ Script.maxSize) {m m' : Machine σ}
    (hstack : m.stack = m'.stack) (hsigChecks : m.sigChecks = m'.sigChecks) (hworld : m.world = m'.world) :
    satisfy env script m = satisfy env script m' := by
  have henter : m.enter script = m'.enter script := by
    unfold Machine.enter
    rw [hstack, hsigChecks, hworld]
  have heval : evalScript env script m = evalScript env script m' := by
    rw [evalScript_of_length_le hsize, evalScript_of_length_le hsize, henter]
  exact bind_congr_run heval _

section Spends

variable {unlocking : Bytes} (hpush : Script.isPushOnly unlocking = true)
include hpush

/-- An unlocking script that only pushes, and what comes after it. -/
theorem spendAnswer_verifySpend (hsize : unlocking.length ≤ Script.maxSize) (locking : Bytes) (world : σ) :
    spendAnswer (verifySpend env unlocking locking (.start [] world)) =
      match pushAll env (Script.parse unlocking).instructions [] with
      | .ok stack =>
        spendAnswer ((do
          evalScript env locking
          requireTrue
          finishSpend env unlocking locking stack) ((Machine.start stack world).enter unlocking))
      | .error e => (.error (.failed e), world) := by
  have hnone : (failIf (env.has .sigPushOnly && !Script.isPushOnly unlocking) .sigPushOnly : Exec σ Unit) =
      pure () := by
    rw [hpush, Bool.not_true, Bool.and_false]
    rfl
  have hrun : Machine.Pushes _ _ (evalScript env unlocking (.start [] world))
      (pushAll env (Script.parse unlocking).instructions []) := evalScript_pushes hpush hsize _
  rw [verifySpend_eq]
  unfold runBoth
  rw [hnone]
  simp only [pure_bind, bind_assoc]
  cases hpushed : pushAll env (Script.parse unlocking).instructions [] with
  | ok stack =>
    rw [hpushed] at hrun
    rw [bind_of_ok hrun]
    rfl
  | error e =>
    rw [hpushed] at hrun
    obtain ⟨m', hfail, hworld⟩ := hrun
    rw [bind_of_error hfail]
    exact Prod.ext rfl hworld

variable (hdensity : env.has .inputSigChecks = false)
include hdensity

omit hpush in
theorem checkEnd_eq : checkEnd env unlocking true = checkCleanStack env := by
  unfold checkEnd checkDensity
  rw [hdensity]
  exact bind_pure _

/-- What becomes of a spend whose locking script names the script that was pushed last. -/
theorem finishSpend_locking (hp2sh : env.has .p2sh = true) {kind : ScriptHashKind}
    (hlong : kind = .hash256 → env.has .enableP2sh32 = true) {redeemScript : Bytes} {below : List Bytes}
    (hexempt : (!env.has .disallowSegwitRecovery && below.isEmpty &&
      Script.isWitnessProgram redeemScript) = false) (m : Machine σ) :
    finishSpend env unlocking (kind.locking redeemScript) (redeemScript :: below) m =
      satisfy env redeemScript { m with stack := below } := by
  have hrun : runRedeemScript env unlocking (redeemScript :: below) m =
      (do evalScript env redeemScript; requireTrue; pure true) { m with stack := below } := by
    unfold runRedeemScript
    rw [hpush]
    change (if (!env.has .disallowSegwitRecovery && below.isEmpty &&
      Script.isWitnessProgram redeemScript) = true then _ else _ : Exec σ Bool) { m with stack := below } = _
    rw [hexempt]
    rfl
  unfold finishSpend
  rw [hp2sh, Script.isPayToScriptHash_locking hlong]
  calc
    (runRedeemScript env unlocking (redeemScript :: below) >>= checkEnd env unlocking) m
      = ((do evalScript env redeemScript; requireTrue; pure true) >>= checkEnd env unlocking)
          { m with stack := below } := bind_congr_run hrun _
    _ = satisfy env redeemScript { m with stack := below } := by
      simp only [bind_assoc, pure_bind, checkEnd_eq hdensity]
      rfl

end Spends

/-! ## Both spends -/

section Answers

variable {unlocking redeemScript : Bytes} (hpush : Script.isPushOnly unlocking = true)
  (hmax : redeemScript.length ≤ Limit.elementSize) (hdensity : env.has .inputSigChecks = false)
include hpush hmax hdensity

/-- The answer for the spend of the script itself. -/
theorem spendAnswer_plain (hsize : unlocking.length ≤ Script.maxSize)
    (hplain : Script.isPayToScriptHash redeemScript env.flags = false) (world : σ) :
    spendAnswer (verifySpend env unlocking redeemScript (.start [] world)) =
      match pushAll env (Script.parse unlocking).instructions [] with
      | .ok stack => spendAnswer (satisfy env redeemScript (.start stack world))
      | .error e => (.error (.failed e), world) := by
  rw [spendAnswer_verifySpend hpush hsize]
  cases pushAll env (Script.parse unlocking).instructions [] with
  | error e => rfl
  | ok stack =>
    have hfinish : finishSpend env unlocking redeemScript stack = checkCleanStack env := by
      unfold finishSpend
      rw [hplain, Bool.and_false]
      exact checkEnd_eq hdensity
    dsimp only
    rw [hfinish]
    exact congrArg spendAnswer (satisfy_congr (Nat.le_trans hmax (by decide)) rfl rfl rfl)

/-- The answer for the spend of its hash is the same. -/
theorem spendAnswer_locking (hmin : 2 ≤ redeemScript.length)
    (hsize : (unlocking ++ Script.pushData redeemScript).length ≤ Script.maxSize)
    (hp2sh : env.has .p2sh = true) {kind : ScriptHashKind}
    (hlong : kind = .hash256 → env.has .enableP2sh32 = true)
    (hstack : ∀ stack, pushAll env (Script.parse unlocking).instructions [] = .ok stack →
      stack.length ≤ 998 ∧ (!env.has .disallowSegwitRecovery && stack.isEmpty &&
        Script.isWitnessProgram redeemScript) = false) (world : σ) :
    spendAnswer (verifySpend env (unlocking ++ Script.pushData redeemScript) (kind.locking redeemScript)
        (.start [] world)) =
      match pushAll env (Script.parse unlocking).instructions [] with
      | .ok stack => spendAnswer (satisfy env redeemScript (.start stack world))
      | .error e => (.error (.failed e), world) := by
  have hboth := Script.isPushOnly_append hpush (isPushOnly_pushData hmin hmax)
  rw [spendAnswer_verifySpend hboth hsize, pushAll_parse_append hpush hmin hmax]
  cases hpushed : pushAll env (Script.parse unlocking).instructions [] with
  | error e => rfl
  | ok stack =>
    obtain ⟨hroom, hexempt⟩ := hstack stack hpushed
    have hfits : ¬ (redeemScript :: stack).length > Limit.stackSize := by
      have hlimit : Limit.stackSize = 1000 := rfl
      rw [List.length_cons, hlimit]
      omega
    have hpushedBoth : (do
        let stack ← (.ok stack : Except ScriptError (List Bytes))
        if (redeemScript :: stack).length > Limit.stackSize then .error .stackSize
        else .ok (redeemScript :: stack)) = .ok (redeemScript :: stack) := if_neg hfits
    rw [hpushedBoth]
    dsimp only
    rw [bind_of_ok (evalScript_locking kind rfl hroom)]
    apply congrArg spendAnswer
    change finishSpend env _ _ _ _ = _
    rw [finishSpend_locking hboth hdensity hp2sh hlong hexempt]
    exact satisfy_congr (Nat.le_trans hmax (by decide)) rfl rfl rfl

end Answers

/-- What the unlocking script leaves on the stack. -/
theorem evalScript_start {unlocking : Bytes} (hpush : Script.isPushOnly unlocking = true)
    (hsize : unlocking.length ≤ Script.maxSize) {stack : List Bytes}
    (hstack : pushAll env (Script.parse unlocking).instructions [] = .ok stack) (world : σ) :
    evalScript env unlocking (.start [] world) =
      .ok () { (Machine.start [] world).enter unlocking with stack } := by
  have hrun : Machine.Pushes _ _ (evalScript env unlocking (.start [] world))
      (pushAll env (Script.parse unlocking).instructions []) := evalScript_pushes hpush hsize _
  rwa [hstack] at hrun

/-- Both spends evaluate the same script on the same stack. -/
theorem verifyScript_locking (checker : Checker σ) {flags : ScriptFlags}
    (hp2sh : flags.contains .p2sh = true) (hdensity : flags.contains .inputSigChecks = false)
    {redeemScript : Bytes} (hmin : 2 ≤ redeemScript.length) (hmax : redeemScript.length ≤ Limit.elementSize)
    (hplain : Script.isPayToScriptHash redeemScript flags = false)
    {unlocking : Bytes} (hpush : Script.isPushOnly unlocking = true)
    (hsize : (unlocking ++ Script.pushData redeemScript).length ≤ Script.maxSize)
    (hroom : ∀ world m, evalScript ⟨checker, effectiveFlags flags⟩ unlocking (.start [] world) = .ok () m →
      m.stack.length ≤ 998)
    (hexempt : flags.contains .disallowSegwitRecovery = true ∨
      (∀ world m, evalScript ⟨checker, effectiveFlags flags⟩ unlocking (.start [] world) = .ok () m →
        m.stack ≠ []) ∨ Script.isWitnessProgram redeemScript = false)
    {kind : ScriptHashKind} (hlong : kind = .hash256 → flags.contains .enableP2sh32 = true) :
    verifyScript checker flags (unlocking ++ Script.pushData redeemScript) (kind.locking redeemScript) =
      verifyScript checker flags unlocking redeemScript := by
  let env : Env σ := ⟨checker, effectiveFlags flags⟩
  have hhas {flag : ScriptFlags} (hflag : ScriptFlags.strictEnc.intersects flag = false) :
      env.has flag = flags.contains flag := effectiveFlags_contains flags hflag
  have hdensity' : env.has .inputSigChecks = false := (hhas (by decide)).trans hdensity
  have hp2sh' : env.has .p2sh = true := (hhas (by decide)).trans hp2sh
  have hlong' (hkind : kind = .hash256) : env.has .enableP2sh32 = true :=
    (hhas (by decide)).trans (hlong hkind)
  have hplain' : Script.isPayToScriptHash redeemScript env.flags = false :=
    (Script.isPayToScriptHash_congr (hhas (by decide)) redeemScript).trans hplain
  have hshort : unlocking.length ≤ Script.maxSize := by
    rw [List.length_append] at hsize
    omega
  funext world
  have hstacks (stack : List Bytes)
      (hstack : pushAll env (Script.parse unlocking).instructions [] = .ok stack) :
      stack.length ≤ 998 ∧ (!env.has .disallowSegwitRecovery && stack.isEmpty &&
        Script.isWitnessProgram redeemScript) = false := by
    have heval := evalScript_start hpush hshort hstack world
    refine ⟨hroom world _ heval, ?_⟩
    rw [hhas (by decide)]
    rcases hexempt with hdisallow | hnonempty | hprogram
    · rw [hdisallow]
      rfl
    · rw [List.isEmpty_eq_false_iff.mpr (hnonempty world _ heval), Bool.and_false, Bool.false_and]
    · rw [hprogram, Bool.and_false]
  calc
    (verifyScript checker flags (unlocking ++ Script.pushData redeemScript)
        (kind.locking redeemScript)).run world
      = _ := spendAnswer_locking hpush hmax hdensity' hmin hsize hp2sh' hlong' hstacks world
    _ = (verifyScript checker flags unlocking redeemScript).run world :=
      (spendAnswer_plain hpush hmax hdensity' hshort hplain' world).symm

/-- **A script hash changes nothing.** Let an unlocking script only push, and leave room for two more
elements. A script of 2 to 520 bytes that names no script itself is named by its hash, in either form
that the rules know, and is pushed behind the unlocking script. The spend then has the answer that the
spend of the script itself has, with the same number of signature checks and the same state of the
checker after it. Scripts must not need signatures to be dense, and a witness program that is pushed
alone must not be exempt. -/
theorem verifyScript_payToScriptHash (checker : Checker σ) {flags : ScriptFlags}
    (hp2sh : flags.contains .p2sh = true) (hdensity : flags.contains .inputSigChecks = false)
    {redeemScript : Bytes} (hmin : 2 ≤ redeemScript.length) (hmax : redeemScript.length ≤ Limit.elementSize)
    (hplain : Script.isPayToScriptHash redeemScript flags = false)
    {unlocking : Bytes} (hpush : Script.isPushOnly unlocking = true)
    (hsize : (unlocking ++ Script.pushData redeemScript).length ≤ Script.maxSize)
    (hroom : ∀ world m, evalScript ⟨checker, effectiveFlags flags⟩ unlocking (.start [] world) = .ok () m →
      m.stack.length ≤ 998)
    (hexempt : flags.contains .disallowSegwitRecovery = true ∨
      (∀ world m, evalScript ⟨checker, effectiveFlags flags⟩ unlocking (.start [] world) = .ok () m →
        m.stack ≠ []) ∨ Script.isWitnessProgram redeemScript = false) :
    verifyScript checker flags (unlocking ++ Script.pushData redeemScript)
        (Script.payToScriptHash redeemScript) = verifyScript checker flags unlocking redeemScript ∧
      (flags.contains .enableP2sh32 = true →
        verifyScript checker flags (unlocking ++ Script.pushData redeemScript)
          (Script.payToScriptHash32 redeemScript) = verifyScript checker flags unlocking redeemScript) := by
  rw [← Script.locking_hash160, ← Script.locking_hash256]
  constructor
  · exact verifyScript_locking checker hp2sh hdensity hmin hmax hplain hpush hsize hroom hexempt nofun
  · intro hlong
    exact verifyScript_locking checker hp2sh hdensity hmin hmax hplain hpush hsize hroom hexempt
      fun _ ↦ hlong

def signedScript : Bytes :=
  Script.pushData (2 :: List.replicate 32 1) ++ [Opcode.checkSig]

/-- A push of a signature with the bit for replay protection. -/
def pushedSignature : Bytes :=
  Script.pushData [0x30, 6, 2, 1, 1, 2, 1, 1, 0x41]

theorem verifyScript_payToScriptHash_signedScript :
    let flags : ScriptFlags := .mandatory ||| .enableP2sh32
    ((verifyScript (.careless true) flags pushedSignature signedScript).run ()).1 = .ok 1 ∧
      ((verifyScript (.careless true) flags (pushedSignature ++ Script.pushData signedScript)
        (Script.payToScriptHash signedScript)).run ()).1 = .ok 1 ∧
      ((verifyScript (.careless true) flags (pushedSignature ++ Script.pushData signedScript)
        (Script.payToScriptHash32 signedScript)).run ()).1 = .ok 1 := by
  intro flags
  have hpush : Script.isPushOnly pushedSignature = true := by decide +kernel
  have hstack : pushAll ⟨.careless true, effectiveFlags flags⟩ (Script.parse pushedSignature).instructions [] =
      .ok [[0x30, 6, 2, 1, 1, 2, 1, 1, 0x41]] := by decide +kernel
  have hroom (world : Unit) (m : Machine Unit)
      (hm : evalScript ⟨.careless true, effectiveFlags flags⟩ pushedSignature (.start [] world) = .ok () m) :
      m.stack.length ≤ 998 := by
    rw [evalScript_start hpush (by decide +kernel) hstack] at hm
    cases hm
    exact Nat.le_of_ble_eq_true rfl
  have hvalid : ((verifyScript (.careless true) flags pushedSignature signedScript).run ()).1 = .ok 1 := by
    decide +kernel
  have hp2sh : flags.contains .p2sh = true := by decide
  have hplain : Script.isPayToScriptHash signedScript flags = false := by decide +kernel
  obtain ⟨hshort, hlong⟩ := verifyScript_payToScriptHash (.careless true) hp2sh (by decide)
    (by decide +kernel) (by decide +kernel) hplain hpush (by decide +kernel) hroom
    (.inr (.inr (by decide +kernel)))
  rw [hshort, hlong (by decide)]
  exact ⟨hvalid, hvalid, hvalid⟩

end UtxoConsensus
