import UtxoConsensus.Interpreter.Verify
import UtxoConsensus.Proofs.Interpreter.Runs
import UtxoConsensus.Proofs.Script.ShortestNumbers

/-!
# Numbers of a given size

Two opcodes change how long a number is and not which number it is. One of them pads the shortest encoding
to a size that it is given, the other one goes back to the shortest encoding. Neither is limited to the
numbers that arithmetic can work with, except that the latter fails where its result could not be an
operand.
-/

namespace UtxoConsensus

open Exec

/-! ## Padding -/

namespace ScriptNumber

/-- A number as `size` bytes: zeros between its magnitude and a last byte that holds nothing but the sign. -/
def pad (b : Bytes) (size : Nat) : Bytes :=
  (splitSign b).1 ++ List.replicate (size - (b.length + 1)) 0 ++ [signByte (splitSign b).2]

theorem length_pad {b : Bytes} {size : Nat} (h : b.length < size) : (pad b size).length = size := by
  unfold pad
  simp only [List.length_append, List.length_replicate, List.length_singleton, length_splitSign]
  omega

/-- Zeros before the sign do not change a number. -/
theorem value_pad (b : Bytes) (size : Nat) : value (pad b size) = value b := by
  unfold pad
  rw [value_concat_signByte, Bytes.toNat_append_zeros]
  rfl

end ScriptNumber

variable {σ : Type} {env : Env σ} {m : Machine σ} {below : List Bytes}

theorem padNumber_run {b : Bytes} {size : Nat} (h : b.length < size) (m : Machine σ) :
    padNumber b size m = .ok (ScriptNumber.pad b size) m := by
  have hdifference : difference size (b.length + 1) m = .ok (size - (b.length + 1)) m := by
    unfold difference
    rw [if_pos (Nat.succ_le_of_lt h)]
    rfl
  unfold padNumber
  change (difference size (b.length + 1) >>= fun zeros ↦ _) m = _
  rw [bind_of_ok hdifference]
  rfl

/-! ## The two opcodes -/

/-- A size that is not too large has been read when the number is resized. -/
theorem numToBin_eq {size element : Bytes} {s : Int} (hreads : env.Reads size s) (hs : 0 ≤ s ∧ s ≤ 520)
    (hstack : m.stack = size :: element :: below) :
    executeSplice env .numToBin m =
      (do
        let raw := ScriptNumber.minimize element
        failIf (decide (raw.length > s.toNat)) .impossibleEncoding
        if raw.length < s.toNat then padNumber raw s.toNat >>= push else push raw)
        { m with stack := below } := by
  obtain ⟨stack, altStack, scriptCode, opCount, sigChecks, world⟩ := m
  subst hstack
  have hlimit : (decide (s < 0) || decide (s.toNat > Limit.elementSize)) = false := by
    have helement : Limit.elementSize = 520 := rfl
    rw [Bool.or_eq_false_iff, decide_eq_false_iff_not, decide_eq_false_iff_not]
    omega
  change (env.number size >>= fun size ↦ _) _ = _
  rw [bind_of_ok (Env.number_of_reads hreads _)]
  change (failIf (decide (s < 0) || decide (s.toNat > Limit.elementSize)) .pushSize >>= fun _ ↦ _) _ = _
  rw [hlimit]
  rfl

/-- A number that fits is padded to the size that is asked for. -/
theorem numToBin_run {size element : Bytes} {s : Int} (hreads : env.Reads size s) (hs : 0 ≤ s ∧ s ≤ 520)
    (hstack : m.stack = size :: element :: below)
    (hfits : (ScriptNumber.minimize element).length ≤ s.toNat) :
    ∃ resized, executeSplice env .numToBin m = .ok () { m with stack := resized :: below } ∧
      resized.length = s.toNat ∧ ScriptNumber.value resized = ScriptNumber.value element := by
  rw [numToBin_eq hreads hs hstack]
  dsimp only
  rw [decide_eq_false (Nat.not_lt.mpr hfits)]
  change ∃ resized, (if (ScriptNumber.minimize element).length < s.toNat then
      padNumber (ScriptNumber.minimize element) s.toNat >>= push
    else push (ScriptNumber.minimize element)) _ = _ ∧ _
  by_cases hshort : (ScriptNumber.minimize element).length < s.toNat
  · rw [if_pos hshort, bind_of_ok (padNumber_run hshort _)]
    refine ⟨_, rfl, ScriptNumber.length_pad hshort, ?_⟩
    rw [ScriptNumber.value_pad, ScriptNumber.value_minimize]
  · rw [if_neg hshort]
    exact ⟨_, rfl, Nat.le_antisymm hfits (Nat.le_of_not_lt hshort), ScriptNumber.value_minimize element⟩

/-- A number that does not fit is an error. -/
theorem numToBin_fails {size element : Bytes} {s : Int} (hreads : env.Reads size s) (hs : 0 ≤ s ∧ s ≤ 520)
    (hstack : m.stack = size :: element :: below)
    (hlong : s.toNat < (ScriptNumber.minimize element).length) :
    executeSplice env .numToBin m = .error (.failed .impossibleEncoding) { m with stack := below } := by
  rw [numToBin_eq hreads hs hstack]
  dsimp only
  rw [decide_eq_true hlong]
  rfl

/-- A number is shortened, and one that is still too long is an error. -/
theorem binToNum_run {element : Bytes} (hstack : m.stack = element :: below) :
    executeSplice env .binToNum m =
      if (ScriptNumber.minimize element).length ≤ env.maxNumberSize then
        .ok () { m with stack := ScriptNumber.minimize element :: below }
      else .error (.failed (ScriptNumber.rangeError (env.has .integers64Bit))) { m with stack := below } := by
  obtain ⟨stack, altStack, scriptCode, opCount, sigChecks, world⟩ := m
  subst hstack
  change (failIf (!ScriptNumber.isMinimal (ScriptNumber.minimize element) env.maxNumberSize)
    (ScriptNumber.rangeError (env.has .integers64Bit)) >>= fun _ ↦ push _) _ = _
  rw [ScriptNumber.isMinimal_minimize]
  by_cases hfits : (ScriptNumber.minimize element).length ≤ env.maxNumberSize
  · rw [if_pos hfits, decide_eq_true hfits]
    rfl
  · rw [if_neg hfits, decide_eq_false hfits]
    rfl

/-- Elements that denote the same number are shortened to the same bytes. -/
theorem ScriptNumber.minimize_eq_of_signMagnitude_eq {b c : Bytes} (h : signMagnitude b = signMagnitude c) :
    minimize b = minimize c := by
  rw [minimize_eq_encode, minimize_eq_encode, value_eq_signMagnitude, value_eq_signMagnitude, h]

/-- Shortening and resizing keep the number that an element denotes, of whatever length it is. A number can be
given any size that its shortest encoding has room in, and is brought back from there to the shortest encoding,
which is refused if it is too long for an operand. -/
theorem resizing_keepsNumber (env : Env σ) (element : Bytes) :
    (ScriptNumber.IsShortest (ScriptNumber.minimize element) (ScriptNumber.signMagnitude element) ∧
      ScriptNumber.minimize (ScriptNumber.minimize element) = ScriptNumber.minimize element ∧
      ((ScriptNumber.shorten? element).isSome = true ↔ ScriptNumber.minimize element ≠ element) ∧
      Indexed.minimize? element = some (ScriptNumber.minimize element)) ∧
    (∀ (size : Bytes) (s : Int) (below : List Bytes) (m : Machine σ) (rest : Bytes), env.Reads size s →
      0 ≤ s ∧ s ≤ 520 → m.stack = size :: element :: below →
      ((ScriptNumber.minimize element).length ≤ s →
        ∃ resized, execute env rest (.splice .numToBin) m = .ok () { m with stack := resized :: below } ∧
          resized.length = s ∧ ScriptNumber.signMagnitude resized = ScriptNumber.signMagnitude element) ∧
      (s < (ScriptNumber.minimize element).length →
        ∃ m', execute env rest (.splice .numToBin) m = .error (.failed .impossibleEncoding) m')) ∧
    ∀ (same : Bytes) (below : List Bytes) (m : Machine σ) (rest : Bytes),
      ScriptNumber.signMagnitude same = ScriptNumber.signMagnitude element → m.stack = same :: below →
      ((ScriptNumber.minimize element).length ≤ env.maxNumberSize →
        execute env rest (.splice .binToNum) m =
          .ok () { m with stack := ScriptNumber.minimize element :: below }) ∧
      (env.maxNumberSize < (ScriptNumber.minimize element).length →
        ∃ m', execute env rest (.splice .binToNum) m =
          .error (.failed (if env.has .integers64Bit then .invalidNumberRange64Bit
            else .invalidNumberRange)) m') := by
  refine ⟨⟨ScriptNumber.isShortest_minimize _, ScriptNumber.minimize_minimize _,
    ScriptNumber.isSome_shorten?_iff, Indexed.minimize?_eq _⟩, ?_, ?_⟩
  · intro size s below m rest hreads hs hstack
    constructor
    · intro hfits
      obtain ⟨resized, hrun, hlength, hvalue⟩ := numToBin_run hreads hs hstack (by omega)
      refine ⟨resized, hrun, by omega, ?_⟩
      rw [← ScriptNumber.value_eq_signMagnitude, hvalue, ScriptNumber.value_eq_signMagnitude]
    · intro hlong
      exact ⟨_, numToBin_fails hreads hs hstack (by omega)⟩
  · intro same below m rest hsame hstack
    have hrun : execute env rest (.splice .binToNum) m = _ := binToNum_run hstack
    rw [ScriptNumber.minimize_eq_of_signMagnitude_eq hsame] at hrun
    rw [hrun]
    constructor
    · intro hfits
      rw [if_pos hfits]
    · intro hlong
      rw [if_neg (Nat.not_le.mpr hlong)]
      exact ⟨_, rfl⟩

/-- An environment with numbers of 32 bits, which must be minimal. -/
def narrowEnv : Env Unit where
  checker := Checker.base
  flags := .minimalData

/-- A negative number with zeros before its sign, of which the shortest encoding keeps none. It is given three
bytes, cannot be given one, and is brought back. A number of five bytes is no operand. -/
theorem resizing_keepsNumber_paddedNegative :
    let element : Bytes := [0xab, 0, 0, 0x80]
    let large : Bytes := [1, 1, 1, 1, 1]
    let start (stack : List Bytes) : Machine Unit := .start stack ()
    narrowEnv.Reads [3] 3 ∧ narrowEnv.Reads [1] 1 ∧ ScriptNumber.minimize element = [0xab, 0x80] ∧
      ScriptNumber.signMagnitude element = -171 ∧
      (∃ resized, execute narrowEnv [] (.splice .numToBin) (start [[3], element]) = .ok () (start [resized]) ∧
        (resized.length : Int) = 3 ∧ ScriptNumber.signMagnitude resized = -171 ∧
        execute narrowEnv [] (.splice .binToNum) (start [resized]) = .ok () (start [[0xab, 0x80]])) ∧
      (∃ m', execute narrowEnv [] (.splice .numToBin) (start [[1], element]) =
        .error (.failed .impossibleEncoding) m') ∧
      ∃ m', execute narrowEnv [] (.splice .binToNum) (start [large]) =
        .error (.failed .invalidNumberRange) m' := by
  intro element large start
  have hnarrow : narrowEnv.has .integers64Bit = false := rfl
  have hthree : narrowEnv.Reads [3] 3 := rfl
  have hone : narrowEnv.Reads [1] 1 := rfl
  have hshort : ScriptNumber.minimize element = [0xab, 0x80] := by decide
  have hdenotes : ScriptNumber.signMagnitude element = -171 := by decide
  obtain ⟨-, hresize, hbring⟩ := resizing_keepsNumber narrowEnv element
  obtain ⟨-, -, hlarge⟩ := resizing_keepsNumber narrowEnv large
  rw [hshort] at hresize hbring
  rw [hnarrow] at hlarge
  refine ⟨hthree, hone, hshort, hdenotes, ?_, ?_, ?_⟩
  · obtain ⟨resized, hrun, hlength, hsame⟩ :=
      (hresize [3] 3 [] (start [[3], element]) [] hthree (by decide) rfl).1 (by decide)
    exact ⟨resized, hrun, hlength, hsame.trans hdenotes,
      (hbring resized [] (start [resized]) [] hsame rfl).1 (by decide)⟩
  · exact (hresize [1] 1 [] (start [[1], element]) [] hone (by decide) rfl).2 (by decide)
  · exact (hlarge large [] (start [large]) [] rfl rfl).2 (by decide)

end UtxoConsensus
