import UtxoConsensus.Script.Flags

/-!
# Sets of flags, bit by bit

Inclusion of sets of flags is a statement about each bit. Fourteen flags are restricting: they say
what a script must not do, and leave the meaning of what it may do as it is. All others also change
what a script means. `ScriptFlags.Restricts` compares two sets that differ in restricting flags.
-/

namespace UtxoConsensus.ScriptFlags

variable {f g h flag : ScriptFlags}

/-! ## Bits -/

def bit (f : ScriptFlags) (i : Nat) : Bool :=
  f.bits.toBitVec.getLsbD i

theorem eq_of_bit (hbit : ∀ i, f.bit i = g.bit i) : f = g := by
  apply ScriptFlags.ext
  apply UInt32.eq_of_toBitVec_eq
  apply BitVec.eq_of_getLsbD_eq
  intro i _
  exact hbit i

@[simp] theorem bit_or (f g : ScriptFlags) (i : Nat) : (f ||| g).bit i = (f.bit i || g.bit i) := by
  change (f.bits ||| g.bits).toBitVec.getLsbD i = _
  rw [UInt32.toBitVec_or, BitVec.getLsbD_or]
  rfl

@[simp] theorem bit_and (f g : ScriptFlags) (i : Nat) : (f &&& g).bit i = (f.bit i && g.bit i) := by
  change (f.bits &&& g.bits).toBitVec.getLsbD i = _
  rw [UInt32.toBitVec_and, BitVec.getLsbD_and]
  rfl

@[simp] theorem bit_none (i : Nat) : none.bit i = false :=
  BitVec.getLsbD_zero

theorem bit_without (f g : ScriptFlags) (i : Nat) :
    (f.without g).bit i = (f.bit i && !g.bit i) := by
  change (f.bits &&& ~~~g.bits).toBitVec.getLsbD i = _
  rw [UInt32.toBitVec_and, UInt32.toBitVec_not, BitVec.getLsbD_and, BitVec.getLsbD_not]
  unfold bit
  by_cases hi : i < 32
  · simp [hi]
  · rw [BitVec.getLsbD_of_ge f.bits.toBitVec i (Nat.le_of_not_lt hi), Bool.false_and, Bool.false_and]

/-! ## Inclusion -/

theorem contains_iff : f.contains g = true ↔ ∀ i, g.bit i = true → f.bit i = true := by
  have hcontains : f.contains g = true ↔ f &&& g = g := by
    unfold contains
    rw [beq_iff_eq, ScriptFlags.ext_iff]
    exact Iff.rfl
  rw [hcontains]
  constructor
  · intro heq i hi
    have hand : (f &&& g).bit i = true := by rw [heq, hi]
    rw [bit_and, Bool.and_eq_true] at hand
    exact hand.1
  · intro hall
    apply eq_of_bit
    intro i
    rw [bit_and]
    cases hi : g.bit i with
    | false => rw [Bool.and_false]
    | true => rw [hall i hi, Bool.and_self]

theorem contains_self (f : ScriptFlags) : f.contains f = true :=
  contains_iff.mpr fun _ hi ↦ hi

theorem contains_trans (hfg : f.contains g = true) (hgh : g.contains h = true) :
    f.contains h = true := by
  rw [contains_iff] at *
  exact fun i hi ↦ hfg i (hgh i hi)

theorem contains_or_left (f g : ScriptFlags) : (f ||| g).contains f = true :=
  contains_iff.mpr fun i hi ↦ by rw [bit_or, hi, Bool.true_or]

theorem contains_or_right (f g : ScriptFlags) : (f ||| g).contains g = true :=
  contains_iff.mpr fun i hi ↦ by rw [bit_or, hi, Bool.or_true]

theorem intersects_iff : f.intersects g = true ↔ ∃ i, f.bit i = true ∧ g.bit i = true := by
  have hintersects : f.intersects g = true ↔ ¬ f &&& g = none := by
    unfold intersects
    rw [bne_iff_ne, ScriptFlags.ext_iff]
    exact Iff.rfl
  rw [hintersects]
  constructor
  · intro hne
    apply Classical.byContradiction
    intro hnone
    apply hne
    apply eq_of_bit
    intro i
    rw [bit_and, bit_none]
    cases hf : f.bit i with
    | false => rw [Bool.false_and]
    | true =>
      cases hg : g.bit i with
      | false => rw [Bool.and_false]
      | true => exact absurd ⟨i, hf, hg⟩ hnone
  · rintro ⟨i, hf, hg⟩ heq
    have hand : (f &&& g).bit i = false := by rw [heq, bit_none]
    rw [bit_and, hf, hg] at hand
    exact Bool.noConfusion hand

theorem intersects_mono (hfg : f.contains g = true) (hg : g.intersects h = true) :
    f.intersects h = true := by
  obtain ⟨i, hgi, hhi⟩ := intersects_iff.mp hg
  exact intersects_iff.mpr ⟨i, contains_iff.mp hfg i hgi, hhi⟩

/-- Flags that are added do not decide about others. -/
theorem contains_or_of_disjoint (f : ScriptFlags) (hg : g.intersects flag = false) :
    (f ||| g).contains flag = f.contains flag := by
  rw [Bool.eq_iff_iff]
  refine ⟨fun hall ↦ ?_, contains_trans (contains_or_left f g)⟩
  rw [contains_iff] at hall ⊢
  intro i hi
  have hbit := hall i hi
  rw [bit_or, Bool.or_eq_true] at hbit
  refine hbit.resolve_right fun hgi ↦ ?_
  rw [intersects_iff.mpr ⟨i, hgi, hi⟩] at hg
  exact Bool.noConfusion hg

theorem intersects_or (f g h : ScriptFlags) :
    f.intersects (g ||| h) = (f.intersects g || f.intersects h) := by
  rw [Bool.eq_iff_iff, Bool.or_eq_true]
  simp only [intersects_iff, bit_or, Bool.or_eq_true, and_or_left, exists_or]

theorem eq_of_bit_ofBit {k : UInt32} {i : Nat} (hi : (ofBit k).bit i = true) :
    i = (k.toBitVec % 32).toNat := by
  unfold bit ofBit at hi
  rw [UInt32.toBitVec_shiftLeft, BitVec.shiftLeft_eq', BitVec.getLsbD_shiftLeft] at hi
  simp only [UInt32.toBitVec_one, BitVec.getLsbD_one, Bool.and_eq_true, Bool.not_eq_true',
    decide_eq_true_eq, decide_eq_false_iff_not] at hi
  omega

/-- A set without a single flag has nothing in common with it. -/
theorem intersects_ofBit {k : UInt32} (hk : f.contains (ofBit k) = false) :
    f.intersects (ofBit k) = false := by
  rw [← Bool.not_eq_true] at hk ⊢
  intro hboth
  obtain ⟨i, hf, hi⟩ := intersects_iff.mp hboth
  apply hk
  rw [contains_iff]
  intro j hj
  rw [eq_of_bit_ofBit hj, ← eq_of_bit_ofBit hi]
  exact hf

/-! ## Agreement -/

/-- Two sets have the same flags among those of a third one. -/
def AgreesOn (among f g : ScriptFlags) : Prop :=
  ∀ i, among.bit i = true → f.bit i = g.bit i

namespace AgreesOn

variable {among : ScriptFlags}

theorem refl (among f : ScriptFlags) : among.AgreesOn f f := fun _ _ ↦ rfl

theorem symm (hfg : among.AgreesOn f g) : among.AgreesOn g f :=
  fun i hi ↦ (hfg i hi).symm

theorem mono (hfg : among.AgreesOn f g) (hflag : among.contains flag = true) : flag.AgreesOn f g :=
  fun i hi ↦ hfg i (contains_iff.mp hflag i hi)

/-- Flags that are added elsewhere do not matter. -/
theorem or_right (f : ScriptFlags) (hgh : h.contains g = true) (hh : among.intersects h = false) :
    among.AgreesOn (f ||| g) f := by
  intro i hi
  cases hbit : g.bit i with
  | false => rw [bit_or, hbit, Bool.or_false]
  | true =>
    rw [intersects_iff.mpr ⟨i, hi, contains_iff.mp hgh i hbit⟩] at hh
    exact Bool.noConfusion hh

theorem and_eq (hfg : among.AgreesOn f g) (hflag : among.contains flag = true) :
    f &&& flag = g &&& flag := by
  apply eq_of_bit
  intro i
  rw [bit_and, bit_and]
  cases hbit : flag.bit i with
  | false => rw [Bool.and_false, Bool.and_false]
  | true => rw [hfg.mono hflag i hbit]

theorem contains_eq (hfg : among.AgreesOn f g) (flag : ScriptFlags)
    (hflag : among.contains flag = true) : f.contains flag = g.contains flag := by
  change ((f &&& flag).bits == flag.bits) = ((g &&& flag).bits == flag.bits)
  rw [hfg.and_eq hflag]

theorem intersects_eq (hfg : among.AgreesOn f g) (flag : ScriptFlags)
    (hflag : among.contains flag = true) : f.intersects flag = g.intersects flag := by
  change ((f &&& flag).bits != 0) = ((g &&& flag).bits != 0)
  rw [hfg.and_eq hflag]

end AgreesOn

/-! ## Restricting flags -/

/-- The flags that can only make a script fail. -/
def restricting : ScriptFlags :=
  p2sh ||| strictEnc ||| derSig ||| lowS ||| sigPushOnly ||| minimalData |||
    discourageUpgradableNops ||| cleanStack ||| checkLockTimeVerify ||| checkSequenceVerify |||
    minimalIf ||| nullFail ||| disallowSegwitRecovery ||| inputSigChecks

/-- The second set lacks some restricting flags of the first. It may lack those that give a meaning to
an opcode only if it lets the opcode pass in its old meaning. -/
structure Restricts (f g : ScriptFlags) : Prop where
  contains : f.contains g = true
  extra : restricting.contains (f.without g) = true
  lockTime : g.contains .discourageUpgradableNops = true →
    f.contains .checkLockTimeVerify = true → g.contains .checkLockTimeVerify = true
  sequence : g.contains .discourageUpgradableNops = true →
    f.contains .checkSequenceVerify = true → g.contains .checkSequenceVerify = true

namespace Restricts

theorem refl (f : ScriptFlags) : f.Restricts f where
  contains := contains_self f
  extra := contains_iff.mpr fun i hi ↦ by
    rw [bit_without, Bool.and_not_self] at hi
    exact Bool.noConfusion hi
  lockTime _ hf := hf
  sequence _ hf := hf

theorem mono (hfg : f.Restricts g) (flag : ScriptFlags) (hflag : g.contains flag = true) :
    f.contains flag = true :=
  contains_trans hfg.contains hflag

/-- Flags that change what a script means are in both sets or in none. -/
theorem contains_eq (hfg : f.Restricts g) (flag : ScriptFlags)
    (hflag : restricting.intersects flag = false) : f.contains flag = g.contains flag := by
  rw [Bool.eq_iff_iff]
  refine ⟨fun hf ↦ ?_, hfg.mono flag⟩
  rw [contains_iff] at hf ⊢
  intro i hi
  cases hg : g.bit i with
  | true => rfl
  | false =>
    have hextra : (f.without g).bit i = true := by rw [bit_without, hf i hi, hg]; rfl
    have hrestricting : restricting.bit i = true := contains_iff.mp hfg.extra i hextra
    have hintersects : restricting.intersects flag = true := intersects_iff.mpr ⟨i, hrestricting, hi⟩
    rw [hintersects] at hflag
    exact absurd hflag Bool.noConfusion

/-- A flag that is added to both sets, and is none of those that give a meaning to an opcode. -/
theorem or (hfg : f.Restricts g) {flag : ScriptFlags}
    (hnop : flag.intersects .discourageUpgradableNops = false)
    (hlock : flag.intersects .checkLockTimeVerify = false)
    (hsequence : flag.intersects .checkSequenceVerify = false) :
    (f ||| flag).Restricts (g ||| flag) where
  contains := contains_iff.mpr fun i hi ↦ by
    rw [bit_or, Bool.or_eq_true] at hi ⊢
    exact hi.imp_left (contains_iff.mp hfg.contains i)
  extra := contains_iff.mpr fun i hi ↦ by
    apply contains_iff.mp hfg.extra i
    rw [bit_without, bit_or, bit_or] at hi
    rw [bit_without]
    cases hflag : flag.bit i with
    | true => simp [hflag] at hi
    | false => simpa [hflag] using hi
  lockTime := by
    rw [contains_or_of_disjoint g hnop, contains_or_of_disjoint f hlock,
      contains_or_of_disjoint g hlock]
    exact hfg.lockTime
  sequence := by
    rw [contains_or_of_disjoint g hnop, contains_or_of_disjoint f hsequence,
      contains_or_of_disjoint g hsequence]
    exact hfg.sequence

end Restricts

end UtxoConsensus.ScriptFlags
