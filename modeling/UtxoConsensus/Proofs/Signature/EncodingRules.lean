import UtxoConsensus.Proofs.Script.FlagSets
import UtxoConsensus.Signature.Encoding

/-!
# What the encoding rules let pass

Under fewer restricting flags every rule for signatures and keys lets at least as much pass. Under
strict encoding a signature that passes has a hash type that agrees with the flags on replay
protection, and a key that passes has one of the two plain forms.
-/

namespace UtxoConsensus.Encoding

variable {f g : ScriptFlags} {sig key : Bytes}

/-! ## Under fewer flags -/

/-- Each rule is dropped with its flag. -/
theorem checkEcdsa_mono (hfg : f.Restricts g) (h : checkEcdsa f sig = .ok ()) :
    checkEcdsa g sig = .ok () := by
  unfold checkEcdsa at h ⊢
  cases hlength : isSchnorr sig with
  | true => simp [hlength] at h
  | false =>
    simp only [hlength, Bool.false_eq_true, if_false] at h ⊢
    cases hder : f.intersects (.derSig ||| .lowS ||| .strictEnc) && !isStrictDer sig with
    | true => simp [hder] at h
    | false =>
      have hder' : (g.intersects (.derSig ||| .lowS ||| .strictEnc) && !isStrictDer sig) = false := by
        rw [Bool.and_eq_false_imp] at hder ⊢
        exact fun hg ↦ hder (ScriptFlags.intersects_mono hfg.contains hg)
      simp only [hder, hder', Bool.false_eq_true, if_false] at h ⊢
      cases hlow : f.contains .lowS && !Curve.hasLowS sig with
      | true => simp [hlow] at h
      | false =>
        have hlow' : (g.contains .lowS && !Curve.hasLowS sig) = false := by
          rw [Bool.and_eq_false_imp] at hlow ⊢
          exact fun hg ↦ hlow (hfg.mono _ hg)
        simp only [hlow', Bool.false_eq_true, if_false]

theorem checkSchnorr_mono (h : checkSchnorr f sig = .ok ()) : checkSchnorr g sig = .ok () :=
  h

theorem checkEither_mono (hfg : f.Restricts g) (h : checkEither f sig = .ok ()) :
    checkEither g sig = .ok () := by
  unfold checkEither at h ⊢
  split
  · rfl
  · next hlength =>
    rw [if_neg hlength] at h
    exact checkEcdsa_mono hfg h

/-- With fewer flags less is asked of a hash type. -/
theorem checkHashType_mono (hfg : f.Restricts g) (h : checkHashType f sig = .ok ()) :
    checkHashType g sig = .ok () := by
  have hfork := hfg.contains_eq .enableSighashForkId (by decide)
  have htokens := hfg.contains_eq .enableTokens (by decide)
  unfold checkHashType at h ⊢
  cases hg : g.contains .strictEnc with
  | false => rfl
  | true =>
    rw [hfg.mono _ hg, hfork, htokens] at h
    exact h

theorem checkTransaction_mono {body : ScriptFlags → Bytes → Check}
    (hbody : ∀ sig, body f sig = .ok () → body g sig = .ok ()) (hfg : f.Restricts g)
    (h : checkTransaction body f sig = .ok ()) : checkTransaction body g sig = .ok () := by
  unfold checkTransaction at h ⊢
  split
  · rfl
  · next hempty =>
    rw [if_neg hempty] at h
    cases hf : body f sig.dropLast with
    | error e =>
      rw [hf] at h
      cases h
    | ok u =>
      rw [hf] at h
      rw [hbody _ hf]
      exact checkHashType_mono hfg h

theorem checkDataSignature_mono (hfg : f.Restricts g) (h : checkDataSignature f sig = .ok ()) :
    checkDataSignature g sig = .ok () := by
  unfold checkDataSignature at h ⊢
  split
  · rfl
  · next hempty =>
    rw [if_neg hempty] at h
    exact checkEither_mono hfg h

theorem checkPublicKey_mono (hfg : f.Restricts g) (h : checkPublicKey f key = .ok ()) :
    checkPublicKey g key = .ok () := by
  unfold checkPublicKey at h ⊢
  cases hg : g.contains .strictEnc with
  | false => rfl
  | true =>
    rw [hfg.mono _ hg] at h
    exact h

/-! ## Under strict encoding -/

/-- The hash type has been looked at, unless there is none. -/
theorem hashType_of_checkTransaction {body : ScriptFlags → Bytes → Check}
    (h : checkTransaction body f sig = .ok ()) : sig = [] ∨ checkHashType f sig = .ok () := by
  unfold checkTransaction at h
  cases sig with
  | nil => exact .inl rfl
  | cons first rest =>
    right
    cases hbody : body f (first :: rest).dropLast with
    | error e =>
      rw [List.isEmpty_cons, if_neg Bool.false_ne_true, hbody] at h
      cases h
    | ok u =>
      rw [List.isEmpty_cons, if_neg Bool.false_ne_true, hbody] at h
      exact h

/-- Under strict encoding the bit of the fork is set if the fork is active, and only then. -/
theorem hasForkId_of_checkHashType (hstrict : f.contains .strictEnc = true)
    (h : checkHashType f sig = .ok ()) :
    (HashType.ofSignature sig).hasForkId = f.contains .enableSighashForkId := by
  unfold checkHashType at h
  rw [hstrict] at h
  cases hfork : f.contains .enableSighashForkId <;>
    cases hbit : (HashType.ofSignature sig).hasForkId <;>
      first
      | rfl
      | cases hdefined : (HashType.ofSignature sig).isDefined <;> simp [hfork, hbit, hdefined] at h

theorem hasPlainKeyForm_of_checkPublicKey (hstrict : f.contains .strictEnc = true)
    (h : checkPublicKey f key = .ok ()) : hasPlainKeyForm key = true := by
  unfold checkPublicKey at h
  rw [hstrict] at h
  cases hform : hasPlainKeyForm key with
  | true => rfl
  | false =>
    rw [hform] at h
    cases h

end UtxoConsensus.Encoding
