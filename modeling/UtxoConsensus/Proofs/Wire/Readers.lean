import UtxoConsensus.Proofs.Bytes.FixedWidth
import UtxoConsensus.Wire.Decoder

/-!
# Decoders that invert encoders

A decoder inverts an encoder if it accepts exactly what the encoder writes: it returns a value if and
only if the unread bytes begin with the written form of that value, and it leaves what follows. Both
halves of a codec are in this one statement, that what was written is read back, and that there is no
other way to write it. A decoder that is put together from smaller ones is taken apart by the rules for
single steps.
-/

namespace UtxoConsensus.Decoder

/-- The decoder accepts exactly what the encoder writes for good values. -/
def Inverts (d : Decoder α) (encode : α → Bytes) (good : α → Prop) : Prop :=
  ∀ (unread : Bytes) (a : α) (rest : Bytes),
    d.run unread = .ok a rest ↔ good a ∧ unread = encode a ++ rest

/-! ## Single steps -/

section Steps

variable {d : Decoder α} {unread rest : Bytes}

theorem run_pure_eq_ok {a b : α} :
    (pure a : Decoder α).run unread = .ok b rest ↔ b = a ∧ unread = rest := by
  change EStateM.Result.ok a unread = .ok b rest ↔ _
  rw [EStateM.Result.ok.injEq]
  exact and_congr_left fun _ ↦ eq_comm

/-- A decoder that goes on with what another one left. -/
theorem run_bind_eq_ok {f : α → Decoder β} {b : β} :
    (d >>= f).run unread = .ok b rest ↔
      ∃ a middle, d.run unread = .ok a middle ∧ (f a).run middle = .ok b rest := by
  change d.bind f unread = .ok b rest ↔ ∃ a middle, d unread = .ok a middle ∧ f a middle = .ok b rest
  unfold EStateM.bind
  cases d unread with
  | ok a middle =>
    constructor
    · intro h
      exact ⟨a, middle, rfl, h⟩
    · rintro ⟨_, _, heq, h⟩
      cases heq
      exact h
  | error e middle => simp

theorem run_throw_eq_ok {e : DecodeError} {a : α} :
    (throw e : Decoder α).run unread = .ok a rest ↔ False := by
  change EStateM.Result.error e unread = .ok a rest ↔ False
  simp

/-- A decoder that fails under a condition, and goes on otherwise. -/
theorem run_unless_eq_ok {condition : Prop} [Decidable condition] {e : DecodeError}
    {unreached : γ → Decoder α} {a : α} :
    (if condition then (throw e : Decoder γ) >>= unreached else d).run unread = .ok a rest ↔
      ¬ condition ∧ d.run unread = .ok a rest := by
  by_cases hcondition : condition
  · rw [if_pos hcondition, run_bind_eq_ok]
    simp only [run_throw_eq_ok, hcondition, not_true_eq_false, false_and, exists_false]
  · rw [if_neg hcondition]
    simp only [hcondition, not_false_eq_true, true_and]

/-- Two first steps, one of which is taken, before the same second step. -/
theorem run_ite_bind {condition : Prop} [Decidable condition] {e : Decoder α}
    {next : α → Decoder β} :
    (if condition then d >>= next else e >>= next).run unread =
      ((if condition then d else e) >>= next).run unread := by
  by_cases hcondition : condition
  · rw [if_pos hcondition, if_pos hcondition]
  · rw [if_neg hcondition, if_neg hcondition]

end Steps

/-! ## Rules -/

namespace Inverts

variable {d : Decoder α} {encode : α → Bytes} {good : α → Prop}

/-- A decoder accepts exactly what was written. -/
theorem run_eq_ok (h : d.Inverts encode good) {unread rest : Bytes} {a : α} :
    d.run unread = .ok a rest ↔ good a ∧ unread = encode a ++ rest :=
  h unread a rest

/-- The first of two steps takes the written form of a good value from the front. -/
theorem run_bind_eq_ok (h : d.Inverts encode good) {next : α → Decoder β} {unread rest : Bytes}
    {b : β} :
    (d >>= next).run unread = .ok b rest ↔
      ∃ a middle, good a ∧ unread = encode a ++ middle ∧ (next a).run middle = .ok b rest := by
  rw [Decoder.run_bind_eq_ok]
  simp only [h.run_eq_ok, and_assoc]

/-- What was written is read back, whatever follows it. -/
theorem run_encode (h : d.Inverts encode good) {a : α} (ha : good a) (rest : Bytes) :
    d.run (encode a ++ rest) = .ok a rest :=
  h.run_eq_ok.mpr ⟨ha, rfl⟩

/-- Written forms end where they say: no good value can be taken for another one. -/
theorem append_inj (h : d.Inverts encode good) {a b : α} {rest rest' : Bytes} (ha : good a)
    (hb : good b) (heq : encode a ++ rest = encode b ++ rest') : a = b ∧ rest = rest' := by
  have hread : d.run (encode b ++ rest') = .ok a rest := heq ▸ h.run_encode ha rest
  rw [h.run_encode hb rest', EStateM.Result.ok.injEq] at hread
  exact ⟨hread.1.symm, hread.2.symm⟩

/-- A value that is computed from the one that was read, and determines it. -/
theorem map (h : d.Inverts encode good) {f : α → β} {g : β → α} {good' : β → Prop}
    (hgf : ∀ a, good a → good' (f a) ∧ g (f a) = a) (hfg : ∀ b, good' b → good (g b) ∧ f (g b) = b) :
    Inverts (d >>= fun a ↦ pure (f a)) (fun b ↦ encode (g b)) good' := by
  intro unread b rest
  simp only [h.run_bind_eq_ok, run_pure_eq_ok]
  constructor
  · rintro ⟨a, _, ha, rfl, rfl, rfl⟩
    obtain ⟨hb, hinverse⟩ := hgf a ha
    rw [hinverse]
    exact ⟨hb, rfl⟩
  · rintro ⟨hb, rfl⟩
    obtain ⟨ha, hinverse⟩ := hfg b hb
    exact ⟨g b, rest, ha, rfl, hinverse.symm, rfl⟩

/-- Values one after the other. -/
theorem times (h : d.Inverts encode good) (count : Nat) :
    Inverts (d.times count) (List.flatMap encode) fun l ↦ l.length = count ∧ ∀ a ∈ l, good a := by
  induction count with
  | zero =>
    intro unread l rest
    unfold Decoder.times
    rw [run_pure_eq_ok]
    constructor
    · rintro ⟨rfl, rfl⟩
      simp
    · rintro ⟨⟨hlength, -⟩, rfl⟩
      rw [List.length_eq_zero_iff] at hlength
      simp [hlength]
  | succ count ih =>
    intro unread l rest
    unfold Decoder.times
    simp only [h.run_bind_eq_ok, ih.run_bind_eq_ok, run_pure_eq_ok]
    constructor
    · rintro ⟨a, _, ha, rfl, l, _, ⟨rfl, hl⟩, rfl, rfl, rfl⟩
      simpa [ha] using hl
    · rintro ⟨⟨hlength, hall⟩, rfl⟩
      cases l with
      | nil => simp at hlength
      | cons a l =>
        rw [List.length_cons, Nat.add_right_cancel_iff] at hlength
        rw [List.forall_mem_cons] at hall
        refine ⟨a, l.flatMap encode ++ rest, hall.1, ?_, l, rest, ⟨hlength, hall.2⟩, rfl, rfl, rfl⟩
        rw [List.flatMap_cons, List.append_assoc]

end Inverts

/-! ## Fixed widths -/

theorem inverts_bytes (count : Nat) : (bytes count).Inverts id fun b ↦ b.length = count := by
  intro unread b rest
  change (if (unread.take count).length < count then _ else _) = EStateM.Result.ok b rest ↔ _
  split
  · next hshort =>
    constructor
    · intro h
      cases h
    · rintro ⟨rfl, rfl⟩
      simp at hshort
  · next hlong =>
    rw [EStateM.Result.ok.injEq]
    constructor
    · rintro ⟨rfl, rfl⟩
      have hle : (unread.take count).length ≤ count := List.length_take_le _ _
      exact ⟨by omega, (List.take_append_drop count unread).symm⟩
    · rintro ⟨rfl, rfl⟩
      simp

theorem inverts_number (width : Nat) :
    (number width).Inverts (Bytes.ofNat width) fun n ↦ n < 256 ^ width := by
  intro unread n rest
  unfold number
  simp only [(inverts_bytes width).run_bind_eq_ok, run_pure_eq_ok]
  constructor
  · rintro ⟨b, _, rfl, rfl, rfl, rfl⟩
    rw [Bytes.ofNat_toNat]
    exact ⟨b.toNat_lt, rfl⟩
  · rintro ⟨hn, rfl⟩
    exact ⟨Bytes.ofNat width n, rest, Bytes.length_ofNat width n, rfl, (Bytes.toNat_ofNat hn).symm, rfl⟩

theorem inverts_uint8 : uint8.Inverts (fun b ↦ [b]) fun _ ↦ True := by
  have hword : uint8.Inverts (fun b ↦ Bytes.ofNat 1 b.toNat) fun _ ↦ True :=
    (inverts_number 1).map (fun n hn ↦ ⟨trivial, UInt8.toNat_ofNat_of_lt hn⟩)
      (fun b _ ↦ ⟨b.toNat_lt, UInt8.ofNat_toNat⟩)
  have hencode (b : UInt8) : Bytes.ofNat 1 b.toNat = [b] := by
    rw [Bytes.ofNat, Bytes.ofNat, Nat.mod_eq_of_lt b.toNat_lt, UInt8.ofNat_toNat]
  simpa only [hencode] using hword

theorem inverts_uint32 : uint32.Inverts Bytes.ofUInt32 fun _ ↦ True :=
  (inverts_number 4).map (fun _ hn ↦ ⟨trivial, UInt32.toNat_ofNat_of_lt hn⟩)
    (fun x _ ↦ ⟨x.toNat_lt, UInt32.ofNat_toNat⟩)

theorem inverts_uint64 : uint64.Inverts Bytes.ofUInt64 fun _ ↦ True :=
  (inverts_number 8).map (fun _ hn ↦ ⟨trivial, UInt64.toNat_ofNat_of_lt hn⟩)
    (fun x _ ↦ ⟨x.toNat_lt, UInt64.ofNat_toNat⟩)

theorem inverts_int32 : int32.Inverts Bytes.ofInt32 fun _ ↦ True :=
  inverts_uint32.map (fun _ _ ↦ ⟨trivial, rfl⟩) (fun _ _ ↦ ⟨trivial, rfl⟩)

theorem inverts_int64 : int64.Inverts Bytes.ofInt64 fun _ ↦ True :=
  inverts_uint64.map (fun _ _ ↦ ⟨trivial, rfl⟩) (fun _ _ ↦ ⟨trivial, rfl⟩)

theorem inverts_hash : hash.Inverts Hash256.bytes fun _ ↦ True := by
  intro unread h rest
  change (if hlength : (unread.take 32).length = 32 then _ else _) = EStateM.Result.ok h rest ↔ _
  split
  · next hlength =>
    rw [EStateM.Result.ok.injEq]
    constructor
    · rintro ⟨rfl, rfl⟩
      exact ⟨trivial, (List.take_append_drop 32 unread).symm⟩
    · rintro ⟨-, rfl⟩
      constructor
      · cases h with
        | mk bytes hbytes => simp [List.take_left' hbytes]
      · exact List.drop_left' h.length_bytes
  · next hlength =>
    constructor
    · intro hread
      cases hread
    · rintro ⟨-, rfl⟩
      rw [List.take_left' h.length_bytes] at hlength
      exact absurd h.length_bytes hlength

/-! ## Whole inputs -/

theorem runWhole_eq_ok {d : Decoder α} {data : Bytes} {a : α} :
    d.runWhole data = .ok a ↔ d.run data = .ok a [] := by
  unfold runWhole
  cases hrun : d.run data with
  | error e rest => simp
  | ok b rest => cases rest <;> simp

end UtxoConsensus.Decoder
