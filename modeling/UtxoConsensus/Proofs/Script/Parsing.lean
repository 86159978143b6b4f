import UtxoConsensus.Proofs.Bytes.FixedWidth
import UtxoConsensus.Script.Template

/-!
# Cutting scripts into instructions

Parsing takes one instruction from the front at a time. The locking scripts that name another script
by its hash are cut into three instructions: hash, push, compare.
-/

namespace UtxoConsensus

namespace Instruction

theorem lengthFieldSize_eq_zero {opcode : UInt8} (hopcode : opcode.toNat < 0x4c) :
    lengthFieldSize opcode = 0 := by
  have hne (other : UInt8) (hother : 0x4c ≤ other.toNat) : opcode ≠ other := by
    rintro rfl
    omega
  unfold lengthFieldSize
  rw [if_neg (hne _ (by decide)), if_neg (hne _ (by decide)), if_neg (hne _ (by decide))]

/-- Bytes that have the lengths they announce are read as a push. -/
theorem first?_of_lengths {opcode : UInt8} (hopcode : opcode ≤ Opcode.pushData4) {field data : Bytes}
    (hfield : field.length = lengthFieldSize opcode) (hdata : data.length = pushSize opcode field)
    (rest : Bytes) : first? (opcode :: (field ++ (data ++ rest))) = some ⟨opcode, field, data, rest⟩ := by
  unfold first? readPush?
  simp [hopcode, ← hfield, ← hdata]

/-- An opcode that pushes as many bytes as it says, with the data behind it. -/
theorem first?_push {data : Bytes} (hlength : data.length < 0x4c) (rest : Bytes) :
    first? (UInt8.ofNat data.length :: (data ++ rest)) =
      some ⟨UInt8.ofNat data.length, [], data, rest⟩ := by
  have hnat : (UInt8.ofNat data.length).toNat = data.length := by
    rw [UInt8.toNat_ofNat']
    omega
  have hle : UInt8.ofNat data.length ≤ Opcode.pushData4 := by
    rw [UInt8.le_iff_toNat_le, hnat]
    exact Nat.le_trans (Nat.le_of_lt hlength) (by decide)
  have hfield : lengthFieldSize (UInt8.ofNat data.length) = 0 :=
    lengthFieldSize_eq_zero (by rwa [hnat])
  have hsize : data.length = pushSize (UInt8.ofNat data.length) [] := by
    unfold pushSize
    rw [if_pos hfield, hnat]
  have hnone : ([] : Bytes).length = lengthFieldSize (UInt8.ofNat data.length) := hfield.symm
  exact first?_of_lengths hle hnone hsize rest

/-- An opcode that is not followed by data. -/
theorem first?_opcode {opcode : UInt8} (hopcode : Opcode.pushData4 < opcode) (rest : Bytes) :
    first? (opcode :: rest) = some ⟨opcode, [], [], rest⟩ := by
  exact if_neg (UInt8.not_le.mpr hopcode)

/-- A push is as long as it says, and any other instruction is a single byte. -/
theorem cases_of_first? {script : Bytes} {i : Instruction} (h : first? script = some i) :
    i.opcode ≤ Opcode.pushData4 ∧ i.lengthField.length = lengthFieldSize i.opcode ∧
        i.data.length = pushSize i.opcode i.lengthField ∨
      ¬ i.opcode ≤ Opcode.pushData4 ∧ i.bytes = [i.opcode] := by
  cases script with
  | nil => cases h
  | cons opcode after =>
    unfold first? at h
    dsimp only at h
    split at h
    · next hpush =>
      unfold readPush? at h
      dsimp only at h
      split at h
      · cases h
      · next hroom =>
        cases h
        rw [Bool.or_eq_true, not_or, decide_eq_true_eq, decide_eq_true_eq, Nat.not_lt, Nat.not_lt] at hroom
        exact .inl ⟨hpush, Nat.le_antisymm (List.length_take_le _ _) hroom.1,
          Nat.le_antisymm (List.length_take_le _ _) hroom.2⟩
    · next hpush =>
      cases h
      exact .inr ⟨hpush, rfl⟩

/-- The bytes of an instruction are that instruction by themselves. -/
theorem first?_bytes {script : Bytes} {i : Instruction} (h : first? script = some i) :
    first? i.bytes = some ⟨i.opcode, i.lengthField, i.data, []⟩ := by
  rcases cases_of_first? h with ⟨hpush, hfield, hdata⟩ | ⟨hpush, hbytes⟩
  · have hread := first?_of_lengths hpush hfield hdata []
    rwa [List.append_nil] at hread
  · have hnone : i.lengthField ++ i.data = [] := List.tail_eq_of_cons_eq hbytes
    rw [List.append_eq_nil_iff] at hnone
    rw [hbytes, hnone.1, hnone.2]
    exact first?_opcode (UInt8.not_le.mp hpush) []

/-! ## Longer scripts -/

/-- The same instruction in a longer script. -/
def before (i : Instruction) (script : Bytes) : Instruction :=
  { i with rest := i.rest ++ script }

/-- More bytes behind a push do not change it. -/
theorem readPush?_append {opcode : UInt8} {after : Bytes} {i : Instruction}
    (h : readPush? opcode after = some i) (script : Bytes) :
    readPush? opcode (after ++ script) = some (i.before script) := by
  unfold readPush? at h ⊢
  simp only [Option.ite_none_left_eq_some, Bool.or_eq_true, decide_eq_true_eq, not_or, Nat.not_lt,
    List.length_take, Nat.le_min, Option.some.injEq] at h ⊢
  obtain ⟨⟨⟨-, hfield⟩, -, hdata⟩, rfl⟩ := h
  rw [List.take_append_of_le_length hfield, List.drop_append_of_le_length hfield,
    List.take_append_of_le_length hdata, List.drop_append_of_le_length hdata]
  simp only [List.length_append]
  exact ⟨⟨⟨Nat.le_refl _, by omega⟩, Nat.le_refl _, by omega⟩, rfl⟩

/-- More bytes behind an instruction do not change it. -/
theorem first?_append {s : Bytes} {i : Instruction} (h : first? s = some i) (script : Bytes) :
    first? (s ++ script) = some (i.before script) := by
  cases s with
  | nil => cases h
  | cons opcode after =>
    change (if opcode ≤ Opcode.pushData4 then readPush? opcode after else _) = _ at h
    change (if opcode ≤ Opcode.pushData4 then readPush? opcode (after ++ script) else _) = _
    split at h
    · next hpush =>
      rw [if_pos hpush]
      exact readPush?_append h script
    · next hpush =>
      rw [if_neg hpush]
      cases h
      rfl

end Instruction

namespace Script

theorem parse_nil : parse [] = ⟨[], []⟩ := by
  unfold parse
  rfl

theorem parse_of_first? {script : Bytes} {i : Instruction} (h : Instruction.first? script = some i) :
    parse script = ⟨i :: (parse i.rest).instructions, (parse i.rest).tail⟩ := by
  rw [parse]
  split
  · next hnone =>
    rw [h] at hnone
    cases hnone
  · next first hfirst =>
    rw [h] at hfirst
    cases hfirst
    rfl

theorem parse_of_first?_eq_none {script : Bytes} (h : Instruction.first? script = none) :
    parse script = ⟨[], script⟩ := by
  rw [parse]
  split
  · rfl
  · next hsome =>
    rw [h] at hsome
    cases hsome

/-- A script that is cut up to its end is cut in the same places when something follows. -/
theorem parse_append {s : Bytes} (hs : (parse s).tail = []) (script : Bytes) :
    parse (s ++ script) = ⟨(parse s).instructions.map (·.before script) ++ (parse script).instructions,
      (parse script).tail⟩ := by
  fun_induction parse s with
  | case1 s hnone =>
    subst hs
    rfl
  | case2 s i hfirst parsed ih =>
    rw [parse_of_first? (Instruction.first?_append hfirst script)]
    change (⟨_ :: (parse (i.rest ++ script)).instructions, (parse (i.rest ++ script)).tail⟩ : Parsed) = _
    rw [ih hs]
    rfl

/-! ## Pushes -/

/-- For data of two bytes and more the length decides about the opcode. -/
theorem isMinimalPush_of_two_le {data : Bytes} (hmin : 2 ≤ data.length) (opcode : UInt8) :
    isMinimalPush data opcode =
      if data.length ≤ 75 then opcode.toNat == data.length
      else if data.length ≤ 255 then opcode == Opcode.pushData1
      else if data.length ≤ 65535 then opcode == Opcode.pushData2
      else true := by
  match data, hmin with
  | _ :: _ :: _, _ => rfl

/-- The opcode of the shortest push that names the length of its data. -/
def pushOpcode (size : Nat) : UInt8 :=
  if size < 0x4c then UInt8.ofNat size
  else if size ≤ 0xff then Opcode.pushData1
  else if size ≤ 0xffff then Opcode.pushData2
  else Opcode.pushData4

theorem toNat_pushOpcode {size : Nat} (hsize : size < 0x4c) : (pushOpcode size).toNat = size := by
  unfold pushOpcode
  rw [if_pos hsize, UInt8.toNat_ofNat']
  exact Nat.mod_eq_of_lt (Nat.lt_trans hsize (by decide))

theorem pushOpcode_le (size : Nat) : pushOpcode size ≤ Opcode.pushData4 := by
  by_cases hsize : size < 0x4c
  · rw [UInt8.le_iff_toNat_le, toNat_pushOpcode hsize]
    exact Nat.le_trans (Nat.le_of_lt hsize) (by decide)
  · unfold pushOpcode
    rw [if_neg hsize]
    repeat' split
    all_goals decide

/-- A push is its opcode, the length as far as the opcode does not tell it, and the data. -/
theorem exists_pushData_eq {data : Bytes} (hlength : data.length < UInt32.size) :
    ∃ field, pushData data = pushOpcode data.length :: (field ++ data) ∧
      field.length = Instruction.lengthFieldSize (pushOpcode data.length) ∧
      data.length = Instruction.pushSize (pushOpcode data.length) field := by
  by_cases hshort : data.length < 0x4c
  · have hnat := toNat_pushOpcode hshort
    have hfield := Instruction.lengthFieldSize_eq_zero (hnat.symm ▸ hshort)
    refine ⟨[], ?_, hfield.symm, ?_⟩
    · unfold pushData pushOpcode
      rw [if_pos hshort, if_pos hshort]
      rfl
    · unfold Instruction.pushSize
      rw [if_pos hfield, hnat]
  have hpush (width : Nat) (hwidth : data.length < 256 ^ width) :
      data.length = Bytes.toNat (Bytes.ofNat width data.length) := (Bytes.toNat_ofNat hwidth).symm
  unfold pushData pushOpcode
  rw [if_neg hshort, if_neg hshort]
  by_cases hone : data.length ≤ 0xff
  · rw [if_pos hone, if_pos hone]
    refine ⟨Bytes.ofNat 1 data.length, ?_, Bytes.length_ofNat 1 _, hpush 1 (Nat.lt_succ_of_le hone)⟩
    change _ = _ :: UInt8.ofNat (data.length % 256) :: data
    rw [Nat.mod_eq_of_lt (Nat.lt_succ_of_le hone)]
  rw [if_neg hone, if_neg hone]
  by_cases htwo : data.length ≤ 0xffff
  · rw [if_pos htwo, if_pos htwo]
    exact ⟨_, rfl, Bytes.length_ofNat 2 _, hpush 2 (Nat.lt_succ_of_le htwo)⟩
  · rw [if_neg htwo, if_neg htwo]
    exact ⟨_, rfl, Bytes.length_ofNat 4 _, hpush 4 hlength⟩

/-- Whatever follows, a push is read first. -/
theorem exists_first?_pushData {data : Bytes} (hlength : data.length < UInt32.size) (rest : Bytes) :
    ∃ field, Instruction.first? (pushData data ++ rest) =
      some ⟨pushOpcode data.length, field, data, rest⟩ := by
  obtain ⟨field, heq, hfield, hdata⟩ := exists_pushData_eq hlength
  refine ⟨field, ?_⟩
  rw [heq, List.cons_append, List.append_assoc]
  exact Instruction.first?_of_lengths (pushOpcode_le _) hfield hdata rest

/-- The opcode that is written is the shortest one. -/
theorem isMinimalPush_pushOpcode {data : Bytes} (hmin : 2 ≤ data.length) :
    isMinimalPush data (pushOpcode data.length) = true := by
  rw [isMinimalPush_of_two_le hmin]
  by_cases hshort : data.length < 0x4c
  · rw [if_pos (Nat.le_of_lt_succ hshort), toNat_pushOpcode hshort, beq_self_eq_true]
  · rw [if_neg (fun hle ↦ hshort (Nat.lt_succ_of_le hle))]
    unfold pushOpcode
    rw [if_neg hshort]
    repeat' split
    all_goals rfl

/-- Data of two bytes or more is one minimal push, unless its length needs more than two bytes. -/
theorem exists_parse_pushData {data : Bytes} (hmin : 2 ≤ data.length) (hmax : data.length ≤ 65535) :
    ∃ opcode field, parse (pushData data) = ⟨[⟨opcode, field, data, []⟩], []⟩ ∧
      opcode ≤ Opcode.pushData4 ∧ isMinimalPush data opcode = true := by
  have hlength : data.length < UInt32.size := Nat.lt_of_le_of_lt hmax (by decide)
  obtain ⟨field, hfirst⟩ := exists_first?_pushData hlength []
  rw [List.append_nil] at hfirst
  refine ⟨_, field, ?_, pushOpcode_le _, isMinimalPush_pushOpcode hmin⟩
  rw [parse_of_first? hfirst, parse_nil]

/-! ## Scripts that name a script by its hash -/

def ScriptHashKind.opcode : ScriptHashKind → UInt8
  | .hash160 => Opcode.hash160
  | .hash256 => Opcode.hash256

def ScriptHashKind.size : ScriptHashKind → Nat
  | .hash160 => 20
  | .hash256 => 32

/-- The long form of script hash is all that depends on the flags. -/
theorem isPayToScriptHash_congr {f g : ScriptFlags}
    (hlong : f.contains .enableP2sh32 = g.contains .enableP2sh32) (script : Bytes) :
    isPayToScriptHash script f = isPayToScriptHash script g := by
  unfold isPayToScriptHash scriptHashKind?
  rw [hlong]

theorem eq_of_ends {script : Bytes} {first second last : UInt8} {size : Nat}
    (hlength : script.length = size + 3) (htake : script.take 2 = [first, second])
    (hdrop : script.drop (size + 2) = [last]) :
    ∃ hash : Bytes, hash.length = size ∧ script = first :: second :: (hash ++ [last]) := by
  refine ⟨(script.drop 2).take size, ?_, ?_⟩
  · rw [List.length_take, List.length_drop]
    omega
  · calc
      script = script.take 2 ++ script.drop 2 := (List.take_append_drop 2 script).symm
      _ = script.take 2 ++ ((script.drop 2).take size ++ (script.drop 2).drop size) := by
        rw [List.take_append_drop size]
      _ = first :: second :: ((script.drop 2).take size ++ [last]) := by
        rw [htake, List.drop_drop, Nat.add_comm 2 size, hdrop]
        rfl

/-- A script with the form of a template is the template of a hash. -/
theorem eq_of_scriptHashKind? {script : Bytes} {flags : ScriptFlags} {kind : ScriptHashKind}
    (h : scriptHashKind? script flags = some kind) :
    ∃ hash : Bytes, hash.length = kind.size ∧
      script = kind.opcode :: UInt8.ofNat kind.size :: (hash ++ [Opcode.equal]) := by
  unfold scriptHashKind? at h
  split at h
  · next hshort =>
    cases h
    simp only [Bool.and_eq_true, beq_iff_eq] at hshort
    exact eq_of_ends hshort.1.1 hshort.1.2 hshort.2
  · split at h
    · next hlong =>
      cases h
      simp only [Bool.and_eq_true, beq_iff_eq] at hlong
      exact eq_of_ends hlong.1.1.2 hlong.1.2 hlong.2
    · cases h

theorem parse_scriptHash {hash : Bytes} {kind : ScriptHashKind} (hhash : hash.length = kind.size) :
    parse (kind.opcode :: UInt8.ofNat kind.size :: (hash ++ [Opcode.equal])) =
      ⟨[⟨kind.opcode, [], [], UInt8.ofNat kind.size :: (hash ++ [Opcode.equal])⟩,
        ⟨UInt8.ofNat kind.size, [], hash, [Opcode.equal]⟩, ⟨Opcode.equal, [], [], []⟩], []⟩ := by
  have hopcode : Opcode.pushData4 < kind.opcode := by cases kind <;> decide
  have hpush : hash.length < 0x4c := by
    rw [hhash]
    cases kind <;> decide
  rw [parse_of_first? (Instruction.first?_opcode hopcode _), ← hhash,
    parse_of_first? (Instruction.first?_push hpush _),
    parse_of_first? (Instruction.first?_opcode (by decide) _), parse_nil]

def ScriptHashKind.digest : ScriptHashKind → Bytes → Bytes
  | .hash160, redeemScript => Digest.hash160 redeemScript
  | .hash256, redeemScript => (Digest.doubleSha256 redeemScript).bytes

theorem ScriptHashKind.length_digest (kind : ScriptHashKind) (redeemScript : Bytes) :
    (kind.digest redeemScript).length = kind.size := by
  cases kind with
  | hash160 => exact Digest.length_hash160 redeemScript
  | hash256 => exact (Digest.doubleSha256 redeemScript).length_bytes

def ScriptHashKind.locking (kind : ScriptHashKind) (redeemScript : Bytes) : Bytes :=
  kind.opcode :: UInt8.ofNat kind.size :: (kind.digest redeemScript ++ [Opcode.equal])

theorem ScriptHashKind.parse_locking (kind : ScriptHashKind) (redeemScript : Bytes) :
    ∃ first second, parse (kind.locking redeemScript) =
      ⟨[⟨kind.opcode, [], [], first⟩, ⟨UInt8.ofNat kind.size, [], kind.digest redeemScript, second⟩,
        ⟨Opcode.equal, [], [], []⟩], []⟩ :=
  ⟨_, _, parse_scriptHash (kind.length_digest redeemScript)⟩

theorem locking_hash160 (redeemScript : Bytes) :
    ScriptHashKind.hash160.locking redeemScript = payToScriptHash redeemScript := by
  unfold payToScriptHash pushData
  rw [Digest.length_hash160]
  rfl

theorem locking_hash256 (redeemScript : Bytes) :
    ScriptHashKind.hash256.locking redeemScript = payToScriptHash32 redeemScript := by
  unfold payToScriptHash32 pushData
  rw [(Digest.doubleSha256 redeemScript).length_bytes]
  rfl

/-- Locking scripts have the form that they are recognised by. -/
theorem isPayToScriptHash_locking {kind : ScriptHashKind} {flags : ScriptFlags}
    (hlong : kind = .hash256 → flags.contains .enableP2sh32 = true) (redeemScript : Bytes) :
    isPayToScriptHash (kind.locking redeemScript) flags = true := by
  have hhash := kind.length_digest redeemScript
  have hlength : (kind.locking redeemScript).length = kind.size + 3 := by
    unfold ScriptHashKind.locking
    rw [List.length_cons, List.length_cons, List.length_append, hhash, List.length_singleton]
  have hdrop : (kind.locking redeemScript).drop (kind.size + 2) = [Opcode.equal] := by
    unfold ScriptHashKind.locking
    rw [List.drop_succ_cons, List.drop_succ_cons, ← hhash, List.drop_left]
  unfold isPayToScriptHash scriptHashKind?
  cases kind with
  | hash160 =>
    change (ScriptHashKind.hash160.locking redeemScript).drop 22 = _ at hdrop
    rw [hlength, hdrop]
    rfl
  | hash256 =>
    change (ScriptHashKind.hash256.locking redeemScript).drop 34 = _ at hdrop
    rw [hlength, hlong rfl, hdrop]
    rfl

end Script

end UtxoConsensus
