import UtxoConsensus.Proofs.Indexed.Numbers
import UtxoConsensus.Proofs.Wire.VarInts

/-!
# Variable-length integers by positions and words

The writer fills a buffer of ten bytes from its start, the last group first, and then turns the order around.
The reader moves a word of 64 bits up by seven places for each group, and adds one where another group
follows. The buffer has room for every word, no bit of a word is lost when it is moved, and the largest word
is never added to.
-/

namespace UtxoConsensus.Indexed

open VarInt

/-! ## Words -/

/-- A word moved up by seven places, of which none of its bits is lost, and seven bits in these places. -/
def appendGroup? (word : Nat) (byte : UInt8) : Option Nat :=
  if word * 2 ^ 7 < UInt64.size then some (word <<< 7 ||| (byte &&& 0x7f).toNat) else none

/-- The next word; there is none after the largest. -/
def increment? (word : Nat) : Option Nat :=
  if word + 1 < UInt64.size then some (word + 1) else none

theorem toNat_and_group (b : UInt8) : (b &&& 0x7f).toNat = b.toNat % 0x80 := by
  rw [UInt8.toNat_and]
  exact Nat.and_two_pow_sub_one_eq_mod b.toNat 7

theorem and_mark_eq_zero_iff (b : UInt8) : b &&& 0x80 = 0 ↔ b < 0x80 := by
  revert b
  apply Bytes.forall_byte
  decide +kernel

/-- A group is appended without overflow as long as the word is below the limit. -/
theorem appendGroup?_of_le {word : Nat} (h : word ≤ 0x1ffffffffffffff) (b : UInt8) :
    appendGroup? word b = some (word * 0x80 + b.toNat % 0x80) := by
  have hgroup : b.toNat % 0x80 < 2 ^ 7 := Nat.mod_lt _ (by decide)
  unfold appendGroup?
  rw [if_pos (by simp only [UInt64.size]; omega), toNat_and_group, Nat.shiftLeft_eq, Nat.mul_comm,
    ← Nat.two_pow_add_eq_or_of_lt hgroup, Nat.mul_comm]

/-! ## The reader -/

/-- Reads on after bytes that stand for a word. -/
def readVarIntFrom? (word : Nat) : (unread : Bytes) → Option (EStateM.Result DecodeError Bytes Nat)
  | [] => some (.error (.endOfData 1 0) [])
  | byte :: rest =>
    if word > (UInt64.size - 1) >>> 7 then some (.error .varIntTooLarge rest)
    else do
      let next ← appendGroup? word byte
      if byte &&& 0x80 = 0 then some (.ok next rest)
      else if next = UInt64.size - 1 then some (.error .varIntTooLarge rest)
      else readVarIntFrom? (← increment? next) rest

/-- No bit is lost and no sum wraps. -/
theorem readVarIntFrom?_eq (word : Nat) (unread : Bytes) :
    readVarIntFrom? word unread = some (decodeFrom word unread) := by
  induction unread generalizing word with
  | nil => rfl
  | cons byte rest ih =>
    have hguard : (UInt64.size - 1) >>> 7 = 0x1ffffffffffffff := by decide
    have hbyte : byte.toNat % 0x80 < 0x80 := Nat.mod_lt _ (by decide)
    rw [readVarIntFrom?, decodeFrom, hguard]
    by_cases hlarge : word > 0x1ffffffffffffff
    · rw [if_pos hlarge, if_pos hlarge]
    · rw [if_neg hlarge, if_neg hlarge, appendGroup?_of_le (Nat.le_of_not_lt hlarge),
        Option.bind_eq_bind, Option.bind_some, if_congr (and_mark_eq_zero_iff byte) rfl rfl]
      by_cases hlast : byte < 0x80
      · rw [if_pos hlast, if_pos hlast]
      · rw [if_neg hlast, if_neg hlast]
        by_cases hmax : word * 0x80 + byte.toNat % 0x80 = UInt64.size - 1
        · rw [if_pos hmax]
          exact (congrArg some (if_pos hmax)).symm
        · have hincrement : increment? (word * 0x80 + byte.toNat % 0x80) =
              some (word * 0x80 + byte.toNat % 0x80 + 1) :=
            if_pos (by simp only [UInt64.size] at hmax ⊢; omega)
          rw [if_neg hmax, hincrement, Option.bind_some, ih]
          exact (congrArg some (if_neg hmax)).symm

/-! ## The writer -/

/-- The groups above the last one, as a word less one that is not negative. -/
def wordAbove? (word : Nat) : Option { next : Nat // next < word } :=
  if h : 1 ≤ word >>> 7 then
    some ⟨word >>> 7 - 1, by rw [Nat.shiftRight_eq_div_pow] at h ⊢; omega⟩
  else none

theorem exists_wordAbove? {word : Nat} (h : ¬ word ≤ 0x7f) :
    ∃ next : { next : Nat // next < word }, wordAbove? word = some next ∧ next.1 = word / 0x80 - 1 := by
  have hshift : word >>> 7 = word / 0x80 := Nat.shiftRight_eq_div_pow word 7
  have hpos : 1 ≤ word >>> 7 := by omega
  exact ⟨_, dif_pos hpos, by dsimp only; rw [hshift]⟩

/-- The last group of a word, with the mark of one that is followed by another unless it is put first. -/
def groupAt (position word : Nat) : UInt8 :=
  UInt8.ofNat (word &&& 0x7f) ||| if position > 0 then 0x80 else 0

/-- Fills the buffer from a position on, the last group first, and tells where the first group is. -/
def fillGroups? (buffer : Bytes) (position word : Nat) : Option (Bytes × Nat) := do
  let filled ← set? buffer position (groupAt position word)
  if word ≤ 0x7f then some (filled, position)
  else do
    let next ← wordAbove? word
    fillGroups? filled (position + 1) next
termination_by word
decreasing_by exact next.2

/-- Writes a word by way of a buffer with the given room. -/
def writeVarInt? (room word : Nat) : Option Bytes := do
  let (buffer, last) ← fillGroups? (List.replicate room 0) 0 word
  let written ← slice? buffer 0 (last + 1)
  return written.reverse

/-- The mark of a group that is not written first. -/
def markAt (position : Nat) : Nat :=
  if position > 0 then 0x80 else 0

/-- A group and its mark do not overlap. -/
theorem groupAt_eq (position word : Nat) :
    groupAt position word = UInt8.ofNat (word % 0x80 + markAt position) := by
  have hgroup : word &&& 0x7f = word % 0x80 := Nat.and_two_pow_sub_one_eq_mod word 7
  have hless : word % 0x80 < 0x80 := Nat.mod_lt _ (by decide)
  unfold groupAt markAt
  rw [hgroup]
  generalize word % 0x80 = low at hless
  split
  · revert low
    decide +kernel
  · rw [UInt8.or_zero, Nat.add_zero]

/-- The groups of a word stand behind what was written before, in the opposite order. By induction on the word,
where one group goes to the front of the place that is left. -/
theorem fillGroups?_eq (front space : Bytes) (word : Nat)
    (hroom : (markedGroups (markAt front.length) word).length ≤ space.length) :
    fillGroups? (front ++ space) front.length word =
      some (front ++ (markedGroups (markAt front.length) word).reverse ++
          space.drop (markedGroups (markAt front.length) word).length,
        front.length + (markedGroups (markAt front.length) word).length - 1) := by
  induction word using Nat.strongRecOn generalizing front space with
  | ind word ih =>
    unfold markedGroups at hroom ⊢
    rw [List.length_append, List.length_singleton] at hroom ⊢
    obtain ⟨free, space, rfl⟩ := List.exists_cons_of_length_pos (Nat.lt_of_lt_of_le (Nat.succ_pos _) hroom)
    rw [List.length_cons, Nat.add_le_add_iff_right] at hroom
    rw [fillGroups?, groupAt_eq, set?_between, List.reverse_append, List.reverse_singleton, List.drop_succ_cons]
    generalize hgroup : UInt8.ofNat (word % 0x80 + markAt front.length) = group
    rw [Option.bind_eq_bind, Option.bind_some]
    split
    · next hsmall =>
      have hnone : groupsBefore (word / 0x80) = [] := if_pos (Nat.div_eq_of_lt (Nat.lt_succ_of_le hsmall))
      simp [hnone]
    · next hlarge =>
      obtain ⟨next, hnext, hvalue⟩ := exists_wordAbove? hlarge
      have hgroups : markedGroups (markAt (front ++ [group]).length) next = groupsBefore (word / 0x80) := by
        have hmark : markAt (front ++ [group]).length = 0x80 := if_pos (by simp)
        rw [hmark, hvalue, ← groupsBefore_succ, Nat.sub_add_cancel (by omega)]
      have hrest := ih next next.2 (front ++ [group]) space (hgroups.symm ▸ hroom)
      rw [hgroups, length_concat, List.append_assoc, List.singleton_append] at hrest
      rw [hnext, Option.bind_eq_bind, Option.bind_some, hrest]
      simp [Nat.add_assoc, Nat.add_comm 1]

/-- A buffer with room for the groups is enough, and what is written are the groups. -/
theorem writeVarInt?_eq {room word : Nat} (hroom : (encode word).length ≤ room) :
    writeVarInt? room word = some (encode word) := by
  rw [encode_eq] at hroom ⊢
  have hpos : 0 < (markedGroups 0 word).length := by
    unfold markedGroups
    rw [List.length_append]
    exact Nat.succ_pos _
  have hmark : markAt 0 = 0 := rfl
  have hfilled := fillGroups?_eq [] (List.replicate room 0) word (by rwa [List.length_replicate])
  rw [List.nil_append, List.nil_append, List.length_nil, Nat.zero_add, hmark] at hfilled
  unfold writeVarInt?
  rw [hfilled]
  change ((slice? _ 0 ((markedGroups 0 word).length - 1 + 1)).bind fun written ↦ some written.reverse) = _
  rw [Nat.sub_add_cancel hpos, slice?_of_le (Nat.zero_le _) (by simp), List.drop_zero,
    List.take_left' List.length_reverse, Option.bind_some, List.reverse_reverse]

end UtxoConsensus.Indexed

namespace UtxoConsensus.VarInt

/-- **Variable-length integers are a bijection between the numbers of 64 bits and their encodings.** Every such
number is read back from what was written, whatever follows it, and what is read as a number is what is
written for it. A buffer of ten bytes is enough for the writer; in the reader no shift loses a bit and no
sum wraps. Bytes of which only the last one ends a number are read as the number that they denote if it has 64
bits, and refused if it does not. -/
theorem code_bijective :
    (∀ n < UInt64.size, ∀ rest : Bytes, decode.run (encode n ++ rest) = .ok n rest) ∧
    (∀ (unread rest : Bytes) (n : Nat), decode.run unread = .ok n rest →
      n < UInt64.size ∧ unread = encode n ++ rest) ∧
    (∀ n < UInt64.size, Indexed.writeVarInt? 10 n = some (encode n)) ∧
    (∀ unread : Bytes, Indexed.readVarIntFrom? 0 unread = some (decode.run unread)) ∧
    ∀ groups : Bytes, IsTerminated groups → ∀ rest : Bytes,
      if denoted groups < UInt64.size then decode.run (groups ++ rest) = .ok (denoted groups) rest
      else ∃ left, decode.run (groups ++ rest) = .error .varIntTooLarge left := by
  refine ⟨?written, ?read, ?buffer, ?words, ?denoted⟩
  case written =>
    intro n hn rest
    exact inverts_decode.run_encode hn rest
  case read =>
    intro unread rest n h
    exact inverts_decode.run_eq_ok.mp h
  case buffer =>
    intro n hn
    exact Indexed.writeVarInt?_eq (length_encode_le hn)
  case words =>
    intro unread
    exact Indexed.readVarIntFrom?_eq 0 unread
  case denoted =>
    intro groups hgroups rest
    obtain ⟨left, hrun⟩ := hgroups.run_decode rest
    rw [hrun]
    split
    · rfl
    · exact ⟨left, rfl⟩

/-- The largest number needs all ten bytes, and the bytes for the number after it are refused. -/
theorem code_bijective_largest : UInt64.size - 1 < UInt64.size ∧
    decode.run (encode (UInt64.size - 1) ++ [7]) = .ok (UInt64.size - 1) [7] ∧
    encode (UInt64.size - 1) = [0x80, 0xfe, 0xfe, 0xfe, 0xfe, 0xfe, 0xfe, 0xfe, 0xfe, 0x7f] ∧
    IsTerminated [0x80, 0xfe, 0xfe, 0xfe, 0xfe, 0xfe, 0xfe, 0xfe, 0xff, 0x00] ∧
    ∃ left, decode.run [0x80, 0xfe, 0xfe, 0xfe, 0xfe, 0xfe, 0xfe, 0xfe, 0xff, 0x00] =
      .error .varIntTooLarge left := by
  have hlargest : UInt64.size - 1 < UInt64.size := by decide
  have hterminated : IsTerminated [0x80, 0xfe, 0xfe, 0xfe, 0xfe, 0xfe, 0xfe, 0xfe, 0xff, 0x00] :=
    ⟨[0x80, 0xfe, 0xfe, 0xfe, 0xfe, 0xfe, 0xfe, 0xfe, 0xff], 0x00, rfl, by decide +kernel, by decide⟩
  have hrefused := code_bijective.2.2.2.2 _ hterminated []
  rw [if_neg (by decide)] at hrefused
  exact ⟨hlargest, code_bijective.1 _ hlargest [7], by decide +kernel, hterminated, hrefused⟩

end UtxoConsensus.VarInt
