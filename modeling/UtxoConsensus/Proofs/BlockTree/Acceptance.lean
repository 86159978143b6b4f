import UtxoConsensus.Proofs.BlockTree.Ancestors
import UtxoConsensus.Proofs.Word256.Addition

/-!
# What acceptance keeps

A header that is accepted becomes one more entry, at the end, and nothing else of the tree is touched but
the two indices, from hashes to numbers and to the entry with the most work. So whatever links the old
entries links them still, and only the new entry has to be looked at. Its skip ancestor is found by a walk
among the old entries, which are linked already. A header that is not accepted leaves the tree as it is. By
induction on the calls, every tree that is made from the empty one is sound.
-/

namespace UtxoConsensus.BlockTree

variable {t : BlockTree}

/-! ## One more entry -/

theorem lt_size {id : BlockId} {entry : BlockEntry} (h : t.get? id = some entry) : id < t.size := by
  obtain ⟨hlt, -⟩ := Array.getElem?_eq_some_iff.mp h
  exact hlt

@[simp] theorem size_append (t : BlockTree) (entry : BlockEntry) : (t.append entry).size = t.size + 1 :=
  Array.size_push entry

theorem get?_append (t : BlockTree) (entry : BlockEntry) (id : BlockId) :
    (t.append entry).get? id = if id = t.size then some entry else t.get? id :=
  Array.getElem?_push

theorem grows_append (t : BlockTree) (entry : BlockEntry) : Grows t (t.append entry) := by
  intro id old hold
  have hne : id ≠ t.size := Nat.ne_of_lt (lt_size hold)
  rw [get?_append, if_neg hne, hold]

theorem find?_append (t : BlockTree) (entry : BlockEntry) (hash : Hash256) :
    (t.append entry).find? hash = if entry.hash = hash then some t.size else t.find? hash := by
  unfold find? append
  rw [Std.HashMap.getElem?_insert]
  simp only [beq_iff_eq]

theorem find?_empty (params : Option WorkParams) (hash : Hash256) : (empty params).find? hash = none := by
  unfold find? empty
  simp

/-! ## Sound trees -/

/-- The earliest entry with the most work. -/
def IsBest (t : BlockTree) (id : BlockId) : Prop :=
  ∃ best, t.get? id = some best ∧ ∀ other entry, t.get? other = some entry →
    entry.chainWork.toNat ≤ best.chainWork.toNat ∧
      (other < id → entry.chainWork.toNat < best.chainWork.toNat)

/-- The entries are linked, and the indices say what the entries say. -/
structure IsSound (t : BlockTree) : Prop extends IsLinked t where
  hash_eq : ∀ id entry, t.get? id = some entry → entry.hash = entry.header.hash
  find?_eq_some_iff : ∀ hash id,
    t.find? hash = some id ↔ ∃ entry, t.get? id = some entry ∧ entry.hash = hash
  best_eq_none : t.size = 0 → t.best = none
  best_eq_some : t.size ≠ 0 → ∃ id, t.best = some id ∧ t.IsBest id

theorem isSound_empty (params : Option WorkParams) : (empty params).IsSound where
  root _ h := absurd (lt_size h) (Nat.not_lt_zero 0)
  below id _ h := absurd (lt_size h) (Nat.not_lt_zero id)
  hash_eq id _ h := absurd (lt_size h) (Nat.not_lt_zero id)
  find?_eq_some_iff hash id := by
    rw [find?_empty]
    constructor
    · exact fun h ↦ nomatch h
    · rintro ⟨entry, h, -⟩
      exact absurd (lt_size h) (Nat.not_lt_zero id)
  best_eq_none _ := rfl
  best_eq_some h := absurd rfl h

theorem IsSound.isBest_of_best (h : t.IsSound) {id : BlockId} (hbest : t.best = some id) : t.IsBest id := by
  have hsize : t.size ≠ 0 := by
    intro hzero
    rw [h.best_eq_none hzero] at hbest
    cases hbest
  obtain ⟨found, hfound, hmost⟩ := h.best_eq_some hsize
  rw [hbest] at hfound
  cases hfound
  exact hmost

/-- The place of a new entry: first of all, or below an entry of the tree. -/
structure IsPlaced (t : BlockTree) (entry : BlockEntry) : Prop where
  root : t.size = 0 → IsRoot entry
  below : t.size ≠ 0 → ∃ p parent, t.get? p = some parent ∧ t.IsBelow entry p parent

namespace IsSound

variable {entry : BlockEntry}

/-- Hashes tell entries apart. -/
theorem id_eq_of_hash_eq (h : t.IsSound) {a b : BlockId} {x y : BlockEntry} (hx : t.get? a = some x)
    (hy : t.get? b = some y) (hhash : x.hash = y.hash) : a = b := by
  have ha : t.find? x.hash = some a := (h.find?_eq_some_iff x.hash a).mpr ⟨x, hx, rfl⟩
  have hb : t.find? x.hash = some b := (h.find?_eq_some_iff x.hash b).mpr ⟨y, hy, hhash.symm⟩
  rw [ha] at hb
  exact Option.some.inj hb

/-! ## One step -/

/-- An entry that has its place keeps the links. -/
theorem isLinked_append (h : t.IsSound) (hplace : t.IsPlaced entry) : (t.append entry).IsLinked where
  root := by
    intro first hfirst
    rw [get?_append] at hfirst
    split at hfirst
    · next hzero =>
      cases hfirst
      exact hplace.root hzero.symm
    · exact h.root first hfirst
  below := by
    intro id other hother hid
    rw [get?_append] at hother
    split at hother
    · next hsize =>
      cases hother
      obtain ⟨p, parent, hparent, hbelow⟩ := hplace.below (hsize ▸ hid)
      refine ⟨p, parent, ?_, grows_append t entry p parent hparent,
        hbelow.mono (grows_append t entry)⟩
      rw [hsize]
      exact lt_size hparent
    · obtain ⟨p, parent, hp, hparent, hbelow⟩ := h.below id other hother hid
      exact ⟨p, parent, hp, grows_append t entry p parent hparent,
        hbelow.mono (grows_append t entry)⟩

/-- Also afterwards every entry is found by its hash. -/
theorem find?_append_eq_some_iff (h : t.IsSound) (hnew : t.find? entry.hash = none) (hash : Hash256)
    (id : BlockId) : (t.append entry).find? hash = some id ↔
      ∃ other, (t.append entry).get? id = some other ∧ other.hash = hash := by
  rw [find?_append, get?_append]
  by_cases hid : id = t.size
  · subst hid
    have hnone : t.find? hash ≠ some t.size := by
      intro hfind
      obtain ⟨other, hother, -⟩ := (h.find?_eq_some_iff hash _).mp hfind
      exact Nat.lt_irrefl _ (lt_size hother)
    by_cases hhash : entry.hash = hash <;> simp [hhash, hnone]
  · rw [if_neg hid]
    by_cases hhash : entry.hash = hash
    · rw [if_pos hhash, ← h.find?_eq_some_iff, ← hhash, hnew]
      simp [Ne.symm hid]
    · rw [if_neg hhash]
      exact h.find?_eq_some_iff hash id

/-- Work that is more than that of the best chain is more than that of any chain. -/
theorem beatsBest_iff (h : t.IsSound) {work : Word256} :
    t.beatsBest work = true ↔
      ∀ id other, t.get? id = some other → other.chainWork.toNat < work.toNat := by
  unfold beatsBest
  by_cases hsize : t.size = 0
  · rw [h.best_eq_none hsize]
    constructor
    · intro _ id other hother
      exact absurd (hsize ▸ lt_size hother) (Nat.not_lt_zero id)
    · exact fun _ ↦ rfl
  · obtain ⟨b, hb, best, hbest, hmost⟩ := h.best_eq_some hsize
    rw [hb, Option.bind_some, hbest]
    dsimp only
    rw [decide_eq_true_eq, Word256.lt_iff_toNat_lt]
    constructor
    · intro hlt id other hother
      exact Nat.lt_of_le_of_lt (hmost id other hother).1 hlt
    · exact fun hall ↦ hall b best hbest

/-- The new entry becomes the best one exactly if it has more work than all others. -/
theorem isBest_append (h : t.IsSound) (entry : BlockEntry) :
    ∃ id, (t.append entry).best = some id ∧ (t.append entry).IsBest id := by
  have hnew : (t.append entry).get? t.size = some entry := by rw [get?_append, if_pos rfl]
  by_cases hbeats : t.beatsBest entry.chainWork = true
  · refine ⟨t.size, if_pos hbeats, entry, hnew, ?_⟩
    intro id other hother
    rw [get?_append] at hother
    split at hother
    · next hid =>
      cases hother
      exact ⟨Nat.le_refl _, fun hlt ↦ absurd hid (Nat.ne_of_lt hlt)⟩
    · have hlt := h.beatsBest_iff.mp hbeats id other hother
      exact ⟨Nat.le_of_lt hlt, fun _ ↦ hlt⟩
  · have hsize : t.size ≠ 0 := by
      intro hzero
      apply hbeats
      unfold beatsBest
      rw [h.best_eq_none hzero]
      rfl
    obtain ⟨b, hb, best, hbest, hmost⟩ := h.best_eq_some hsize
    have hle : entry.chainWork.toNat ≤ best.chainWork.toNat := by
      apply Nat.le_of_not_lt
      intro hlt
      apply hbeats
      rw [h.beatsBest_iff]
      intro id other hother
      exact Nat.lt_of_le_of_lt (hmost id other hother).1 hlt
    refine ⟨b, (if_neg hbeats).trans hb, best, grows_append t entry b best hbest, ?_⟩
    intro id other hother
    rw [get?_append] at hother
    split at hother
    · next hid =>
      cases hother
      refine ⟨hle, fun hlt ↦ ?_⟩
      have hbound : b < t.size := lt_size hbest
      rw [hid] at hlt
      exact absurd hbound (Nat.lt_asymm hlt)
    · exact hmost id other hother

/-- A new entry keeps all that makes a tree sound. -/
theorem append (h : t.IsSound) (hplace : t.IsPlaced entry) (hhash : entry.hash = entry.header.hash)
    (hnew : t.find? entry.hash = none) : (t.append entry).IsSound where
  toIsLinked := h.isLinked_append hplace
  hash_eq := by
    intro id other hother
    rw [get?_append] at hother
    split at hother
    · cases hother
      exact hhash
    · exact h.hash_eq id other hother
  find?_eq_some_iff := h.find?_append_eq_some_iff hnew
  best_eq_none := by
    intro hzero
    rw [size_append] at hzero
    cases hzero
  best_eq_some _ := h.isBest_append entry

/-! ## Accepted headers -/

/-- The entry that is made for a header below its parent. Its skip ancestor is found among the ancestors
of the parent. -/
theorem isBelow_of_previous (h : t.IsSound) {p : BlockId} {parent : BlockEntry} {header : BlockHeader}
    (hparent : t.get? p = some parent) (hprevious : parent.hash = header.previous) (hash : Hash256) :
    t.IsBelow ⟨hash, header, parent.height + 1, some p,
      t.ancestor? p (skipHeight (parent.height + 1)).toNat, parent.chainWork + blockProof header.bits,
      max parent.timeMax header.timestamp⟩ p parent where
  parent_eq := rfl
  previous_eq := hprevious
  height_eq := rfl
  skip_eq := by
    obtain ⟨s, skip, hfound, hancestor, hskip, hheight⟩ :=
      h.ancestor?_eq_some hparent (skipHeight_add_one_le parent.height)
    exact ⟨s, skip, hfound, hancestor, hskip, UInt32.toNat_inj.mp hheight⟩
  chainWork_eq := Word256.toNat_add parent.chainWork (blockProof header.bits)
  timeMax_eq := rfl

/-- A header gets its place: first of all, or below the entry that it names. -/
theorem isPlaced_of_place (h : t.IsSound) {header : BlockHeader} {hash : Hash256}
    (hplace : t.place header hash = .ok entry) :
    t.IsPlaced entry ∧ entry.hash = hash ∧ entry.header = header := by
  unfold place at hplace
  dsimp only at hplace
  split at hplace
  · next hempty =>
    cases hplace
    have hsize : t.size = 0 := Array.isEmpty_iff_size_eq_zero.mp hempty
    exact ⟨⟨fun _ ↦ ⟨rfl, rfl, rfl, rfl, rfl⟩, fun hne ↦ absurd hsize hne⟩, rfl, rfl⟩
  · next hnonempty =>
    have hsize : t.size ≠ 0 := fun hzero ↦ hnonempty (Array.isEmpty_iff_size_eq_zero.mpr hzero)
    split at hplace
    · cases hplace
    · next p parent hparent =>
      cases hplace
      obtain ⟨found, hfound, hpair⟩ := Option.bind_eq_some_iff.mp hparent
      obtain ⟨_, hget, heq⟩ := Option.map_eq_some_iff.mp hpair
      cases heq
      obtain ⟨other, hother, hprevious⟩ := (h.find?_eq_some_iff _ _).mp hfound
      rw [hget] at hother
      cases hother
      have hbelow := h.isBelow_of_previous hget hprevious hash
      exact ⟨⟨fun hzero ↦ absurd hzero hsize, fun _ ↦ ⟨p, parent, hget, hbelow⟩⟩, rfl, rfl⟩

end IsSound

/-! ## Calls -/

/-- A header that is handed to the tree: the answer, and the tree after it. -/
def submit (t : BlockTree) (header : BlockHeader) : Except BlockError BlockId × BlockTree :=
  match t.acceptHeader header with
  | .ok (id, grown) => (.ok id, grown)
  | .error e => (.error e, t)

def submitAll (t : BlockTree) (headers : List BlockHeader) : BlockTree :=
  headers.foldl (fun t header ↦ (t.submit header).2) t

/-- What it takes to accept a header: it is new, it meets what is asked of its work, and it has a place.
Then it becomes the last entry. -/
theorem acceptHeader_eq_ok_iff {header : BlockHeader} {id : BlockId} {grown : BlockTree} :
    t.acceptHeader header = .ok (id, grown) ↔
      t.find? header.hash = none ∧
        t.params.any (!checkProofOfWork header.hash header.bits ·) = false ∧
        ∃ entry, t.place header header.hash = .ok entry ∧ id = t.size ∧ grown = t.append entry := by
  unfold acceptHeader
  dsimp only
  by_cases hknown : (t.find? header.hash).isSome = true
  · rw [if_pos hknown]
    constructor
    · exact fun h ↦ nomatch h
    · rintro ⟨hnone, -⟩
      rw [hnone] at hknown
      cases hknown
  · rw [if_neg hknown]
    have hnone : t.find? header.hash = none := Option.not_isSome_iff_eq_none.mp hknown
    by_cases hwork : t.params.any (!checkProofOfWork header.hash header.bits ·) = true
    · rw [if_pos hwork]
      constructor
      · exact fun h ↦ nomatch h
      · rintro ⟨-, hmeets, -⟩
        rw [hmeets] at hwork
        cases hwork
    · rw [if_neg hwork]
      have hmeets := Bool.eq_false_iff.mpr hwork
      cases hplace : t.place header header.hash with
      | error e =>
        constructor
        · exact fun h ↦ nomatch h
        · rintro ⟨-, -, entry, hentry, -⟩
          cases hentry
      | ok entry =>
        constructor
        · rintro ⟨⟩
          exact ⟨hnone, hmeets, entry, rfl, rfl, rfl⟩
        · rintro ⟨-, -, _, ⟨⟩, rfl, rfl⟩
          rfl

/-- A header that is not accepted leaves the tree as it is. -/
theorem submit_of_error {header : BlockHeader} {e : BlockError}
    (h : (t.submit header).1 = .error e) : (t.submit header).2 = t := by
  unfold submit at h ⊢
  cases haccept : t.acceptHeader header with
  | error e => rfl
  | ok result =>
    rw [haccept] at h
    cases h

/-- A header that is accepted gets the next number, and all older entries keep theirs. -/
theorem submit_of_ok {header : BlockHeader} {id : BlockId} (h : (t.submit header).1 = .ok id) :
    id = t.size ∧ Grows t (t.submit header).2 ∧ (t.submit header).2.size = t.size + 1 := by
  unfold submit at h ⊢
  cases haccept : t.acceptHeader header with
  | error e =>
    rw [haccept] at h
    cases h
  | ok result =>
    obtain ⟨-, -, entry, -, hid, hgrown⟩ := acceptHeader_eq_ok_iff.mp haccept
    rw [haccept] at h
    cases h
    dsimp only
    rw [hgrown]
    exact ⟨hid, grows_append t entry, size_append t entry⟩

theorem grows_submit (t : BlockTree) (header : BlockHeader) : Grows t (t.submit header).2 := by
  cases hanswer : (t.submit header).1 with
  | ok id => exact (submit_of_ok hanswer).2.1
  | error e =>
    rw [submit_of_error hanswer]
    exact fun _ _ hentry ↦ hentry

theorem size_submit_le (t : BlockTree) (header : BlockHeader) : (t.submit header).2.size ≤ t.size + 1 := by
  cases hanswer : (t.submit header).1 with
  | ok id => exact Nat.le_of_eq (submit_of_ok hanswer).2.2
  | error e =>
    rw [submit_of_error hanswer]
    exact Nat.le_succ _

/-- The step lemma: a header that is handed to a sound tree leaves it sound, accepted or not. -/
theorem IsSound.submit (h : t.IsSound) (header : BlockHeader) : (t.submit header).2.IsSound := by
  unfold BlockTree.submit
  cases haccept : t.acceptHeader header with
  | error e => exact h
  | ok result =>
    obtain ⟨hnew, -, entry, hplace, -, hgrown⟩ := acceptHeader_eq_ok_iff.mp haccept
    obtain ⟨hplaced, hhash, hheader⟩ := h.isPlaced_of_place hplace
    have hown : entry.hash = entry.header.hash := by rw [hhash, hheader]
    dsimp only
    rw [hgrown]
    exact h.append hplaced hown (hhash.symm ▸ hnew)

/-! ## Where work is not checked -/

/-- The first header is accepted. -/
theorem submit_empty (header : BlockHeader) : ∃ entry,
    (empty none).submit header = (.ok 0, (empty none).append entry) ∧ IsRoot entry ∧
      entry.hash = header.hash ∧ entry.header = header := by
  have h : (empty none).IsSound := isSound_empty none
  have hplace : ∃ entry, (empty none).place header header.hash = .ok entry := ⟨_, rfl⟩
  obtain ⟨entry, hentry⟩ := hplace
  obtain ⟨hplaced, hhash, hheader⟩ := h.isPlaced_of_place hentry
  have haccept : (empty none).acceptHeader header = .ok (0, (empty none).append entry) :=
    acceptHeader_eq_ok_iff.mpr ⟨find?_empty none _, rfl, entry, hentry, rfl, rfl⟩
  refine ⟨entry, ?_, hplaced.root rfl, hhash, hheader⟩
  unfold submit
  rw [haccept]

/-- A header with a new hash is accepted below the entry that it names. -/
theorem IsSound.submit_below (h : t.IsSound) (hparams : t.params = none) {header : BlockHeader}
    {p : BlockId} {parent : BlockEntry} (hparent : t.get? p = some parent)
    (hprevious : parent.hash = header.previous) (hnew : t.find? header.hash = none) : ∃ entry,
    t.submit header = (.ok t.size, t.append entry) ∧ t.IsBelow entry p parent ∧
      entry.hash = header.hash ∧ entry.header = header := by
  have hfind : t.find? header.previous = some p :=
    (h.find?_eq_some_iff header.previous p).mpr ⟨parent, hparent, hprevious⟩
  have hplace : ∃ entry, t.place header header.hash = .ok entry := by
    unfold place
    dsimp only
    split
    · exact ⟨_, rfl⟩
    · rw [hfind, Option.bind_some, hparent]
      exact ⟨_, rfl⟩
  obtain ⟨entry, hentry⟩ := hplace
  obtain ⟨hplaced, hhash, hheader⟩ := h.isPlaced_of_place hentry
  obtain ⟨q, above, habove, hbelow⟩ := hplaced.below (Nat.ne_of_gt (Nat.zero_lt_of_lt (lt_size hparent)))
  obtain rfl : q = p := by
    apply h.id_eq_of_hash_eq habove hparent
    rw [hbelow.previous_eq, hheader, hprevious]
  rw [hparent] at habove
  cases habove
  have hwork : t.params.any (!checkProofOfWork header.hash header.bits ·) = false := by
    rw [hparams]
    rfl
  have haccept : t.acceptHeader header = .ok (t.size, t.append entry) :=
    acceptHeader_eq_ok_iff.mpr ⟨hnew, hwork, entry, hentry, rfl, rfl⟩
  refine ⟨entry, ?_, hbelow, hhash, hheader⟩
  unfold BlockTree.submit
  rw [haccept]

/-! ## Runs -/

/-- Whatever headers are handed to a sound tree, it stays sound. -/
theorem IsSound.submitAll (h : t.IsSound) (headers : List BlockHeader) :
    (t.submitAll headers).IsSound := by
  induction headers generalizing t with
  | nil => exact h
  | cons header headers ih => exact ih (h.submit header)

/-- Heights are exact as long as a word can number the entries. -/
theorem IsSound.height_eq (h : t.IsSound) (hsize : t.size ≤ UInt32.size) {id p : BlockId}
    {entry parent : BlockEntry} (hentry : t.get? id = some entry) (hp : entry.parent = some p)
    (hparent : t.get? p = some parent) : entry.height.toNat = parent.height.toNat + 1 := by
  have hid : id ≠ 0 := by
    intro hzero
    rw [(h.parent_eq_none_iff hentry).mpr hzero] at hp
    cases hp
  obtain ⟨q, above, hq, habove, hbelow⟩ := h.below id entry hentry hid
  rw [hbelow.parent_eq] at hp
  cases hp
  rw [habove] at hparent
  cases hparent
  have hfits : parent.height.toNat + 1 < UInt32.size := by
    calc parent.height.toNat + 1
      _ ≤ p + 1 := Nat.succ_le_succ (h.height_le habove)
      _ ≤ id := hq
      _ < t.size := lt_size hentry
      _ ≤ UInt32.size := hsize
  rw [hbelow.height_eq, UInt32.toNat_add, UInt32.toNat_one]
  exact Nat.mod_eq_of_lt hfits

/-- The entry of a header that is accepted has the number that is answered. -/
theorem IsSound.get?_submit (h : t.IsSound) {header : BlockHeader} {id : BlockId}
    (haccepted : (t.submit header).1 = .ok id) :
    ∃ entry, (t.submit header).2.get? id = some entry ∧ entry.header = header := by
  unfold BlockTree.submit at haccepted ⊢
  cases haccept : t.acceptHeader header with
  | error e =>
    rw [haccept] at haccepted
    cases haccepted
  | ok result =>
    obtain ⟨-, -, entry, hplace, hid, hgrown⟩ := acceptHeader_eq_ok_iff.mp haccept
    obtain ⟨-, -, hheader⟩ := h.isPlaced_of_place hplace
    rw [haccept] at haccepted
    cases haccepted
    refine ⟨entry, ?_, hheader⟩
    dsimp only
    rw [hgrown, get?_append, if_pos hid]

/-- **Every tree of headers is sound.** Whatever headers are handed to an empty tree, and whether or not
their work is checked: the entries are linked, only the first has no parent, and hashes tell entries apart;
the latest time of an entry is that of all blocks on its way to the root; heights are exact as long as words
can number the entries; a header that is not accepted leaves the tree as it is; and one that is accepted
becomes one more entry behind the old ones, which stay as they are. -/
theorem submitAll_isSound (params : Option WorkParams) (headers : List BlockHeader) :
    let t := (empty params).submitAll headers
    t.IsSound ∧
      (∀ id entry, t.get? id = some entry →
        (entry.parent = none ↔ id = 0) ∧ t.IsLatestTime id entry.timeMax) ∧
      (∀ a b x y, t.get? a = some x → t.get? b = some y → x.hash = y.hash → a = b) ∧
      (t.size ≤ UInt32.size → ∀ id entry p parent, t.get? id = some entry →
        entry.parent = some p → t.get? p = some parent →
          entry.height.toNat = parent.height.toNat + 1) ∧
      (∀ header e, (t.submit header).1 = .error e → (t.submit header).2 = t) ∧
      ∀ header id, (t.submit header).1 = .ok id →
        id = t.size ∧ Grows t (t.submit header).2 ∧ (t.submit header).2.size = t.size + 1 ∧
          ∃ entry, (t.submit header).2.get? id = some entry ∧ entry.header = header := by
  intro t
  have h : t.IsSound := (isSound_empty params).submitAll headers
  refine ⟨h, ?_, ?_, ?_, fun _ _ ↦ submit_of_error, ?_⟩
  · intro id entry hentry
    exact ⟨h.parent_eq_none_iff hentry, h.isLatestTime hentry⟩
  · intro a b x y hx hy hhash
    exact h.id_eq_of_hash_eq hx hy hhash
  · intro hsize id entry p parent hentry hp hparent
    exact h.height_eq hsize hentry hp hparent
  · intro header id haccepted
    obtain ⟨hid, hgrows, hsize⟩ := submit_of_ok haccepted
    exact ⟨hid, hgrows, hsize, h.get?_submit haccepted⟩

/-! ## A run -/

/-- A header with the easiest target below another one. -/
def easyHeader (previous : Hash256) (nonce : UInt32) : BlockHeader :=
  ⟨1, previous, .zero, 600, 0x207fffff, nonce⟩

def rootHeader : BlockHeader := easyHeader .zero 0

def childHeader : BlockHeader := easyHeader rootHeader.hash 1

theorem hash_childHeader_ne : rootHeader.hash ≠ childHeader.hash := by decide +kernel

/-- A block below the first one is accepted as the second entry. The first header is refused when it is
handed over again, and then nothing changes. -/
theorem submitAll_isSound_rootHeader :
    let t := (empty none).submitAll [rootHeader]
    (t.submit childHeader).1 = .ok 1 ∧ Grows t (t.submit childHeader).2 ∧
      (t.submit childHeader).2.size = 2 ∧
      (∃ entry, (t.submit childHeader).2.get? 1 = some entry ∧ entry.header = childHeader) ∧
      (t.submit rootHeader).1 = .error (.duplicateHeader rootHeader.hash) ∧
      (t.submit rootHeader).2 = t := by
  intro t
  obtain ⟨h, -, -, -, hrefused, haccepted⟩ := submitAll_isSound none [rootHeader]
  obtain ⟨root, hsubmit, -, hhash, -⟩ := submit_empty rootHeader
  have htree : t = (empty none).append root := congrArg Prod.snd hsubmit
  have hget : t.get? 0 = some root := by
    rw [htree, get?_append]
    rfl
  have hknown : t.find? rootHeader.hash = some 0 := by
    rw [htree, find?_append, if_pos hhash]
    rfl
  have hnew : t.find? childHeader.hash = none := by
    rw [htree, find?_append, if_neg (hhash ▸ hash_childHeader_ne), find?_empty]
  have hparams : t.params = none := by
    rw [htree]
    rfl
  obtain ⟨child, hchild, -⟩ := h.submit_below hparams hget hhash hnew
  have hone : t.size = 1 := by
    rw [htree, size_append]
    rfl
  have hanswer : (t.submit childHeader).1 = .ok 1 :=
    (congrArg Prod.fst hchild).trans (congrArg Except.ok hone)
  have hduplicate : (t.submit rootHeader).1 = .error (.duplicateHeader rootHeader.hash) := by
    unfold submit acceptHeader
    dsimp only
    rw [hknown]
    rfl
  obtain ⟨-, hgrows, hsize, hentry⟩ := haccepted childHeader 1 hanswer
  exact ⟨hanswer, hgrows, hsize.trans (congrArg (· + 1) hone), hentry, hduplicate,
    hrefused rootHeader _ hduplicate⟩

end UtxoConsensus.BlockTree
