import Mathlib.Data.List.Chain
import UtxoConsensus.Proofs.BlockTree.Paths

/-!
# Lines of headers

Headers that each name the one before make a line in the tree, as long as their hashes differ and their
work is not checked: all of them are accepted, and each is numbered by its height.
-/

namespace UtxoConsensus.BlockTree

/-- Each header names the one before it, and no two of them have the same hash. -/
structure IsLine (headers : List BlockHeader) : Prop where
  chain : headers.IsChain fun header next ↦ next.previous = header.hash
  nodup : (headers.map BlockHeader.hash).Nodup

namespace IsLine

variable {headers : List BlockHeader}

theorem previous_eq (h : IsLine headers) {k : Nat} (hk : k + 1 < headers.length) :
    headers[k + 1].previous = headers[k].hash :=
  List.isChain_iff_getElem.mp h.chain k hk

/-- No header of a line comes twice. -/
theorem hash_ne (h : IsLine headers) {j k : Nat} (hlt : j < k) (hk : k < headers.length) :
    headers[j].hash ≠ headers[k].hash :=
  List.pairwise_iff_getElem.mp (List.pairwise_map.mp h.nodup) j k _ hk hlt

end IsLine

/-- The tree checks no work, and its entries are the first headers, numbered as they stand. -/
structure HoldsFirst (t : BlockTree) (headers : List BlockHeader) (count : Nat) : Prop where
  params_eq : t.params = none
  size_eq : t.size = count
  header_eq : ∀ k < count, ∃ entry, t.get? k = some entry ∧ headers[k]? = some entry.header

namespace HoldsFirst

variable {t : BlockTree} {headers : List BlockHeader} {count : Nat}

theorem append (hfirst : t.HoldsFirst headers count) {entry : BlockEntry}
    (hheader : headers[count]? = some entry.header) : (t.append entry).HoldsFirst headers (count + 1) where
  params_eq := hfirst.params_eq
  size_eq := (size_append t entry).trans (congrArg (· + 1) hfirst.size_eq)
  header_eq k hk := by
    rw [get?_append, hfirst.size_eq]
    by_cases hend : k = count
    · subst hend
      exact ⟨entry, if_pos rfl, hheader⟩
    · rw [if_neg hend]
      exact hfirst.header_eq k (Nat.lt_of_le_of_ne (Nat.le_of_lt_succ hk) hend)

/-- The next header of a line is new, as no hash comes twice. -/
theorem find?_next (hfirst : t.HoldsFirst headers count) (h : IsLine headers) (hsound : t.IsSound)
    (hlt : count < headers.length) : t.find? headers[count].hash = none := by
  rw [Option.eq_none_iff_forall_ne_some]
  intro id hid
  obtain ⟨entry, hentry, hhash⟩ := (hsound.find?_eq_some_iff _ _).mp hid
  have hbefore : id < count := hfirst.size_eq ▸ lt_size hentry
  obtain ⟨_, hget, hheader⟩ := hfirst.header_eq id hbefore
  rw [hentry] at hget
  cases hget
  obtain ⟨_, hown⟩ := List.getElem?_eq_some_iff.mp hheader
  apply h.hash_ne hbefore hlt
  rw [hown, ← hsound.hash_eq id entry hentry, hhash]

/-- The next header of a line is accepted below the one before it. -/
theorem submit_next {last : Nat} (hfirst : t.HoldsFirst headers (last + 1)) (h : IsLine headers)
    (hsound : t.IsSound) (hlt : last + 1 < headers.length) :
    ∃ entry, (t.submit headers[last + 1]).2 = t.append entry ∧ entry.header = headers[last + 1] := by
  obtain ⟨parent, hparent, hheader⟩ := hfirst.header_eq last (Nat.lt_succ_self last)
  obtain ⟨_, hown⟩ := List.getElem?_eq_some_iff.mp hheader
  have hprevious : parent.hash = headers[last + 1].previous := by
    rw [hsound.hash_eq last parent hparent, ← hown, h.previous_eq hlt]
  obtain ⟨entry, hsubmit, -, -, hentry⟩ :=
    hsound.submit_below hfirst.params_eq hparent hprevious (hfirst.find?_next h hsound hlt)
  exact ⟨entry, congrArg Prod.snd hsubmit, hentry⟩

end HoldsFirst

namespace IsLine

variable {headers : List BlockHeader}

/-- The first headers of a line have become entries. The induction is on how many they are. -/
theorem holdsFirst_take (h : IsLine headers) {count : Nat} (hcount : count ≤ headers.length) :
    ((empty none).submitAll (headers.take count)).HoldsFirst headers count := by
  induction count with
  | zero => exact ⟨rfl, rfl, fun k hk ↦ absurd hk (Nat.not_lt_zero k)⟩
  | succ count ih =>
    let before := (empty none).submitAll (headers.take count)
    have hfirst : before.HoldsFirst headers count := ih (Nat.le_of_succ_le hcount)
    have hsound : before.IsSound := (isSound_empty none).submitAll _
    have haccepted : ∃ entry, (before.submit headers[count]).2 = before.append entry ∧
        entry.header = headers[count] := by
      cases count with
      | zero =>
        obtain ⟨entry, hsubmit, -, -, hheader⟩ := submit_empty headers[0]
        exact ⟨entry, congrArg Prod.snd hsubmit, hheader⟩
      | succ last => exact hfirst.submit_next h hsound hcount
    obtain ⟨entry, hsubmit, hheader⟩ := haccepted
    have hrun : (empty none).submitAll (headers.take (count + 1)) = before.append entry := by
      rw [← hsubmit, List.take_succ_eq_append_getElem hcount]
      exact List.foldl_append
    rw [hrun]
    exact hfirst.append (hheader ▸ List.getElem?_eq_getElem hcount)

theorem holdsFirst_submitAll (h : IsLine headers) :
    ((empty none).submitAll headers).HoldsFirst headers headers.length := by
  have htake := h.holdsFirst_take (Nat.le_refl _)
  rwa [List.take_length] at htake

/-- Every header of a line is accepted. -/
theorem size_submitAll (h : IsLine headers) : ((empty none).submitAll headers).size = headers.length :=
  h.holdsFirst_submitAll.size_eq

/-- Headers of a line are numbered as they stand. -/
theorem get?_submitAll (h : IsLine headers) {k : Nat} (hk : k < headers.length) :
    ∃ entry, ((empty none).submitAll headers).get? k = some entry ∧ entry.header = headers[k] := by
  obtain ⟨entry, hentry, hheader⟩ := h.holdsFirst_submitAll.header_eq k hk
  obtain ⟨_, hown⟩ := List.getElem?_eq_some_iff.mp hheader
  exact ⟨entry, hentry, hown.symm⟩

/-- The parent of an entry is the one before it. -/
theorem parent_submitAll (h : IsLine headers) {k : Nat} {entry : BlockEntry}
    (hentry : ((empty none).submitAll headers).get? (k + 1) = some entry) : entry.parent = some k := by
  have hsound : ((empty none).submitAll headers).IsSound := (isSound_empty none).submitAll headers
  have hlt : k + 1 < headers.length := h.size_submitAll ▸ lt_size hentry
  obtain ⟨_, hget, hheader⟩ := h.get?_submitAll hlt
  rw [hentry] at hget
  cases hget
  obtain ⟨before, hbefore, hbeforeHeader⟩ := h.get?_submitAll (Nat.lt_of_succ_lt hlt)
  obtain ⟨p, parent, -, hparent, hbelow⟩ := hsound.below (k + 1) entry hentry (Nat.succ_ne_zero k)
  have hp : p = k := by
    apply hsound.id_eq_of_hash_eq hparent hbefore
    rw [hbelow.previous_eq, hheader, h.previous_eq hlt, hsound.hash_eq k before hbefore, hbeforeHeader]
  rw [hbelow.parent_eq, hp]

/-- The ancestors of an entry are the entries before it, each at its height. -/
theorem isAncestorAt_submitAll (h : IsLine headers) (hlength : headers.length ≤ UInt32.size) {low high : Nat}
    (hle : low ≤ high) (hhigh : high < headers.length) :
    ((empty none).submitAll headers).IsAncestorAt low high low := by
  have hsound : ((empty none).submitAll headers).IsSound := (isSound_empty none).submitAll headers
  have hfits : ((empty none).submitAll headers).size ≤ UInt32.size := by rwa [h.size_submitAll]
  constructor
  · obtain ⟨above, rfl⟩ := Nat.exists_eq_add_of_le hle
    clear hle
    induction above with
    | zero => exact .refl low
    | succ above ih =>
      obtain ⟨entry, hentry, -⟩ := h.get?_submitAll hhigh
      exact .step hentry (h.parent_submitAll hentry) (ih (Nat.lt_of_succ_lt hhigh))
  · have hlow : low < headers.length := Nat.lt_of_le_of_lt hle hhigh
    clear hle hhigh
    induction low with
    | zero =>
      obtain ⟨entry, hentry, -⟩ := h.get?_submitAll hlow
      exact ⟨entry, hentry, hsound.height_eq_zero hentry⟩
    | succ low ih =>
      obtain ⟨parent, hparent, hheight⟩ := ih (Nat.lt_of_succ_lt hlow)
      obtain ⟨entry, hentry, -⟩ := h.get?_submitAll hlow
      refine ⟨entry, hentry, ?_⟩
      rw [hsound.height_eq hfits hentry (h.parent_submitAll hentry) hparent, hheight]

end IsLine

/-! ## A line of fifteen headers -/

/-- A header and others below it, each with the next nonce. -/
def headersFrom (header : BlockHeader) : (count : Nat) → (nonce : UInt32) → List BlockHeader
  | 0, _ => [header]
  | count + 1, nonce => header :: headersFrom (easyHeader header.hash nonce) count (nonce + 1)

theorem isChain_headersFrom (header : BlockHeader) (count : Nat) (nonce : UInt32) :
    (headersFrom header count nonce).IsChain fun header next ↦ next.previous = header.hash := by
  induction count generalizing header nonce with
  | zero => exact .singleton header
  | succ count ih =>
    have hrest := ih (easyHeader header.hash nonce) (nonce + 1)
    cases count with
    | zero => exact .cons_cons rfl hrest
    | succ count => exact .cons_cons rfl hrest

def lineHeaders : List BlockHeader := headersFrom rootHeader 14 1

theorem isLine_lineHeaders : IsLine lineHeaders where
  chain := isChain_headersFrom rootHeader 14 1
  nodup := by decide +kernel

end UtxoConsensus.BlockTree
