/-!
# Blank characters

The characters with the Unicode property White_Space, and the removal of blanks around a text.
-/

namespace UtxoConsensus.Text

/-- The code points with the property White_Space, as inclusive ranges in order. -/
def blankRanges : List (Nat × Nat) :=
  [(0x9, 0xd), (0x20, 0x20), (0x85, 0x85), (0xa0, 0xa0), (0x1680, 0x1680), (0x2000, 0x200a),
    (0x2028, 0x2029), (0x202f, 0x202f), (0x205f, 0x205f), (0x3000, 0x3000)]

/-- Does the character have the property White_Space? -/
def isBlank (c : Char) : Bool :=
  blankRanges.any fun range ↦ decide (range.1 ≤ c.toNat) && decide (c.toNat ≤ range.2)

/-- The six blanks of ASCII: space, the two tabs, and the three that end a line or a page. -/
def isAsciiBlank (c : Char) : Bool :=
  c == ' ' || (decide (0x9 ≤ c.toNat) && decide (c.toNat ≤ 0xd))

/-- Leaves out the characters at both ends for which `blank` holds. -/
def trim (blank : Char → Bool) (cs : List Char) : List Char :=
  ((cs.dropWhile blank).reverse.dropWhile blank).reverse

theorem trim_of_not_blank {blank : Char → Bool} {cs : List Char} (h : ∀ c ∈ cs, blank c = false) :
    trim blank cs = cs := by
  have hkept {part : List Char} (hpart : ∀ c ∈ part, blank c = false) : part.dropWhile blank = part := by
    cases part with
    | nil => rfl
    | cons c rest => exact List.dropWhile_cons_of_neg (by simp [hpart c List.mem_cons_self])
  rw [trim, hkept h, hkept fun c hc ↦ h c (List.mem_reverse.mp hc), List.reverse_reverse]

end UtxoConsensus.Text
