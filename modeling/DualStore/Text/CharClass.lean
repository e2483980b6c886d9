import DualStore.Text.LetterRanges
import DualStore.Text.HiddenRanges

/-! Classes of characters after their Unicode properties: blanks, controls, letters, digits, and
characters that are shown by their number when a text is quoted. -/

namespace DualStore.Text

/-- Membership of a code point in a list of inclusive ranges. -/
def inRanges (ranges : List (Nat × Nat)) (n : Nat) : Bool :=
  ranges.any fun r => r.1 ≤ n && n ≤ r.2

/-- The property White_Space. -/
def isBlank (c : Char) : Bool :=
  let n := c.toNat
  (9 ≤ n && n ≤ 13) || n == 0x20 || n == 0x85 || n == 0xA0 || n == 0x1680 ||
    (0x2000 ≤ n && n ≤ 0x200A) || n == 0x2028 || n == 0x2029 || n == 0x202F || n == 0x205F ||
    n == 0x3000

/-- The category Cc. -/
def isControl (c : Char) : Bool :=
  c.toNat < 0x20 || (0x7F ≤ c.toNat && c.toNat ≤ 0x9F)

/-- The property Alphabetic. -/
def isLetter (c : Char) : Bool :=
  if c.toNat < 0x80 then c.isAlpha else inRanges letterRanges c.toNat

/-- Letters, and the digits and numerals of every script. -/
def isLetterOrNumber (c : Char) : Bool :=
  if c.toNat < 0x80 then c.isAlphanum
  else inRanges letterRanges c.toNat || inRanges numberRanges c.toNat

/-- Characters that a quoted text shows by their number. -/
def isHidden (c : Char) : Bool :=
  if c.toNat < 0x80 then isControl c else inRanges hiddenRanges c.toNat

theorem toNat_lt_of_isAlphanum {c : Char} (h : c.isAlphanum = true) : c.toNat < 0x80 := by
  have hor : (c.isUpper || c.isLower || c.isDigit) = true := h
  suffices hle : c.val ≤ 122 from Nat.lt_of_le_of_lt (UInt32.le_iff_toNat_le.mp hle) (by decide)
  rcases Bool.or_eq_true_iff.mp hor with halpha | hdigit
  · rcases Bool.or_eq_true_iff.mp halpha with hupper | hlower
    · have hupper : c.val ≥ 65 ∧ c.val ≤ 90 := of_decide_eq_true hupper
      exact UInt32.le_trans hupper.2 (by decide)
    · have hlower : (decide (c.val ≥ 97) && decide (c.val ≤ 122)) = true := hlower
      exact of_decide_eq_true (Bool.and_eq_true_iff.mp hlower).2
  · have hdigit : (decide (c.val ≥ 48) && decide (c.val ≤ 57)) = true := hdigit
    exact UInt32.le_trans (of_decide_eq_true (Bool.and_eq_true_iff.mp hdigit).2) (by decide)

end DualStore.Text
