/-! Byte strings and numbers in big-endian order, in which bytes and numbers compare alike. -/

namespace DualStore

abbrev Bytes := List UInt8

namespace Bytes

/-- `n` in big-endian order, in `width` bytes. -/
def ofNat (width n : Nat) : Bytes :=
  match width with
  | 0 => []
  | width + 1 => UInt8.ofNat (n / Nat.pow 256 width) :: ofNat width (n % Nat.pow 256 width)

/-- The number that bytes stand for in big-endian order. -/
def toNat : Bytes → Nat
  | [] => 0
  | b :: bytes => b.toNat * Nat.pow 256 bytes.length + toNat bytes

/-- The eight bytes of a word. -/
def ofWord (n : UInt64) : Bytes := ofNat 8 n.toNat

def toWord (bytes : Bytes) : UInt64 := UInt64.ofNat (toNat bytes)

/-- The first `n` bytes and the rest, if there are that many. -/
def split? (n : Nat) (bytes : Bytes) : Option (Bytes × Bytes) :=
  if n ≤ bytes.length then some (bytes.take n, bytes.drop n) else none

@[simp] theorem length_ofNat (width n : Nat) : (ofNat width n).length = width := by
  induction width generalizing n with
  | zero => rfl
  | succ width ih => simp [ofNat, ih]

@[simp] theorem length_ofWord (n : UInt64) : (ofWord n).length = 8 := length_ofNat ..

theorem toNat_ofNat {width n : Nat} (h : n < Nat.pow 256 width) : toNat (ofNat width n) = n := by
  induction width generalizing n with
  | zero =>
    have : n = 0 := Nat.lt_one_iff.mp h
    simp [ofNat, toNat, this]
  | succ width ih =>
    have hlt : n / Nat.pow 256 width < 256 := Nat.div_lt_of_lt_mul h
    rw [ofNat, toNat, length_ofNat, ih (Nat.mod_lt _ (Nat.pow_pos (by decide))),
      UInt8.toNat_ofNat_of_lt' hlt, Nat.mul_comm]
    exact Nat.div_add_mod n _

/-! ## Hexadecimal text -/

def toHex (bytes : Bytes) : String :=
  String.ofList <| bytes.flatMap fun b =>
    [Nat.digitChar (b.toNat / 16), Nat.digitChar (b.toNat % 16)]

end Bytes
end DualStore
