import Mathlib.Data.Nat.Log
import Mathlib.Tactic.Ring
import Mathlib.Tactic.NormNum

namespace Memcr.ByteWords

abbrev Byte := UInt8

/-- The `width` bytes of `n`, least significant first. -/
def toBytes : Nat → Nat → List Byte
  | 0, _ => []
  | width + 1, n => UInt8.ofNat (n % 256) :: toBytes width (n / 256)

/-- The number with the given bytes, least significant first. -/
def ofBytes : List Byte → Nat
  | [] => 0
  | b :: rest => b.toNat + 256 * ofBytes rest

@[simp] theorem toBytes_length (width n : Nat) : (toBytes width n).length = width := by
  induction width generalizing n with
  | zero => rfl
  | succ width ih => simp [toBytes, ih]

theorem ofBytes_toBytes {width n : Nat} (hn : n < 256 ^ width) :
    ofBytes (toBytes width n) = n := by
  induction width generalizing n with
  | zero =>
      have hzero : n = 0 := by simpa using hn
      subst n
      rfl
  | succ width ih =>
      have hdiv : n / 256 < 256 ^ width := by
        apply Nat.div_lt_of_lt_mul
        rw [pow_succ] at hn
        omega
      have hbyte : (UInt8.ofNat (n % 256)).toNat = n % 256 := by
        rw [UInt8.toNat_ofNat']
        exact Nat.mod_eq_of_lt (by omega)
      simp only [toBytes, ofBytes]
      rw [ih hdiv, hbyte]
      omega

theorem ofBytes_lt (bytes : List Byte) : ofBytes bytes < 256 ^ bytes.length := by
  induction bytes with
  | nil => simp [ofBytes]
  | cons b rest ih =>
      have hb : b.toNat < 256 := b.toNat_lt
      simp only [ofBytes, List.length_cons, pow_succ]
      omega

theorem toBytes_ofBytes (bytes : List Byte) : toBytes bytes.length (ofBytes bytes) = bytes := by
  induction bytes with
  | nil => rfl
  | cons b rest ih =>
      have hb : b.toNat < 256 := b.toNat_lt
      have hlow : (b.toNat + 256 * ofBytes rest) % 256 = b.toNat := by omega
      have hhigh : (b.toNat + 256 * ofBytes rest) / 256 = ofBytes rest := by omega
      simp only [List.length_cons, toBytes, ofBytes, hlow, hhigh, ih, UInt8.ofNat_toNat]

/-- A C `int` holding the low 32 bits of `n`. -/
def toInt32 (n : Nat) : Int := (BitVec.ofNat 32 n).toInt

theorem toInt32_of_lt {n : Nat} (hn : n < 2 ^ 31) : toInt32 n = n := by
  simp only [toInt32, BitVec.toInt_eq_toNat_cond, BitVec.toNat_ofNat]
  rw [Nat.mod_eq_of_lt (by omega)]
  split <;> omega

theorem toInt32_lt (n : Nat) : toInt32 n < 2 ^ 31 := by
  simp only [toInt32, BitVec.toInt_eq_toNat_cond, BitVec.toNat_ofNat]
  split <;> omega

theorem toInt32_le (n : Nat) : toInt32 n ≤ n := by
  have hmod := Nat.mod_le n (2 ^ 32)
  simp only [toInt32, BitVec.toInt_eq_toNat_cond, BitVec.toNat_ofNat]
  split <;> omega

theorem toInt32_pos {n : Nat} (h : 0 < toInt32 n) : 0 < n := by
  rcases Nat.eq_zero_or_pos n with rfl | hpos
  · exact absurd h (by decide)
  · exact hpos

/-- The 32-bit pattern of a C `int`. -/
def ofInt32 (i : Int) : Nat := (BitVec.ofInt 32 i).toNat

theorem toInt32_ofInt32 {i : Int} (hlow : -2 ^ 31 ≤ i) (hhigh : i < 2 ^ 31) :
    toInt32 (ofInt32 i) = i := by
  simp only [toInt32, ofInt32, BitVec.ofNat_toNat, BitVec.setWidth_eq]
  rw [BitVec.toInt_ofInt]
  apply Int.bmod_eq_of_le <;> omega

theorem ofInt32_lt (i : Int) : ofInt32 i < 256 ^ 4 := by
  have := (BitVec.ofInt 32 i).isLt
  simpa [ofInt32] using this

end Memcr.ByteWords
