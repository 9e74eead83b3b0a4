import Mathlib.Data.List.GetD
import Memcr.ByteWords

namespace Memcr.ByteMemory

open Memcr.ByteWords

/-- Byte-addressed memory. Buffers use the same representation. -/
abbrev Memory := Nat → Byte

/-- The address `a` lies in the range of `len` bytes at `addr`. -/
def Within (addr len a : Nat) : Prop := addr ≤ a ∧ a < addr + len

instance (addr len a : Nat) : Decidable (Within addr len a) :=
  inferInstanceAs (Decidable (_ ∧ _))

/-- The `len` bytes at `addr`. -/
def slice (mem : Memory) (addr len : Nat) : List Byte :=
  (List.range len).map fun i => mem (addr + i)

/-- The memory with a byte string written at `addr`. -/
def store (mem : Memory) (addr : Nat) (bytes : List Byte) : Memory :=
  fun a => if Within addr bytes.length a then bytes.getD (a - addr) 0 else mem a

@[simp] theorem slice_length (mem : Memory) (addr len : Nat) :
    (slice mem addr len).length = len := by
  simp [slice]

theorem slice_congr {mem mem' : Memory} {addr len : Nat}
    (h : ∀ a, Within addr len a → mem a = mem' a) :
    slice mem addr len = slice mem' addr len := by
  apply List.map_congr_left
  intro i hi
  exact h _ ⟨by omega, by have := List.mem_range.mp hi; omega⟩

theorem slice_getD {mem : Memory} {addr len a : Nat} (h : Within addr len a) :
    (slice mem addr len).getD (a - addr) 0 = mem a := by
  obtain ⟨hlow, hhigh⟩ := h
  have hi : a - addr < len := by omega
  simp [slice, List.getD_eq_getElem?_getD, List.getElem?_range hi,
    show addr + (a - addr) = a by omega]

theorem slice_append (mem : Memory) (addr m n : Nat) :
    slice mem addr m ++ slice mem (addr + m) n = slice mem addr (m + n) := by
  simp only [slice, List.range_add, List.map_append, List.map_map]
  congr 1
  apply List.map_congr_left
  intro i _
  simp [Nat.add_assoc]

theorem slice_take_drop (mem : Memory) {addr len k n : Nat} (h : k + n ≤ len) :
    ((slice mem addr len).drop k).take n = slice mem (addr + k) n := by
  obtain ⟨rest, rfl⟩ := Nat.exists_eq_add_of_le h
  rw [← slice_append, ← slice_append, List.append_assoc, List.drop_left' (slice_length ..),
    List.take_left' (slice_length ..)]

theorem store_of_not_within {mem : Memory} {addr a : Nat} {bytes : List Byte}
    (h : ¬ Within addr bytes.length a) : store mem addr bytes a = mem a := by
  simp [store, h]

theorem store_nil (mem : Memory) (addr : Nat) : store mem addr [] = mem := by
  funext a
  exact store_of_not_within (by simp [Within])

theorem store_of_within {mem : Memory} {addr a : Nat} {bytes : List Byte}
    (h : Within addr bytes.length a) : store mem addr bytes a = bytes.getD (a - addr) 0 := by
  simp [store, h]

theorem length_le_of_store_eq {bytes bytes' : List Byte} {addr : Nat}
    (h : ∀ mem, store mem addr bytes = store mem addr bytes') : bytes'.length ≤ bytes.length := by
  by_contra hlt
  have hin : Within addr bytes'.length (addr + bytes.length) := ⟨by omega, by omega⟩
  have hout : ¬ Within addr bytes.length (addr + bytes.length) := fun hin => by
    have := hin.2
    omega
  have hbyte (b : Byte) : b = bytes'.getD (addr + bytes.length - addr) 0 := by
    have hequal := congrFun (h fun _ => b) (addr + bytes.length)
    rwa [store_of_not_within hout, store_of_within hin] at hequal
  exact absurd ((hbyte 0).trans (hbyte 1).symm) (by decide)

theorem length_eq_of_store_eq {bytes bytes' : List Byte} {addr : Nat}
    (h : ∀ mem, store mem addr bytes = store mem addr bytes') : bytes.length = bytes'.length :=
  le_antisymm (length_le_of_store_eq fun mem => (h mem).symm) (length_le_of_store_eq h)

theorem store_store (mem : Memory) (addr : Nat) (bytes more : List Byte) :
    store (store mem addr bytes) (addr + bytes.length) more = store mem addr (bytes ++ more) := by
  funext a
  by_cases hfirst : Within addr bytes.length a
  · have hwhole : Within addr (bytes ++ more).length a := by
      rw [List.length_append]
      exact ⟨hfirst.1, by have := hfirst.2; omega⟩
    have hsecond : ¬ Within (addr + bytes.length) more.length a := fun h => by
      have := h.1
      have := hfirst.2
      omega
    rw [store_of_not_within hsecond, store_of_within hfirst, store_of_within hwhole,
      List.getD_append _ _ _ _ (by have := hfirst.2; have := hfirst.1; omega)]
  · by_cases hsecond : Within (addr + bytes.length) more.length a
    · obtain ⟨hlow, hhigh⟩ := hsecond
      have hwhole : Within addr (bytes ++ more).length a := by
        rw [List.length_append]
        exact ⟨by omega, by omega⟩
      rw [store_of_within ⟨hlow, hhigh⟩, store_of_within hwhole,
        List.getD_append_right _ _ _ _ (by omega), Nat.sub_sub]
    · have hwhole : ¬ Within addr (bytes ++ more).length a := by
        simp only [Within, List.length_append] at hfirst hsecond ⊢
        omega
      rw [store_of_not_within hsecond, store_of_not_within hfirst, store_of_not_within hwhole]

theorem store_slice_of_within {mem mem' : Memory} {addr len a : Nat}
    (h : Within addr len a) : store mem' addr (slice mem addr len) a = mem a := by
  simp only [store, slice_length, h, if_true]
  exact slice_getD h

theorem slice_store_self (buf : Memory) (bytes : List Byte) :
    slice (store buf 0 bytes) 0 bytes.length = bytes := by
  apply List.ext_getElem
  · simp
  · intro i hi hi'
    have hwithin : Within 0 bytes.length i := ⟨Nat.zero_le _, by omega⟩
    simp [slice, store, hwithin, List.getD_eq_getElem?_getD, List.getElem?_eq_getElem hi']

end Memcr.ByteMemory
