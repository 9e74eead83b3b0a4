import Mathlib.Data.BitVec
import Mathlib.Data.List.GetD
import Mathlib.Tactic.Ring

namespace Memcr.AddressWindows

universe u

variable {w : Nat} {β : Type u}

/-- The address lies in the window of `len` bytes at `base`. -/
def InWindow (base : BitVec w) (len : Nat) (a : BitVec w) : Prop := (a - base).toNat < len

instance (base : BitVec w) (len : Nat) (a : BitVec w) : Decidable (InWindow base len a) :=
  inferInstanceAs (Decidable (_ < _))

/-- The `len` bytes from `base` on. A window may wrap around the end of the address space. -/
def readWindow (mem : BitVec w → β) (base : BitVec w) (len : Nat) : List β :=
  (List.range len).map fun i => mem (base + BitVec.ofNat w i)

/-- The memory with `bytes` stored from `base` on. -/
def writeWindow (mem : BitVec w → β) (base : BitVec w) (bytes : List β) : BitVec w → β :=
  fun a => bytes.getD (a - base).toNat (mem a)

/-- Two memories agree outside of a set of addresses. -/
def AgreeOutside (changed : BitVec w → Prop) (mem mem' : BitVec w → β) : Prop :=
  ∀ a, ¬ changed a → mem' a = mem a

section Windows

variable {mem mem' mem'' : BitVec w → β} {base a : BitVec w} {len : Nat} {bytes : List β}
  {changed : BitVec w → Prop}

@[simp] theorem readWindow_length : (readWindow mem base len).length = len := by
  simp [readWindow]

theorem writeWindow_of_not (h : ¬ InWindow base bytes.length a) :
    writeWindow mem base bytes a = mem a :=
  List.getD_eq_default _ _ (not_lt.mp h)

theorem writeWindow_readWindow (h : InWindow base len a) :
    writeWindow mem' base (readWindow mem base len) a = mem a := by
  have hindex : base + BitVec.ofNat w (a - base).toNat = a := by
    rw [BitVec.ofNat_toNat, BitVec.setWidth_eq, BitVec.add_comm, BitVec.sub_add_cancel]
  rw [writeWindow, readWindow, List.getD_eq_getElem?_getD, List.getElem?_map,
    List.getElem?_range h, Option.map_some, Option.getD_some, hindex]

theorem offset_toNat {i : Nat} (hi : i < 2 ^ w) : (base + BitVec.ofNat w i - base).toNat = i := by
  rw [BitVec.add_comm, BitVec.add_sub_cancel, BitVec.toNat_ofNat]
  exact Nat.mod_eq_of_lt hi

theorem readWindow_writeWindow (h : bytes.length ≤ 2 ^ w) :
    readWindow (writeWindow mem base bytes) base bytes.length = bytes := by
  apply List.ext_getElem
  · simp
  · intro i hi hi'
    simp only [readWindow, writeWindow, List.getElem_map, List.getElem_range]
    rw [offset_toNat (by omega), List.getD_eq_getElem _ _ hi']

theorem readWindow_congr (h : ∀ a, InWindow base len a → mem a = mem' a) :
    readWindow mem base len = readWindow mem' base len := by
  apply List.map_congr_left
  intro i hi
  have hlt := List.mem_range.mp hi
  apply h
  rw [InWindow, BitVec.add_comm, BitVec.add_sub_cancel, BitVec.toNat_ofNat]
  exact (Nat.mod_le i (2 ^ w)).trans_lt hlt

theorem AgreeOutside.refl (mem : BitVec w → β) : AgreeOutside changed mem mem :=
  fun _ _ => rfl

theorem AgreeOutside.trans (h : AgreeOutside changed mem mem')
    (h' : AgreeOutside changed mem' mem'') : AgreeOutside changed mem mem'' :=
  fun a ha => (h' a ha).trans (h a ha)

theorem AgreeOutside.mono {changed' : BitVec w → Prop} (h : AgreeOutside changed mem mem')
    (hle : ∀ a, changed a → changed' a) : AgreeOutside changed' mem mem' :=
  fun a ha => h a fun hin => ha (hle a hin)

theorem agreeOutside_writeWindow (h : ∀ a, InWindow base bytes.length a → changed a) :
    AgreeOutside changed mem (writeWindow mem base bytes) :=
  fun a ha => writeWindow_of_not fun hin => ha (h a hin)

theorem InWindow.of_add {off : Nat} (h : InWindow (base + BitVec.ofNat w off) len a) :
    InWindow base (off + len) a := by
  rw [InWindow] at h ⊢
  have hsplit : a - base = a - (base + BitVec.ofNat w off) + BitVec.ofNat w off := by ring
  rw [hsplit, BitVec.toNat_add, BitVec.toNat_ofNat]
  have hmod := Nat.mod_le off (2 ^ w)
  exact (Nat.mod_le _ _).trans_lt (by omega)

theorem InWindow.mono {len' : Nat} (h : InWindow base len a) (hle : len ≤ len') :
    InWindow base len' a :=
  lt_of_lt_of_le h hle

end Windows

end Memcr.AddressWindows
