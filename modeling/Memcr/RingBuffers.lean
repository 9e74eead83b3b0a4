import Mathlib.Data.List.Basic

namespace Memcr.RingBuffers

universe u

variable {α : Type u}

/-- A bounded queue in an array. The indices start again at 0 when they reach its end,
and the count is kept apart from them. -/
structure RingBuffer (α : Type u) where
  slots : List α
  frontIdx : Nat
  backIdx : Nat
  size : Nat
  deriving DecidableEq, Repr

/-- An index after `++`, taken back to 0 at the end of the array. -/
def advance (capacity idx : Nat) : Nat := if capacity ≤ idx + 1 then 0 else idx + 1

/-- The index of the `i`-th element behind the front. -/
def place (capacity front i : Nat) : Nat :=
  if front + i < capacity then front + i else front + i - capacity

/-- The element goes to the back; a full queue is not tested for. -/
def RingBuffer.pushBack (capacity : Nat) (ring : RingBuffer α) (x : α) : RingBuffer α where
  slots := ring.slots.set ring.backIdx x
  frontIdx := ring.frontIdx
  backIdx := advance capacity ring.backIdx
  size := ring.size + 1

/-- The front element is given up. -/
def RingBuffer.popFront (capacity : Nat) (ring : RingBuffer α) : RingBuffer α :=
  { ring with frontIdx := advance capacity ring.frontIdx, size := ring.size - 1 }

/-- The element at the front index. -/
def RingBuffer.front (ring : RingBuffer α) : Option α := ring.slots[ring.frontIdx]?

/-- The array and the variables hold the elements `items`, front first. -/
structure Holds (capacity : Nat) (ring : RingBuffer α) (items : List α) : Prop where
  length : ring.slots.length = capacity
  front_lt : ring.frontIdx < capacity
  back : ring.backIdx = place capacity ring.frontIdx items.length
  size : ring.size = items.length
  fits : items.length ≤ capacity
  item : ∀ i < items.length, ring.slots[place capacity ring.frontIdx i]? = items[i]?

section Operations

variable {capacity : Nat} {ring : RingBuffer α} {items : List α} {x : α}

theorem place_lt {front i : Nat} (hfront : front < capacity) (hi : i ≤ capacity) :
    place capacity front i < capacity := by
  simp only [place]
  split_ifs <;> omega

theorem place_succ {front i : Nat} (hfront : front < capacity) (hi : i < capacity) :
    place capacity front (i + 1) = advance capacity (place capacity front i) := by
  simp only [place, advance]
  split_ifs <;> omega

theorem place_advance {front i : Nat} (hfront : front < capacity) (hi : i < capacity) :
    place capacity (advance capacity front) i = place capacity front (i + 1) := by
  simp only [place, advance]
  split_ifs <;> omega

theorem place_ne {front i j : Nat} (hj : j < capacity) (hij : i < j) :
    place capacity front i ≠ place capacity front j := by
  simp only [place]
  split_ifs <;> omega

theorem Holds.back_lt (h : Holds capacity ring items) : ring.backIdx < capacity := by
  rw [h.back]
  exact place_lt h.front_lt h.fits

theorem holds_empty {slots : List α} (hpos : 0 < slots.length) :
    Holds slots.length ⟨slots, 0, 0, 0⟩ [] where
  length := rfl
  front_lt := hpos
  back := by simp [place]
  size := rfl
  fits := Nat.zero_le _
  item := by simp

theorem Holds.pushBack (h : Holds capacity ring items) (hroom : items.length < capacity) (x : α) :
    Holds capacity (ring.pushBack capacity x) (items ++ [x]) where
  length := by simpa [RingBuffer.pushBack] using h.length
  front_lt := h.front_lt
  back := by
    have hnext := place_succ h.front_lt hroom
    rw [← h.back] at hnext
    rw [List.length_append, List.length_singleton]
    exact hnext.symm
  size := by simp [RingBuffer.pushBack, h.size]
  fits := by simpa using Nat.succ_le_of_lt hroom
  item := by
    intro i hi
    rw [List.length_append, List.length_singleton] at hi
    simp only [RingBuffer.pushBack]
    rcases Nat.lt_succ_iff_lt_or_eq.mp hi with hlt | rfl
    · -- the slot behind the back is none of those in use
      have hne : ring.backIdx ≠ place capacity ring.frontIdx i := by
        rw [h.back]
        exact (place_ne hroom hlt).symm
      rw [List.getElem?_set_ne hne, List.getElem?_append_left hlt]
      exact h.item i hlt
    · have hback : ring.backIdx < ring.slots.length := by
        rw [h.length]
        exact h.back_lt
      rw [← h.back, List.getElem?_set_self hback, List.getElem?_concat_length]

theorem Holds.front (h : Holds capacity ring (x :: items)) : ring.front = some x := by
  have hplace : place capacity ring.frontIdx 0 = ring.frontIdx := by
    simp [place, h.front_lt]
  have hitem := h.item 0 (by simp)
  rwa [hplace] at hitem

theorem Holds.popFront (h : Holds capacity ring (x :: items)) :
    Holds capacity (ring.popFront capacity) items := by
  have hroom : items.length < capacity := by
    have hfits := h.fits
    rw [List.length_cons] at hfits
    omega
  refine ⟨h.length, ?_, ?_, ?_, Nat.le_of_lt hroom, ?_⟩
  · simp only [RingBuffer.popFront, advance]
    have := h.front_lt
    split_ifs <;> omega
  · simp only [RingBuffer.popFront]
    rw [place_advance h.front_lt hroom, h.back, List.length_cons]
  · simp [RingBuffer.popFront, h.size]
  · intro i hi
    simp only [RingBuffer.popFront]
    rw [place_advance h.front_lt (Nat.lt_trans hi hroom), h.item (i + 1) (by simpa using hi),
      List.getElem?_cons_succ]

end Operations

end Memcr.RingBuffers
