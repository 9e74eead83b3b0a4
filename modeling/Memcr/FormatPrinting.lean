import Mathlib.Data.Nat.Digits.Defs
import Mathlib.Data.List.TakeWhile

namespace Memcr.FormatPrinting

def nul : Char := Char.ofNat 0

/-- A string of C. -/
structure CString where
  text : List Char
  noNul : nul ∉ text

/-- A piece of a format, with its argument if it takes one. -/
inductive Item where
  | literal (s : CString)
  /-- `%s` -/
  | string (s : CString)
  /-- `%u` -/
  | unsigned (n : Nat)
  /-- `%d` -/
  | signed (i : Int)

def Item.text : Item → List Char
  | literal s | string s => s.text
  | unsigned n => Nat.toDigits 10 n
  | signed i => if i < 0 then '-' :: Nat.toDigits 10 i.natAbs else Nat.toDigits 10 i.natAbs

/-- The text of a format before it is cut to the size of the buffer. -/
def printed (format : List Item) : List Char := format.flatMap Item.text

/-- The buffer behind `snprintf(buf, size, format)`. -/
def snprintf (buf : List Char) (size : Nat) (format : List Item) : List Char :=
  if size = 0 then buf
  else
    let kept := (printed format).take (size - 1)
    kept ++ nul :: buf.drop (kept.length + 1)

/-- The string at the start of a buffer. -/
def stringAt (buf : List Char) : List Char := buf.takeWhile (· != nul)

section Numbered

variable {stem rest rest' : List Char} {limit width n m : Nat}

theorem nul_notMem_toDigits (n : Nat) : nul ∉ Nat.toDigits 10 n := by
  intro hmem
  have hdigit := Nat.isDigit_of_mem_toDigits (by decide) le_rfl hmem
  exact absurd hdigit (by decide)

theorem toDigits_injective : Function.Injective (Nat.toDigits 10) :=
  Function.LeftInverse.injective fun _ => Nat.ofDigitChars_ten_toDigits

theorem eq_of_numbered_take_eq (hwidth : 0 < width) (hfits : stem.length + width ≤ limit)
    (hn : n < 10 ^ width) (hm : m < 10 ^ width)
    (heq : (stem ++ Nat.toDigits 10 n).take limit = (stem ++ Nat.toDigits 10 m).take limit) :
    n = m := by
  have hwhole : ∀ {k : Nat}, k < 10 ^ width →
      (stem ++ Nat.toDigits 10 k).take limit = stem ++ Nat.toDigits 10 k := by
    intro k hk
    have hdigits := (Nat.length_toDigits_le_iff (by decide) hwidth).mpr hk
    apply List.take_of_length_le
    rw [List.length_append]
    omega
  rw [hwhole hn, hwhole hm] at heq
  exact toDigits_injective (List.append_cancel_left heq)

theorem numbered_take_eq (hn : 0 < n) (d e : Fin 10)
    (hcut : limit ≤ stem.length + (Nat.toDigits 10 n).length) :
    (stem ++ Nat.toDigits 10 (10 * n + d)).take limit =
      (stem ++ Nat.toDigits 10 (10 * n + e)).take limit := by
  have hlast : ∀ d : Fin 10, (stem ++ Nat.toDigits 10 (10 * n + d)).take limit =
      (stem ++ Nat.toDigits 10 n).take limit := by
    intro d
    rw [← Nat.toDigits_append_toDigits (by decide) hn d.isLt, ← List.append_assoc]
    exact List.take_append_of_le_length (by rwa [List.length_append])
  rw [hlast d, hlast e]

theorem take_append_cons_eq_iff {c c' : Char} (hne : c ≠ c') :
    (stem ++ c :: rest).take limit = (stem ++ c' :: rest').take limit ↔
      limit ≤ stem.length := by
  constructor
  · intro heq
    by_contra hlong
    obtain ⟨more, hmore⟩ := Nat.exists_eq_add_of_lt (Nat.lt_of_not_le hlong)
    rw [hmore, Nat.add_assoc, List.take_length_add_append, List.take_length_add_append] at heq
    have htail := List.append_cancel_left heq
    simp only [List.take_succ_cons, List.cons.injEq] at htail
    exact hne htail.1
  · intro hshort
    rw [List.take_append_of_le_length hshort, List.take_append_of_le_length hshort]

end Numbered

section Buffers

variable {buf : List Char} {size : Nat} {format format' : List Item}

theorem Item.nul_notMem_text (item : Item) : nul ∉ item.text := by
  rcases item with s | s | n | i
  · exact s.noNul
  · exact s.noNul
  · exact nul_notMem_toDigits n
  · have hdigits := nul_notMem_toDigits i.natAbs
    have hsign : nul ≠ '-' := by decide
    simp only [Item.text]
    split
    · simp [hsign, hdigits]
    · exact hdigits

theorem nul_notMem_printed (format : List Item) : nul ∉ printed format := by
  intro hmem
  obtain ⟨item, -, hitem⟩ := List.mem_flatMap.mp hmem
  exact item.nul_notMem_text hitem

theorem stringAt_snprintf (hsize : 0 < size) (buf : List Char) (format : List Item) :
    stringAt (snprintf buf size format) = (printed format).take (size - 1) := by
  have hkept : ∀ c ∈ (printed format).take (size - 1), (c != nul) = true := by
    intro c hc
    have hne : c ≠ nul := by
      rintro rfl
      exact nul_notMem_printed format (List.mem_of_mem_take hc)
    simpa using hne
  rw [stringAt, snprintf, if_neg hsize.ne', List.takeWhile_append_of_pos hkept]
  simp

theorem head?_snprintf (hsize : 1 < size) (buf : List Char) (hne : printed format ≠ []) :
    (snprintf buf size format).head? = (printed format).head? := by
  obtain ⟨c, rest, heq⟩ := List.exists_cons_of_ne_nil hne
  obtain ⟨more, rfl⟩ := Nat.exists_eq_add_of_le' hsize
  simp [snprintf, heq]

/-- Two texts leave the same bytes in a cleared buffer if they agree as far as it
reaches. -/
theorem snprintf_cleared_inj (hsize : 0 < size) :
    snprintf (List.replicate size nul) size format =
        snprintf (List.replicate size nul) size format' ↔
      (printed format).take (size - 1) = (printed format').take (size - 1) := by
  constructor
  · intro heq
    have hstring := congrArg stringAt heq
    rwa [stringAt_snprintf hsize, stringAt_snprintf hsize] at hstring
  · intro heq
    simp only [snprintf, heq]

end Buffers

end Memcr.FormatPrinting
