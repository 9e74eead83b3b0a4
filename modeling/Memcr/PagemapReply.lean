import Memcr.PageSelection

namespace Memcr.PagemapReply

open Memcr.ByteWords
open Memcr.ByteMemory
open Memcr.PageSelection

/-- `/proc/<pid>/pagemap`, with eight bytes for each page. -/
def pagemapFile (table : PageTable) : Memory :=
  fun off => (toBytes 8 (table.entry (off / 8)).toNat).getD (off % 8) 0

/-- `PAGEMAP_BUF_SIZE`: the number of entries of `pagemap_buf`, used as a number
of bytes. -/
def pagemapBufSize : Nat := 4096 / 8

/-- The loop of `cmd_get_pages` behind its `lseek`: the pieces it writes, for at
most the given number of rounds. -/
def replyLoop (table : PageTable) : Nat → Nat → Nat → List (List Byte)
  | 0, _, _ => []
  | rounds + 1, off, len =>
      if len = 0 then []
      else
        let readLen := if pagemapBufSize < len then pagemapBufSize else len
        slice (pagemapFile table) off readLen ::
          replyLoop table rounds (off + readLen) (len - readLen)

/-- The answer to a pagemap request. Every round sends a byte at least. -/
def pagemapReply (table : PageTable) (seek len : Nat) : List (List Byte) :=
  replyLoop table len seek len

/-- `map_buf[idx]` -/
def mapBuf (bytes : List Byte) (idx : Nat) : BitVec 64 :=
  BitVec.ofNat 64 (ByteWords.ofBytes ((bytes.drop (8 * idx)).take 8))

/-- The result of a `parasite_read` of `len` bytes that gets all of them equals
`len`. The result is an `int`. -/
def wholeReply (len : Nat) : Bool := toInt32 len == len

theorem replyLoop_flatten (table : PageTable) {rounds off len : Nat} (hrounds : len ≤ rounds) :
    (replyLoop table rounds off len).flatten = slice (pagemapFile table) off len := by
  induction rounds generalizing off len with
  | zero =>
      obtain rfl : len = 0 := by omega
      rfl
  | succ rounds ih =>
      rw [replyLoop]
      split
      · rename_i hzero
        subst hzero
        rfl
      · rename_i hpos
        obtain ⟨readLen, hread, hle, hprogress⟩ : ∃ readLen,
            (if pagemapBufSize < len then pagemapBufSize else len) = readLen ∧
              readLen ≤ len ∧ 0 < readLen := by
          refine ⟨_, rfl, ?_⟩
          split
          · rename_i hlong
            exact ⟨hlong.le, by decide⟩
          · exact ⟨le_rfl, Nat.pos_of_ne_zero hpos⟩
        simp only [hread, List.flatten_cons]
        rw [ih (by omega), slice_append]
        congr 1
        omega

theorem pagemapReply_flatten (table : PageTable) (seek len : Nat) :
    (pagemapReply table seek len).flatten = slice (pagemapFile table) seek len :=
  replyLoop_flatten table le_rfl

theorem replyLoop_ne_nil (table : PageTable) {rounds off len : Nat} {piece : List Byte}
    (hpiece : piece ∈ replyLoop table rounds off len) : piece ≠ [] := by
  induction rounds generalizing off len with
  | zero => simp [replyLoop] at hpiece
  | succ rounds ih =>
      rw [replyLoop] at hpiece
      split at hpiece
      · simp at hpiece
      · rename_i hpos
        rcases List.mem_cons.mp hpiece with rfl | hrest
        · intro hnil
          have hlength := congrArg List.length hnil
          rw [slice_length, List.length_nil] at hlength
          split at hlength
          · exact absurd hlength (by decide)
          · exact hpos hlength
        · exact ih hrest

theorem pagemapFile_entry (table : PageTable) (page : Nat) :
    slice (pagemapFile table) (8 * page) 8 = toBytes 8 (table.entry page).toNat := by
  apply List.ext_getElem
  · simp
  · intro i hi hi'
    have hlt : i < 8 := by simpa using hi
    have hpage : (8 * page + i) / 8 = page := by omega
    have hbyte : i % 8 = i := Nat.mod_eq_of_lt hlt
    simp [slice, pagemapFile, hpage, hbyte, List.getD_eq_getElem?_getD, hlt]

theorem mapBuf_pagemapReply (table : PageTable) {page idx nrpages : Nat} (hidx : idx < nrpages) :
    mapBuf (pagemapReply table (page * 8) (nrpages * 8)).flatten idx =
      table.entry (page + idx) := by
  have hplace : page * 8 + 8 * idx = 8 * (page + idx) := by ring
  rw [pagemapReply_flatten, mapBuf, slice_take_drop _ (by omega), hplace, pagemapFile_entry,
    DumpFormat.ofBytes_toBytes_bitVec]

theorem wholeReply_iff (len : Nat) : wholeReply len = true ↔ len < 2 ^ 31 := by
  constructor
  · intro h
    have hvalue : toInt32 len = len := by simpa [wholeReply] using h
    have hhigh : toInt32 len < 2 ^ 31 := by
      have := BitVec.toInt_lt (x := BitVec.ofNat 32 len)
      simpa [toInt32] using this
    omega
  · intro h
    simp [wholeReply, toInt32_of_lt h]

end Memcr.PagemapReply
