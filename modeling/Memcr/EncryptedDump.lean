import Memcr.CipherBlocks
import Memcr.DumpReaders

/-!
The library of libencrypt.c. Every buffer that is written becomes a message of
its own: the block cipher in CBC mode with PKCS#7 padding, from the same key
and initialisation vector each time. A message is written by plaintext and
read by ciphertext, in steps of `IO_SIZE` bytes.
-/

namespace Memcr.EncryptedDump

open Memcr.BlockStreams
open Memcr.ByteMemory
open Memcr.ByteWords
open Memcr.CallOutcome
open Memcr.CipherBlocks
open Memcr.DumpFormat
open Memcr.DumpReaders
open Memcr.DumpRestore

/-- `IO_SIZE` -/
def ioSize : Nat := 4096

/-- The cipher with its key, and the initialisation vector. -/
structure Secrets where
  cipher : BlockCipher
  iv : List Byte
  iv_length : iv.length = blockSize

/-- How a call of `read` ends, if there is something to read. -/
inductive ReadCall where
  | fails
  /-- All that is asked for and there. -/
  | whole
  /-- At least one byte and no more than `n + 1`. -/
  | upTo (n : Nat)
  deriving DecidableEq, Repr

/-- The number of bytes a call for `size` bytes may return. -/
def ReadCall.limit (size : Nat) : ReadCall → Nat
  | .fails => 0
  | .whole => size
  | .upTo n => min size (n + 1)

/-- `read`; the calls are numbered by the reader. -/
def sysRead (io : Nat → ReadCall) (size : Nat) (r : Reader) : Option (List Byte) × Reader :=
  let n := (io r.reads).limit size
  if io r.reads = .fails then (none, { r with reads := r.reads + 1 })
  else (some (r.rest.take n), { r with rest := r.rest.drop n, reads := r.reads + 1 })

/-- `ROUND_UP(n, m)` on `size_t` -/
def roundUp (n m : BitVec 64) : BitVec 64 := (n + m) &&& ~~~(m - 1)

/-- `bytes_todo`, an `int` -/
def bytesTodo (count : Nat) : Int :=
  toInt32 (roundUp (BitVec.ofNat 64 count) (BitVec.ofNat 64 blockSize)).toNat

/-- The state of the loop of `lib__read`. -/
structure Reading where
  ctx : Context
  /-- What was stored in `buf`, from its start up to `p`. -/
  stored : List Byte
  bytesRead : Nat
  reader : Reader

/-- The `size` of the next `read`. -/
def nextSize (todo : Int) (bytesRead : Nat) : Int :=
  if todo - bytesRead < ioSize then todo - bytesRead else ioSize

/-- The loop of `lib__read`: it fails with a result, or ends. -/
def libReadLoop (secrets : Secrets) (io : Nat → ReadCall) (capacity count : Nat) (todo : Int) :
    Nat → Reading → Outcome (Sum (Int × List Byte × Reader) Reading)
  | 0, _ => .hangs
  | rounds + 1, st =>
      if count ≤ st.stored.length then .returns (.inr st)
      else
        let size := nextSize todo st.bytesRead
        -- as a `size_t` it is too large for `read`
        if size < 0 then
          .returns (.inl (-1, st.stored, { st.reader with reads := st.reader.reads + 1 }))
        else
          match sysRead io size.toNat st.reader with
          | (none, r) => .returns (.inl (-1, st.stored, r))
          | (some [], r) => .returns (.inr { st with reader := r })
          | (some (b :: data), r) =>
              let decrypted := decryptUpdate secrets.cipher st.ctx (b :: data)
              if capacity < st.stored.length + decrypted.1.length then .overruns
              else
                libReadLoop secrets io capacity count todo rounds
                  { ctx := decrypted.2
                    stored := st.stored ++ decrypted.1
                    bytesRead := st.bytesRead + (b :: data).length
                    reader := r }

/-- `lib__read` behind its loop. -/
def libReadFinal (secrets : Secrets) (capacity count : Nat) (st : Reading) :
    Outcome (Int × List Byte × Reader) :=
  if st.bytesRead = 0 then .returns (0, st.stored, st.reader)
  else
    match decryptFinal secrets.cipher st.ctx with
    | none => .returns (-1, st.stored, st.reader)
    | some last =>
        if capacity < st.stored.length + last.length then .overruns
        else .returns (toInt32 count, st.stored ++ last, st.reader)

def Reading.start (secrets : Secrets) (r : Reader) : Reading where
  ctx := init secrets.iv
  stored := []
  bytesRead := 0
  reader := r

/-- `lib__read` with the cipher enabled. Every round but the last reads something,
so the loop is given one round more than the file has bytes. -/
def libRead (secrets : Secrets) (io : Nat → ReadCall) : DumpRead := fun capacity count r =>
  (libReadLoop secrets io capacity count (bytesTodo count) (r.rest.length + 1)
      (Reading.start secrets r)).andThen fun
    | .inl failed => .returns failed
    | .inr st => libReadFinal secrets capacity count st

/-- `lib__read` with the cipher disabled. -/
def libReadPlain (io : Nat → ReadCall) : DumpRead := fun capacity count r =>
  match sysRead io count r with
  | (none, r) => .returns (-1, [], r)
  | (some data, r) =>
      if capacity < data.length then .overruns else .returns (toInt32 data.length, data, r)

/-- How a call of `write` ends. -/
inductive WriteCall where
  | fails
  | whole
  /-- Only the first `n` bytes are written. -/
  | upTo (n : Nat)
  deriving DecidableEq, Repr

/-- `write`, and whether its result is not negative. -/
def sysWrite (io : Nat → WriteCall) (bytes : List Byte) (w : Writer) : Bool × Writer :=
  match io w.writes with
  | .fails => (false, { w with writes := w.writes + 1 })
  | .whole => (true, { w with file := w.file ++ bytes, writes := w.writes + 1 })
  | .upTo n => (true, { w with file := w.file ++ bytes.take n, writes := w.writes + 1 })

/-- The loop of `lib__write`, from the offset of `p` on; `none` if a write fails. -/
def libWriteLoop (secrets : Secrets) (io : Nat → WriteCall) (buf : List Byte) :
    Nat → Nat → Context → Writer → Outcome (Option Context × Writer)
  | 0, _, _, _ => .hangs
  | rounds + 1, off, ctx, w =>
      if buf.length ≤ off then .returns (some ctx, w)
      else
        let size := if buf.length < off + ioSize then buf.length % ioSize else ioSize
        let encrypted := encryptUpdate secrets.cipher ctx ((buf.drop off).take size)
        match sysWrite io encrypted.1 w with
        | (false, w) => .returns (none, w)
        | (true, w) => libWriteLoop secrets io buf rounds (off + ioSize) encrypted.2 w

/-- `lib__write` with the cipher enabled. -/
def libWrite (secrets : Secrets) (io : Nat → WriteCall) (buf : List Byte) (w : Writer) :
    Outcome (Int × Writer) :=
  (libWriteLoop secrets io buf (buf.length + 1) 0 (init secrets.iv) w).andThen fun
    | (none, w) => .returns (-1, w)
    | (some ctx, w) =>
        match sysWrite io (encryptFinal secrets.cipher ctx) w with
        | (false, w) => .returns (-1, w)
        | (true, w) => .returns (toInt32 buf.length, w)

theorem roundUp_toNat (n : BitVec 64) :
    (roundUp n (BitVec.ofNat 64 blockSize)).toNat =
      (n.toNat + blockSize) % 2 ^ 64 / blockSize * blockSize := by
  have hmask : ~~~(BitVec.ofNat 64 blockSize - 1) = BitVec.allOnes 64 <<< 4 := by decide
  rw [roundUp, hmask, ← BitVec.shiftLeft_ushiftRight]
  simp only [BitVec.toNat_shiftLeft, BitVec.toNat_ushiftRight, BitVec.toNat_add, blockSize,
    BitVec.toNat_ofNat, Nat.shiftRight_eq_div_pow, Nat.shiftLeft_eq]
  omega

theorem bytesTodo_eq {count : Nat} (h : count < 2 ^ 31 - 16) :
    bytesTodo count = ((count / blockSize + 1) * blockSize : Nat) := by
  rw [bytesTodo, roundUp_toNat, BitVec.toNat_ofNat, toInt32_of_lt]
  · simp only [blockSize]
    omega
  · simp only [blockSize]
    omega

section Writing

variable {secrets : Secrets} {buf : List Byte} {off : Nat} {ctx : Context} {w : Writer}

theorem take_append_chunk (hoff : ioSize ∣ off) (hlt : off < buf.length) :
    buf.take off ++ (buf.drop off).take
        (if buf.length < off + ioSize then buf.length % ioSize else ioSize) =
      buf.take (off + ioSize) := by
  obtain ⟨k, rfl⟩ := hoff
  rw [← List.take_add]
  split
  · rename_i hlast
    have hmod : ioSize * k + buf.length % ioSize = buf.length := by
      simp only [ioSize] at hlast hlt ⊢
      omega
    rw [hmod, List.take_length, List.take_of_length_le hlast.le]
  · rfl

theorem libWriteLoop_whole {rounds : Nat} (hrounds : buf.length - off < rounds)
    (hoff : ioSize ∣ off)
    (hfed : Fed blockSize (encryptBlock secrets.cipher) encryptReady secrets.iv (buf.take off) ctx)
    (file : List Byte)
    (hfile : w.file = file ++
      released blockSize (encryptBlock secrets.cipher) encryptReady secrets.iv (buf.take off)) :
    ∃ ctx' writes, libWriteLoop secrets (fun _ => .whole) buf rounds off ctx w =
        .returns (some ctx', { w with
          file := file ++
            released blockSize (encryptBlock secrets.cipher) encryptReady secrets.iv buf
          writes := writes }) ∧
      Fed blockSize (encryptBlock secrets.cipher) encryptReady secrets.iv buf ctx' := by
  induction rounds generalizing off ctx w with
  | zero => omega
  | succ rounds ih =>
      rw [libWriteLoop]
      split
      · rename_i hend
        rw [List.take_of_length_le hend] at hfed hfile
        refine ⟨ctx, w.writes, ?_, hfed⟩
        rw [← hfile]
      · rename_i hmore
        have hchunk := take_append_chunk hoff (not_le.mp hmore)
        obtain ⟨hnext, hout⟩ := hfed.feed encryptReady_rule ((buf.drop off).take
          (if buf.length < off + ioSize then buf.length % ioSize else ioSize))
        rw [hchunk] at hnext hout
        simp only [sysWrite]
        refine @ih (off + ioSize) _ _ ?_ ((Nat.dvd_add_right hoff).mpr (dvd_refl _)) hnext ?_
        · simp only [ioSize]
          omega
        · simp only [hfile, List.append_assoc, ← hout]
          rfl

theorem libWrite_whole (secrets : Secrets) (buf : List Byte) (w : Writer) :
    ∃ writes, libWrite secrets (fun _ => .whole) buf w =
      .returns (toInt32 buf.length, { w with
        file := w.file ++ encryptMessage secrets.cipher secrets.iv buf, writes := writes }) := by
  obtain ⟨ctx, writes, hloop, hfed⟩ := @libWriteLoop_whole secrets buf 0 (init secrets.iv) w
    (buf.length + 1) (by omega) (dvd_zero _) (fed_nil encryptReady_rule _) w.file
    (by simp [released, runBlocks, encryptReady])
  refine ⟨writes + 1, ?_⟩
  rw [libWrite, hloop]
  simp only [Outcome.returns_andThen, sysWrite, List.append_assoc, encryptFinal_eq hfed]

end Writing

section Reads

variable {secrets : Secrets} {io : Nat → ReadCall} {first todo : Nat}

/-- The number of bytes read by the first `k` calls, of `todo` in all. -/
def taken (io : Nat → ReadCall) (first todo : Nat) : Nat → Nat
  | 0 => 0
  | k + 1 =>
      taken io first todo k +
        (io (first + k)).limit (min ioSize (todo - taken io first todo k))

theorem ReadCall.limit_le (size : Nat) (call : ReadCall) : call.limit size ≤ size := by
  rcases call with _ | _ | n
  · exact Nat.zero_le _
  · exact le_rfl
  · exact Nat.min_le_left _ _

theorem ReadCall.limit_pos {size : Nat} {call : ReadCall} (hsize : 0 < size)
    (hcall : call ≠ .fails) : 0 < call.limit size := by
  rcases call with _ | _ | n
  · exact absurd rfl hcall
  · exact hsize
  · exact lt_min hsize (Nat.succ_pos n)

theorem taken_le (k : Nat) : taken io first todo k ≤ todo := by
  induction k with
  | zero => exact Nat.zero_le _
  | succ k ih =>
      have := (io (first + k)).limit_le (min ioSize (todo - taken io first todo k))
      simp only [taken]
      omega

theorem taken_lt {k : Nat} (hio : io (first + k) ≠ .fails) (h : taken io first todo k < todo) :
    taken io first todo k < taken io first todo (k + 1) := by
  have hsize : 0 < min ioSize (todo - taken io first todo k) :=
    lt_min (by decide) (by omega)
  exact Nat.lt_add_of_pos_right (ReadCall.limit_pos hsize hio)

theorem ReadCall.limit_min (call : ReadCall) (size rest : Nat) :
    call.limit (min size rest) = min (call.limit size) rest := by
  rcases call with _ | _ | n
  · exact (Nat.zero_min rest).symm
  · rfl
  · simp only [limit]
    omega

/-- A call of `lib__read` that has read and decrypted the first `n` bytes of what
the reader `r` holds. -/
structure ReadUpTo (secrets : Secrets) (r : Reader) (n : Nat) (st : Reading) : Prop where
  fed : Fed blockSize (decryptBlock secrets.cipher) decryptReady secrets.iv (r.rest.take n) st.ctx
  stored : st.stored = released blockSize (decryptBlock secrets.cipher) decryptReady secrets.iv
    (r.rest.take n)
  bytesRead : st.bytesRead = n
  reader : st.reader = { r with rest := r.rest.drop n, reads := st.reader.reads }

variable {r : Reader} {n capacity count rounds : Nat} {st : Reading}

theorem readUpTo_start (secrets : Secrets) (r : Reader) :
    ReadUpTo secrets r 0 (Reading.start secrets r) where
  fed := fed_nil decryptReady_rule _
  stored := by simp [Reading.start, released, decryptReady, runBlocks]
  bytesRead := rfl
  reader := rfl

theorem ReadUpTo.stored_length (h : ReadUpTo secrets r n st) (hn : n ≤ r.rest.length) :
    st.stored.length = decryptReady n * blockSize := by
  have htake : (r.rest.take n).length = n := List.length_take_of_le hn
  rw [h.stored, released, htake]
  refine (decryptBlocks_length ?_ secrets.iv_length).1
  rw [htake]
  exact decryptReady_rule.le n

theorem nextSize_eq (hn : n ≤ todo) : nextSize todo n = (min ioSize (todo - n) : Nat) := by
  simp only [nextSize]
  split <;> omega

theorem decryptReady_mono {m n : Nat} (h : m ≤ n) : decryptReady m ≤ decryptReady n :=
  Nat.div_le_div_right (by omega)

theorem sysRead_eq {size : Nat} (hio : io r.reads ≠ .fails) :
    sysRead io size r =
      (some (r.rest.take ((io r.reads).limit size)),
        { r with rest := r.rest.drop ((io r.reads).limit size), reads := r.reads + 1 }) := by
  simp only [sysRead, hio, if_false]

theorem sysRead_min {size m : Nat} (hio : io r.reads ≠ .fails)
    (hm : m = min ((io r.reads).limit size) r.rest.length) :
    sysRead io size r =
      (some (r.rest.take m), { r with rest := r.rest.drop m, reads := r.reads + 1 }) := by
  rw [sysRead_eq hio, hm, ← List.take_eq_take_min, ← List.drop_eq_drop_min]

theorem ReadUpTo.update (h : ReadUpTo secrets r n st) (m : Nat) :
    ReadUpTo secrets r (n + m)
      { ctx := (decryptUpdate secrets.cipher st.ctx ((r.rest.drop n).take m)).2
        stored := st.stored ++ (decryptUpdate secrets.cipher st.ctx ((r.rest.drop n).take m)).1
        bytesRead := n + m
        reader := { r with rest := r.rest.drop (n + m), reads := st.reader.reads + 1 } } := by
  obtain ⟨hfed, hout⟩ := h.fed.feed decryptReady_rule ((r.rest.drop n).take m)
  rw [← List.take_add] at hfed hout
  refine ⟨hfed, ?_, rfl, rfl⟩
  rw [h.stored]
  exact hout

/-- The last byte that the loop reads is the last one that it wants, or the last one of
the file. -/
def readEnd (todo : Nat) (r : Reader) : Nat := min todo r.rest.length

theorem ReadUpTo.next (h : ReadUpTo secrets r n st) (hlt : n < readEnd todo r)
    (hcap : decryptReady (readEnd todo r) * blockSize ≤ capacity)
    (hio : io st.reader.reads ≠ .fails) (hmore : st.stored.length < count) :
    ∃ st', ReadUpTo secrets r (n + (io st.reader.reads).limit (min ioSize (readEnd todo r - n)))
        st' ∧
      st'.reader.reads = st.reader.reads + 1 ∧
      ∀ rounds, libReadLoop secrets io capacity count todo (rounds + 1) st =
        libReadLoop secrets io capacity count todo rounds st' := by
  have hrest : st.reader.rest = r.rest.drop n := congrArg Reader.rest h.reader
  have hpos := ReadCall.limit_pos (lt_min (by decide : 0 < ioSize) (Nat.sub_pos_of_lt hlt)) hio
  have hle := (io st.reader.reads).limit_le (min ioSize (readEnd todo r - n))
  have hsize := nextSize_eq (hlt.le.trans (Nat.min_le_left _ _))
  -- what `read` is asked for, cut at the end of the file
  have hlimit : (io st.reader.reads).limit (min ioSize (readEnd todo r - n)) =
      min ((io st.reader.reads).limit (min ioSize (todo - n))) (r.rest.drop n).length := by
    rw [← ReadCall.limit_min, List.length_drop, readEnd, ← Nat.sub_min_sub_right, min_assoc]
  set m := (io st.reader.reads).limit (min ioSize (readEnd todo r - n)) with hm
  have hread : sysRead io (min ioSize (todo - n)) st.reader =
      (some ((r.rest.drop n).take m),
        { r with rest := r.rest.drop (n + m), reads := st.reader.reads + 1 }) := by
    rw [sysRead_min hio (by rw [hrest, ← hlimit]), hrest, List.drop_drop, h.reader]
  have hnext := h.update m
  refine ⟨_, hnext, rfl, fun rounds => ?_⟩
  have hend : n + m ≤ readEnd todo r := by omega
  have hlength : ((r.rest.drop n).take m).length = m :=
    List.length_take_of_le (hlimit.trans_le (Nat.min_le_right _ _))
  obtain ⟨b, data, hdata⟩ := List.exists_cons_of_length_pos (hlength.symm ▸ hpos)
  have hfits : ¬ capacity < st.stored.length +
      (decryptUpdate secrets.cipher st.ctx ((r.rest.drop n).take m)).1.length := by
    have hstored := hnext.stored_length (hend.trans (Nat.min_le_right _ _))
    have hmono := Nat.mul_le_mul_right blockSize (decryptReady_mono hend)
    rw [List.length_append] at hstored
    omega
  rw [hdata] at hread hfits hlength ⊢
  rw [libReadLoop, if_neg (not_le.mpr hmore)]
  simp only [hsize, Int.toNat_natCast, hread, if_neg (Int.natCast_nonneg _).not_gt, if_neg hfits,
    hlength, h.bytesRead]

theorem ReadUpTo.ends (h : ReadUpTo secrets r (readEnd todo r) st)
    (hio : io st.reader.reads ≠ .fails) (hmore : st.stored.length < count) (rounds : Nat) :
    ∃ st', ReadUpTo secrets r (readEnd todo r) st' ∧
      libReadLoop secrets io capacity count todo (rounds + 1) st = .returns (.inr st') := by
  have hrest : st.reader.rest = r.rest.drop (readEnd todo r) := congrArg Reader.rest h.reader
  have hsize := nextSize_eq (Nat.min_le_left todo r.rest.length)
  rw [← readEnd] at hsize
  have hread : sysRead io (min ioSize (todo - readEnd todo r)) st.reader =
      (some [], { st.reader with reads := st.reader.reads + 1 }) := by
    have hlimit : min ((io st.reader.reads).limit (min ioSize (todo - readEnd todo r)))
        (r.rest.drop (readEnd todo r)).length = 0 := by
      have hle := (io st.reader.reads).limit_le (min ioSize (todo - readEnd todo r))
      rw [List.length_drop]
      simp only [readEnd] at hle ⊢
      omega
    exact sysRead_min hio (by rw [hrest, hlimit])
  rw [libReadLoop, if_neg (not_le.mpr hmore)]
  simp only [h.bytesRead, hsize, Int.toNat_natCast, hread, if_neg (Int.natCast_nonneg _).not_gt]
  refine ⟨{ st with reader := { st.reader with reads := st.reader.reads + 1 } },
    ⟨h.fed, h.stored, h.bytesRead, ?_⟩, by rw [← h.bytesRead]⟩
  rw [h.reader]

theorem ReadUpTo.fails (h : ReadUpTo secrets r n st) (hn : n ≤ todo)
    (hio : io st.reader.reads = .fails) (hmore : st.stored.length < count) (rounds : Nat) :
    ∃ bytes r', libReadLoop secrets io capacity count todo (rounds + 1) st =
      .returns (.inl (-1, bytes, r')) := by
  have hread : sysRead io (min ioSize (todo - n)) st.reader =
      (none, { st.reader with reads := st.reader.reads + 1 }) := by
    simp only [sysRead, hio, if_true]
  rw [libReadLoop, if_neg (not_le.mpr hmore)]
  simp only [h.bytesRead, nextSize_eq hn, Int.toNat_natCast, hread,
    if_neg (Int.natCast_nonneg _).not_gt]
  exact ⟨_, _, rfl⟩

/-- The call with number `j` is made, gets something, and is not the last one. -/
structure Passes (io : Nat → ReadCall) (first todo count j : Nat) : Prop where
  works : io (first + j) ≠ .fails
  more : taken io first todo j < todo
  wanted : decryptReady (taken io first todo j) * blockSize < count

/-- The loop ends with the first call that fails, or behind which nothing is left to
read, or once enough is decrypted. -/
theorem libReadLoop_outcome (hcap : decryptReady (readEnd todo r) * blockSize ≤ capacity) {k : Nat}
    (h : ReadUpTo secrets r (taken io r.reads (readEnd todo r) k) st)
    (hreads : st.reader.reads = r.reads + k)
    (hrounds : readEnd todo r - taken io r.reads (readEnd todo r) k < rounds) :
    ∃ k', (∀ j, k ≤ j → j < k' → Passes io r.reads (readEnd todo r) count j) ∧
      ((∃ bytes r', libReadLoop secrets io capacity count todo rounds st =
            .returns (.inl (-1, bytes, r')) ∧ io (r.reads + k') = .fails ∧
          decryptReady (taken io r.reads (readEnd todo r) k') * blockSize < count) ∨
        ∃ st', libReadLoop secrets io capacity count todo rounds st = .returns (.inr st') ∧
          ReadUpTo secrets r (taken io r.reads (readEnd todo r) k') st' ∧
          (count ≤ decryptReady (taken io r.reads (readEnd todo r) k') * blockSize ∨
            taken io r.reads (readEnd todo r) k' = readEnd todo r ∧
              io (r.reads + k') ≠ .fails)) := by
  -- every call but the last takes something, so the end bounds the number of rounds
  induction rounds generalizing k st with
  | zero => omega
  | succ rounds ih =>
      have hle := @taken_le io r.reads (readEnd todo r) k
      have hstored := h.stored_length (hle.trans (Nat.min_le_right _ _))
      rcases le_or_gt count st.stored.length with henough | hmore
      · refine ⟨k, fun j hkj hjk => by omega, Or.inr ⟨st, ?_, h, Or.inl (hstored ▸ henough)⟩⟩
        rw [libReadLoop, if_pos henough]
      · by_cases hio : io st.reader.reads = .fails
        · obtain ⟨bytes, r', hloop⟩ := h.fails (hle.trans (Nat.min_le_left _ _)) hio hmore rounds
          exact ⟨k, fun j hkj hjk => by omega,
            Or.inl ⟨bytes, r', hloop, hreads ▸ hio, hstored ▸ hmore⟩⟩
        · rcases hle.eq_or_lt with hall | hlt
          · obtain ⟨st', hst', hloop⟩ := (hall ▸ h).ends hio hmore rounds
            exact ⟨k, fun j hkj hjk => by omega,
              Or.inr ⟨st', hloop, hall.symm ▸ hst', Or.inr ⟨hall, hreads ▸ hio⟩⟩⟩
          · obtain ⟨st', hst', hreads', hloop⟩ := h.next hlt hcap hio hmore
            rw [hreads] at hst' hreads' hio
            have hlonger := taken_lt hio hlt
            obtain ⟨k', hbefore, hend⟩ := @ih st' (k + 1) hst' hreads' (by omega)
            rw [hloop rounds]
            refine ⟨k', fun j hkj hjk => ?_, hend⟩
            rcases hkj.eq_or_lt with rfl | hgt
            · exact ⟨hio, hlt, hstored ▸ hmore⟩
            · exact hbefore j hgt hjk

/-- What `lib__read` comes to: a call fails, or the loop ends and leaves the last block
to be checked. -/
theorem libRead_outcome (htodo : bytesTodo count = todo)
    (hcap : decryptReady (readEnd todo r) * blockSize ≤ capacity) :
    ∃ k, (∀ j < k, Passes io r.reads (readEnd todo r) count j) ∧
      ((∃ bytes r', libRead secrets io capacity count r = .returns (-1, bytes, r') ∧
          io (r.reads + k) = .fails ∧
          decryptReady (taken io r.reads (readEnd todo r) k) * blockSize < count) ∨
        ∃ st, libRead secrets io capacity count r = libReadFinal secrets capacity count st ∧
          ReadUpTo secrets r (taken io r.reads (readEnd todo r) k) st ∧
          (count ≤ decryptReady (taken io r.reads (readEnd todo r) k) * blockSize ∨
            taken io r.reads (readEnd todo r) k = readEnd todo r ∧
              io (r.reads + k) ≠ .fails)) := by
  have hend : readEnd todo r ≤ r.rest.length := Nat.min_le_right _ _
  obtain ⟨k, hbefore, hloop⟩ := @libReadLoop_outcome secrets io todo r capacity count
    (r.rest.length + 1) _ hcap 0 (readUpTo_start secrets r) rfl (by simp only [taken]; omega)
  refine ⟨k, fun j hj => hbefore j (Nat.zero_le j) hj, ?_⟩
  rw [libRead, htodo]
  rcases hloop with ⟨bytes, r', hloop, hfails⟩ | ⟨st, hloop, hst⟩
  · exact Or.inl ⟨bytes, r', by rw [hloop]; rfl, hfails⟩
  · exact Or.inr ⟨st, by rw [hloop]; rfl, hst⟩

theorem libRead_ends (hio : ∀ i, io i ≠ .fails) (htodo : bytesTodo count = todo)
    (hlen : todo ≤ r.rest.length) (hcap : decryptReady todo * blockSize ≤ capacity) :
    ∃ k st, libRead secrets io capacity count r = libReadFinal secrets capacity count st ∧
      ReadUpTo secrets r (taken io r.reads todo k) st ∧
      (taken io r.reads todo k = todo ∨
        count ≤ decryptReady (taken io r.reads todo k) * blockSize) ∧
      ∀ j < k, decryptReady (taken io r.reads todo j) * blockSize < count := by
  have hend : readEnd todo r = todo := Nat.min_eq_left hlen
  obtain ⟨k, hbefore, hread⟩ := @libRead_outcome secrets io todo r capacity count htodo
    (by rwa [hend])
  rw [hend] at hbefore hread
  rcases hread with ⟨_, _, -, hfails, -⟩ | ⟨st, hread, hst, hstop⟩
  · exact absurd hfails (hio _)
  · exact ⟨k, st, hread, hst, hstop.symm.imp_left And.left, fun j hj => (hbefore j hj).wanted⟩

theorem libReadFinal_message {message tail : List Byte}
    (hrest : r.rest = encryptMessage secrets.cipher secrets.iv message ++ tail)
    (h : ReadUpTo secrets r ((message.length / blockSize + 1) * blockSize) st)
    (hcap : message.length ≤ capacity) :
    libReadFinal secrets capacity count st =
      .returns (toInt32 count, message, { r with rest := tail, reads := st.reader.reads }) := by
  have hlength := @encryptMessage_length secrets.cipher secrets.iv message secrets.iv_length
  have htake : r.rest.take ((message.length / blockSize + 1) * blockSize) =
      encryptMessage secrets.cipher secrets.iv message := by
    rw [hrest]
    exact List.take_left' hlength
  have hdrop : r.rest.drop ((message.length / blockSize + 1) * blockSize) = tail := by
    rw [hrest]
    exact List.drop_left' hlength
  have hstored : st.stored = wholeBlocks message := by
    rw [h.stored, htake, released_encryptMessage secrets.iv_length]
  have hfinal := decryptFinal_encryptMessage secrets.iv_length (htake ▸ h.fed)
  have hsum := congrArg List.length (wholeBlocks_append_lastBlock message)
  rw [List.length_append] at hsum
  have hread : st.bytesRead ≠ 0 := by
    rw [h.bytesRead]
    simp only [blockSize]
    omega
  rw [libReadFinal, if_neg hread, hfinal, hstored]
  simp only [hsum, not_lt.mpr hcap, if_false, wholeBlocks_append_lastBlock]
  rw [h.reader, hdrop]

end Reads

section RoundTrip

variable {secrets : Secrets} {r : Reader} {n count : Nat}

/-- Enough is decrypted before the end of a message only if its length is a
multiple of the block size and part of its last block was read. -/
theorem dvd_of_enough (hcount : 0 < count) (hn : n ≤ (count / blockSize + 1) * blockSize)
    (henough : count ≤ decryptReady n * blockSize) : blockSize ∣ count ∧ count < n := by
  simp only [decryptReady, blockSize] at *
  omega

theorem taken_whole_dvd {first todo : Nat} (htodo : blockSize ∣ todo) (k : Nat) :
    blockSize ∣ taken (fun _ => .whole) first todo k := by
  induction k with
  | zero => exact dvd_zero _
  | succ k ih =>
      refine (Nat.dvd_add_right ih).mpr ?_
      simp only [ReadCall.limit]
      rcases le_total ioSize (todo - taken (fun _ => .whole) first todo k) with hle | hle
      · rw [Nat.min_eq_left hle]
        decide
      · rw [Nat.min_eq_right hle]
        exact Nat.dvd_sub htodo ih

theorem libRead_whole {message tail : List Byte} (hpos : 0 < message.length)
    (hlt : message.length < 2 ^ 31 - 16)
    (hrest : r.rest = encryptMessage secrets.cipher secrets.iv message ++ tail) :
    ∃ reads, libRead secrets (fun _ => .whole) message.length message.length r =
      .returns (message.length, message, { r with rest := tail, reads := reads }) := by
  have hlen : (message.length / blockSize + 1) * blockSize ≤ r.rest.length := by
    rw [hrest, List.length_append, encryptMessage_length secrets.iv_length]
    exact Nat.le_add_right _ _
  have hcap : decryptReady ((message.length / blockSize + 1) * blockSize) * blockSize ≤
      message.length := by
    simp only [decryptReady, blockSize]
    omega
  obtain ⟨k, st, hread, hst, hstop, -⟩ := @libRead_ends secrets (fun _ => .whole) _ r _ _
    (fun _ => by decide) (bytesTodo_eq hlt) hlen hcap
  have hle := @taken_le (fun _ => .whole) r.reads ((message.length / blockSize + 1) * blockSize) k
  have hall : taken (fun _ => .whole) r.reads ((message.length / blockSize + 1) * blockSize) k =
      (message.length / blockSize + 1) * blockSize := by
    rcases hstop with hall | henough
    · exact hall
    · obtain ⟨hdvd, hgt⟩ := dvd_of_enough hpos hle henough
      have hblocks := @taken_whole_dvd r.reads _ (Nat.dvd_mul_left blockSize
        (message.length / blockSize + 1)) k
      simp only [blockSize] at *
      omega
  refine ⟨st.reader.reads, ?_⟩
  rw [hread, libReadFinal_message hrest (hall ▸ hst) le_rfl, toInt32_of_lt (by omega)]

theorem nextSize_neg_iff {todo : Int} : nextSize todo 0 < 0 ↔ todo < 0 := by
  simp only [nextSize, ioSize]
  split_ifs <;> omega

theorem sysRead_eof {io : Nat → ReadCall} {size : Nat} (hrest : r.rest = []) :
    sysRead io size r =
      (if io r.reads = .fails then none else some [], { r with reads := r.reads + 1 }) := by
  simp only [sysRead, hrest, List.take_nil, List.drop_nil]
  split_ifs
  · rw [← hrest]
  · rw [← hrest]

theorem libRead_eof (io : Nat → ReadCall) (capacity count : Nat) (hrest : r.rest = []) :
    ∃ ret reads, libRead secrets io capacity count r =
        .returns (ret, [], { r with reads := reads }) ∧ ret ≤ 0 ∧
      (0 ≤ bytesTodo count → io r.reads ≠ .fails → ret = 0) := by
  rw [libRead, libReadLoop]
  simp only [Reading.start, List.length_nil, Nat.le_zero_eq]
  rcases Nat.eq_zero_or_pos count with rfl | hpos
  · rw [if_pos rfl]
    exact ⟨0, r.reads, rfl, le_rfl, fun _ _ => rfl⟩
  · rw [if_neg hpos.ne']
    rcases lt_or_ge (nextSize (bytesTodo count) 0) 0 with hneg | hsize
    · simp only [hneg, if_true]
      refine ⟨-1, _, rfl, by decide, fun h _ => ?_⟩
      exact absurd (nextSize_neg_iff.mp hneg) (not_lt.mpr h)
    · simp only [not_lt.mpr hsize, if_false, sysRead_eof hrest]
      split_ifs with hfails
      · exact ⟨-1, _, rfl, by decide, fun _ h => absurd hfails h⟩
      · exact ⟨0, _, rfl, le_rfl, fun _ _ => rfl⟩

theorem libRead_overflow (io : Nat → ReadCall) (capacity : Nat) (hcount : 0 < count)
    (hneg : bytesTodo count < 0) (r : Reader) :
    libRead secrets io capacity count r = .returns (-1, [], { r with reads := r.reads + 1 }) := by
  have hsize := nextSize_neg_iff.mpr hneg
  rw [libRead, libReadLoop]
  simp only [Reading.start, List.length_nil, Nat.le_zero_eq, hcount.ne', if_false, hsize, if_true]
  rfl

/-- `lib__write` for a sequence of buffers: the results, and how many bytes each
call appends. -/
def libWrites (secrets : Secrets) (io : Nat → WriteCall) :
    List (List Byte) → Writer → Outcome (List (Int × Nat) × Writer)
  | [], w => .returns ([], w)
  | buf :: rest, w =>
      (libWrite secrets io buf w).andThen fun (ret, w') =>
        (libWrites secrets io rest w').andThen fun (more, w'') =>
          .returns ((ret, w'.file.length - w.file.length) :: more, w'')

/-- `lib__read` for a sequence of counts: the results, the bytes delivered, and
how many bytes of the file each call consumes. -/
def libReads (secrets : Secrets) (io : Nat → ReadCall) :
    List Nat → Reader → Outcome (List (Int × List Byte × Nat) × Reader)
  | [], r => .returns ([], r)
  | count :: rest, r =>
      (libRead secrets io count count r).andThen fun (ret, bytes, r') =>
        (libReads secrets io rest r').andThen fun (more, r'') =>
          .returns ((ret, bytes, r.rest.length - r'.rest.length) :: more, r'')

theorem libReads_overflow {io : Nat → ReadCall} (hcount : 0 < count)
    (hneg : bytesTodo count < 0) (r : Reader) :
    libReads secrets io [count] r =
      .returns ([(-1, [], 0)], { r with reads := r.reads + 1 }) := by
  simp only [libReads, libRead_overflow io count hcount hneg, Outcome.returns_andThen, Nat.sub_self]

/-- The size of an encrypted message of `count` bytes. -/
def messageSize (count : Nat) : Nat := (count / blockSize + 1) * blockSize

theorem libWrites_whole (secrets : Secrets) {bufs : List (List Byte)}
    (hbufs : ∀ buf ∈ bufs, buf.length < 2 ^ 31) (w : Writer) :
    ∃ writes, libWrites secrets (fun _ => .whole) bufs w =
      .returns (bufs.map fun buf => ((buf.length : Int), messageSize buf.length),
        { w with
          file := w.file ++ bufs.flatMap (encryptMessage secrets.cipher secrets.iv)
          writes := writes }) := by
  induction bufs generalizing w with
  | nil => exact ⟨w.writes, by simp [libWrites]⟩
  | cons buf rest ih =>
      obtain ⟨writes, hwrite⟩ := libWrite_whole secrets buf w
      obtain ⟨writes', hrest⟩ := ih (fun b hb => hbufs b (List.mem_cons_of_mem _ hb))
        { w with
          file := w.file ++ encryptMessage secrets.cipher secrets.iv buf, writes := writes }
      have hlt := hbufs buf List.mem_cons_self
      refine ⟨writes', ?_⟩
      have hint : toInt32 buf.length = buf.length := toInt32_of_lt hlt
      simp only [libWrites, hwrite, Outcome.returns_andThen, hrest, hint]
      simp [encryptMessage_length secrets.iv_length, messageSize]

theorem libReads_whole (secrets : Secrets) {bufs : List (List Byte)}
    (hbufs : ∀ buf ∈ bufs, 0 < buf.length ∧ buf.length < 2 ^ 31 - 16) {r : Reader}
    (hrest : r.rest = bufs.flatMap (encryptMessage secrets.cipher secrets.iv)) :
    ∃ reads, libReads secrets (fun _ => .whole) (bufs.map List.length) r =
      .returns (bufs.map fun buf => ((buf.length : Int), buf, messageSize buf.length),
        { r with rest := [], reads := reads }) := by
  induction bufs generalizing r with
  | nil =>
      refine ⟨r.reads, ?_⟩
      rw [List.flatMap_nil] at hrest
      rw [← hrest]
      rfl
  | cons buf rest ih =>
      obtain ⟨hpos, hlt⟩ := hbufs buf List.mem_cons_self
      rw [List.flatMap_cons] at hrest
      obtain ⟨reads, hread⟩ := libRead_whole hpos hlt hrest
      obtain ⟨reads', hmore⟩ := @ih (fun b hb => hbufs b (List.mem_cons_of_mem _ hb))
        { r with rest := rest.flatMap (encryptMessage secrets.cipher secrets.iv), reads := reads }
        rfl
      refine ⟨reads', ?_⟩
      simp only [List.map_cons, libReads, hread, Outcome.returns_andThen, hmore]
      simp [hrest, encryptMessage_length secrets.iv_length, messageSize]

/-- Buffers of less than 2 GiB are read back as they were written, each call
consumes what the call that wrote its buffer appended, and behind the last one
is the end of the file. -/
theorem encrypted_roundTrip (secrets : Secrets) (bufs : List (List Byte))
    (hbufs : ∀ buf ∈ bufs, 0 < buf.length ∧ buf.length < 2 ^ 31 - 16) :
    ∃ w r,
      libWrites secrets (fun _ => .whole) bufs Writer.start =
        .returns (bufs.map fun buf => ((buf.length : Int), messageSize buf.length), w) ∧
      libReads secrets (fun _ => .whole) (bufs.map List.length) ⟨w.file, 0, [], 0⟩ =
        .returns (bufs.map fun buf => ((buf.length : Int), buf, messageSize buf.length), r) ∧
      ∀ count < 2 ^ 31 - 16, ∃ r',
        libRead secrets (fun _ => .whole) count count r = .returns (0, [], r') := by
  obtain ⟨writes, hwrites⟩ := libWrites_whole secrets
    (fun buf hbuf => (hbufs buf hbuf).2.trans_le (by decide)) Writer.start
  obtain ⟨reads, hreads⟩ := @libReads_whole secrets bufs hbufs
    ⟨bufs.flatMap (encryptMessage secrets.cipher secrets.iv), 0, [], 0⟩ rfl
  refine ⟨_, _, hwrites, hreads, ?_⟩
  intro count hcount
  obtain ⟨ret, reads', heof, -, hzero⟩ := @libRead_eof secrets ⟨[], 0, [], reads⟩
    (fun _ => .whole) count count rfl
  have htodo : 0 ≤ bytesTodo count := by
    rw [bytesTodo_eq hcount]
    exact Int.natCast_nonneg _
  rw [hzero htodo (by decide)] at heof
  exact ⟨_, heof⟩

end RoundTrip

/-- A cipher that leaves the blocks as they are. -/
def plainSecrets : Secrets where
  cipher :=
    { encrypt := id
      decrypt := id
      encrypt_length := id
      decrypt_length := id
      decrypt_encrypt := fun _ => rfl }
  iv := List.replicate 16 0
  iv_length := List.length_replicate

theorem encrypted_roundTrip_twoBuffers :
    ∃ w r,
      libWrites plainSecrets (fun _ => .whole) [[1, 2, 3], List.replicate 16 4] Writer.start =
        .returns ([(3, 16), (16, 32)], w) ∧
      libReads plainSecrets (fun _ => .whole) [3, 16] ⟨w.file, 0, [], 0⟩ =
        .returns ([(3, [1, 2, 3], 16), (16, List.replicate 16 4, 32)], r) ∧
      ∀ count < 2 ^ 31 - 16, ∃ r',
        libRead plainSecrets (fun _ => .whole) count count r = .returns (0, [], r') :=
  encrypted_roundTrip plainSecrets [[1, 2, 3], List.replicate 16 4] (by decide)

theorem not_readBack_of_length {buf : List Byte} (hlength : buf.length = 2147483632) :
    ∃ w r,
      libWrites plainSecrets (fun _ => .whole) [buf] Writer.start =
        .returns ([(2147483632, 2147483648)], w) ∧
      libReads plainSecrets (fun _ => .whole) [2147483632] ⟨w.file, 0, [], 0⟩ =
        .returns ([(-1, [], 0)], r) := by
  have hlt : ∀ b ∈ [buf], b.length < 2 ^ 31 := by
    intro b hb
    rw [List.mem_singleton.mp hb, hlength]
    decide
  obtain ⟨writes, hwrites⟩ := libWrites_whole plainSecrets hlt Writer.start
  have hsize : messageSize 2147483632 = 2147483648 := by decide
  simp only [List.map_cons, List.map_nil, hlength, hsize] at hwrites
  exact ⟨_, _, hwrites, libReads_overflow (by decide) (by decide) _⟩

theorem longBuffer_not_readBack :
    ∃ w r,
      libWrites plainSecrets (fun _ => .whole) [List.replicate 2147483632 0] Writer.start =
        .returns ([(2147483632, 2147483648)], w) ∧
      libReads plainSecrets (fun _ => .whole) [2147483632] ⟨w.file, 0, [], 0⟩ =
        .returns ([(-1, [], 0)], r) :=
  not_readBack_of_length List.length_replicate

end Memcr.EncryptedDump
