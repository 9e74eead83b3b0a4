import Memcr.EncryptedDump

namespace Memcr.DumpWriters

open Memcr.BlockStreams
open Memcr.ByteWords
open Memcr.CallOutcome
open Memcr.CipherBlocks
open Memcr.DumpFormat (Writer)
open Memcr.DumpRestore (Writer.start)
open Memcr.EncryptedDump

/-- What a call of `write` for `size` bytes returns. -/
def written (call : WriteCall) (size : Nat) : Option Nat :=
  match call with
  | .fails => none
  | .whole => some size
  | .upTo n => some (min n size)

/-- One call of `write`, which may write less than it is asked to. -/
def write (io : Nat → WriteCall) (bytes : List Byte) (w : Writer) : Option Nat × Writer :=
  match written (io w.writes) bytes.length with
  | none => (none, { w with writes := w.writes + 1 })
  | some n => (some n, { w with file := w.file ++ bytes.take n, writes := w.writes + 1 })

/-- The loop of `__write`, without a peer to check. -/
def writeLoop (io : Nat → WriteCall) (buf : List Byte) :
    Nat → Nat → Writer → Outcome (Int × Writer)
  | 0, _, _ => .hangs
  | rounds + 1, off, w =>
      match write io (buf.drop off) w with
      | (none, w) => .returns (-1, w)
      | (some n, w) =>
          if toInt32 n < 0 then .returns (toInt32 n, w)
          else if (toInt32 n).toNat < buf.length - off then
            -- `off` is an `int`; once it is negative the next call is for bytes in front of `buf`
            if off + (toInt32 n).toNat < 2 ^ 31 then
              writeLoop io buf rounds (off + (toInt32 n).toNat) w
            else .overruns
          else .returns (toInt32 buf.length, w)

/-- `_write` -/
def builtinWrite (io : Nat → WriteCall) (rounds : Nat) (buf : List Byte) (w : Writer) :
    Outcome (Int × Writer) :=
  if buf = [] then .aborts else writeLoop io buf rounds 0 w

/-- `lib__write` with the cipher disabled. -/
def libWritePlain (io : Nat → WriteCall) (buf : List Byte) (w : Writer) :
    Outcome (Int × Writer) :=
  match write io buf w with
  | (none, w) => .returns (-1, w)
  | (some n, w) => .returns (toInt32 n, w)

/-- The three `dump_write` the program can be configured with. -/
inductive Library where
  | builtin
  | cipherOff
  | cipherOn (secrets : Secrets)

/-- `dump_write`; the built-in loop has `rounds` rounds to end in. -/
def dumpWrite (library : Library) (io : Nat → WriteCall) (rounds : Nat) (buf : List Byte)
    (w : Writer) : Outcome (Int × Writer) :=
  match library with
  | .builtin => builtinWrite io rounds buf w
  | .cipherOff => libWritePlain io buf w
  | .cipherOn secrets => libWrite secrets io buf w

/-- What a buffer is in the file. -/
def message (library : Library) (buf : List Byte) : List Byte :=
  match library with
  | .builtin => buf
  | .cipherOff => buf
  | .cipherOn secrets => encryptMessage secrets.cipher secrets.iv buf

section Builtin

variable {io : Nat → WriteCall} {buf bytes : List Byte} {w w' : Writer} {rounds off n : Nat}

theorem written_le {call : WriteCall} {size : Nat} (h : written call size = some n) :
    n ≤ size := by
  rcases call with _ | _ | k
  · simp [written] at h
  · exact (Option.some.inj h).ge
  · exact Option.some.inj h ▸ Nat.min_le_right k size

theorem write_eq_some (h : write io bytes w = (some n, w')) :
    n ≤ bytes.length ∧
      w' = { w with file := w.file ++ bytes.take n, writes := w.writes + 1 } := by
  rcases hwritten : written (io w.writes) bytes.length with _ | k
  · simp [write, hwritten] at h
  · simp only [write, hwritten, Prod.mk.injEq, Option.some.injEq] at h
    obtain ⟨rfl, rfl⟩ := h
    exact ⟨written_le hwritten, rfl⟩

theorem write_eq_none (h : write io bytes w = (none, w')) :
    w' = { w with writes := w.writes + 1 } := by
  rcases hwritten : written (io w.writes) bytes.length with _ | k
  · simpa [write, hwritten] using h.symm
  · simp [write, hwritten] at h

theorem writeLoop_lt {ret : Int} (h : writeLoop io buf rounds off w = .returns (ret, w')) :
    ret < 2 ^ 31 := by
  induction rounds generalizing off w with
  | zero => simp [writeLoop] at h
  | succ rounds ih =>
      rw [writeLoop] at h
      rcases hwrite : write io (buf.drop off) w with ⟨_ | n, next⟩
      · simp only [hwrite, Outcome.returns.injEq, Prod.mk.injEq] at h
        omega
      · simp only [hwrite] at h
        split_ifs at h
        · simp only [Outcome.returns.injEq, Prod.mk.injEq] at h
          omega
        · exact ih h
        · simp only [Outcome.returns.injEq, Prod.mk.injEq] at h
          have := toInt32_lt buf.length
          omega

/-- The loop ends with the whole buffer in the file, or with a failed call and what was
written before it. -/
theorem writeLoop_returns (file : List Byte) (hlen : buf.length < 2 ^ 31)
    (hoff : off ≤ buf.length) (hfile : w.file = file ++ buf.take off) {ret : Int}
    (h : writeLoop io buf rounds off w = .returns (ret, w')) :
    ∃ n writes, w' = { w with file := file ++ buf.take n, writes := writes } ∧
      (ret = buf.length ∧ buf.length ≤ n ∨ ret = -1) := by
  induction rounds generalizing off w with
  | zero => simp [writeLoop] at h
  | succ rounds ih =>
      rw [writeLoop] at h
      rcases hwrite : write io (buf.drop off) w with ⟨_ | n, next⟩
      · have hnext := write_eq_none hwrite
        simp only [hwrite, Outcome.returns.injEq, Prod.mk.injEq] at h
        refine ⟨off, w.writes + 1, ?_, Or.inr h.1.symm⟩
        rw [← h.2, hnext, hfile]
      · obtain ⟨hn, hnext⟩ := write_eq_some hwrite
        rw [List.length_drop] at hn
        have hint : toInt32 n = n := toInt32_of_lt (by omega)
        rw [hfile, List.append_assoc, ← List.take_add] at hnext
        simp only [hwrite, hint, Int.toNat_natCast, if_neg (Int.natCast_nonneg n).not_gt] at h
        split_ifs at h with hmore hfits
        · obtain ⟨m, writes, hw', hret⟩ := ih (by omega) (by rw [hnext]) h
          exact ⟨m, writes, by rw [hw', hnext], hret⟩
        · simp only [Outcome.returns.injEq, Prod.mk.injEq, toInt32_of_lt hlen] at h
          refine ⟨off + n, w.writes + 1, ?_, Or.inl ⟨h.1.symm, by omega⟩⟩
          rw [← h.2, hnext]

/-- Where `__write` returns, it does what a write does that either succeeds or fails
after some of the bytes. -/
theorem builtinWrite_dumpWrite (hlen : buf.length < 2 ^ 31) {ret : Int}
    (h : builtinWrite io rounds buf w = .returns (ret, w')) :
    ∃ failure, DumpFormat.dumpWrite (fun _ => failure) buf w =
      .returns (decide (ret = buf.length), { w' with writes := w.writes + 1 }) := by
  simp only [builtinWrite] at h
  split_ifs at h with hempty
  obtain ⟨n, writes, rfl, ⟨rfl, hn⟩ | rfl⟩ :=
    writeLoop_returns w.file hlen (Nat.zero_le _) (by simp) h
  · refine ⟨none, ?_⟩
    simp [DumpFormat.dumpWrite, hempty, List.take_of_length_le hn]
  · refine ⟨some n, ?_⟩
    have hne : (-1 : Int) ≠ buf.length := by omega
    simp [DumpFormat.dumpWrite, hempty, hne]

end Builtin

section Pieces

variable {secrets : Secrets} {io : Nat → WriteCall} {buf : List Byte} {w : Writer}

theorem sysWrite_eq (io : Nat → WriteCall) (bytes : List Byte) (w : Writer) :
    sysWrite io bytes w = ((write io bytes w).1.isSome, (write io bytes w).2) := by
  rcases hcall : io w.writes with _ | _ | n
  · simp [sysWrite, write, written, hcall]
  · simp [sysWrite, write, written, hcall]
  · simp [sysWrite, write, written, hcall, List.take_eq_take_min]

/-- One call of `write` for each piece, up to the first that fails; how much a call has
written is not looked at. -/
def writePieces (io : Nat → WriteCall) : List (List Byte) → Writer → Bool × Writer
  | [], w => (true, w)
  | piece :: rest, w =>
      match write io piece w with
      | (none, w) => (false, w)
      | (some _, w) => writePieces io rest w

/-- Every call, from the number `first` on, writes its whole piece. -/
def AllWritten (io : Nat → WriteCall) : Nat → List Nat → Prop
  | _, [] => True
  | first, size :: sizes => written (io first) size = some size ∧ AllWritten io (first + 1) sizes

/-- Some call, from the number `first` on, fails. -/
def OneFails (io : Nat → WriteCall) : Nat → List Nat → Prop
  | _, [] => False
  | first, _ :: sizes => io first = .fails ∨ OneFails io (first + 1) sizes

theorem written_eq_none {call : WriteCall} {size : Nat} :
    written call size = none ↔ call = .fails := by
  rcases call with _ | _ | n
  · simp [written]
  · simp [written]
  · simp [written]

theorem writePieces_fst (io : Nat → WriteCall) (pieces : List (List Byte)) (w : Writer) :
    (writePieces io pieces w).1 = false ↔ OneFails io w.writes (pieces.map List.length) := by
  induction pieces generalizing w with
  | nil => simp [writePieces, OneFails]
  | cons piece rest ih =>
      simp only [writePieces, List.map_cons, OneFails, write]
      rcases hwritten : written (io w.writes) piece.length with _ | n
      · simp [written_eq_none.mp hwritten]
      · have hcall : io w.writes ≠ .fails := fun h => by
          rw [written_eq_none.mpr h] at hwritten
          cases hwritten
        simpa only [hcall, false_or] using ih _

/-- The file never gets longer than the pieces are, and just as long if every call writes
its piece. -/
theorem writePieces_length {pieces : List (List Byte)}
    (hok : (writePieces io pieces w).1 = true) :
    (writePieces io pieces w).2.file.length ≤ w.file.length + pieces.flatten.length ∧
      ((writePieces io pieces w).2.file.length = w.file.length + pieces.flatten.length →
        AllWritten io w.writes (pieces.map List.length)) := by
  induction pieces generalizing w with
  | nil => simp [writePieces, AllWritten]
  | cons piece rest ih =>
      rcases hwritten : written (io w.writes) piece.length with _ | n
      · simp [writePieces, write, hwritten] at hok
      · have hn := written_le hwritten
        simp only [writePieces, write, hwritten] at hok ⊢
        obtain ⟨hle, hall⟩ := ih hok
        simp only [List.length_append, List.length_take_of_le hn] at hle hall
        simp only [List.flatten_cons, List.length_append, List.map_cons, AllWritten]
        refine ⟨by omega, fun hlength => ?_⟩
        obtain rfl : n = piece.length := by omega
        exact ⟨hwritten, hall (by omega)⟩

theorem writePieces_whole {pieces : List (List Byte)}
    (hall : AllWritten io w.writes (pieces.map List.length)) :
    (writePieces io pieces w).1 = true ∧
      (writePieces io pieces w).2.file = w.file ++ pieces.flatten := by
  induction pieces generalizing w with
  | nil => simp [writePieces]
  | cons piece rest ih =>
      obtain ⟨hwritten, hrest⟩ := hall
      simp only [writePieces, write, hwritten, List.take_length]
      obtain ⟨hok, hfile⟩ := ih (w := { w with
        file := w.file ++ piece, writes := w.writes + 1 }) hrest
      exact ⟨hok, by simp [hfile]⟩

theorem allWritten_whole (first : Nat) (sizes : List Nat) :
    AllWritten (fun _ => .whole) first sizes := by
  induction sizes generalizing first with
  | nil => trivial
  | cons size sizes ih => exact ⟨rfl, ih (first + 1)⟩

/-- What the loop of `lib__write` writes from `off` on, and the context behind it. -/
def chunkPieces (secrets : Secrets) (buf : List Byte) :
    Nat → Nat → Context → List (List Byte) × Context
  | 0, _, ctx => ([], ctx)
  | rounds + 1, off, ctx =>
      if buf.length ≤ off then ([], ctx)
      else
        let size := if buf.length < off + ioSize then buf.length % ioSize else ioSize
        let encrypted := encryptUpdate secrets.cipher ctx ((buf.drop off).take size)
        let rest := chunkPieces secrets buf rounds (off + ioSize) encrypted.2
        (encrypted.1 :: rest.1, rest.2)

/-- The buffers that `lib__write` hands to `write` for a message. -/
def pieces (secrets : Secrets) (buf : List Byte) : List (List Byte) :=
  let chunks := chunkPieces secrets buf (buf.length + 1) 0 (init secrets.iv)
  chunks.1 ++ [encryptFinal secrets.cipher chunks.2]

theorem writePieces_append (io : Nat → WriteCall) (front back : List (List Byte)) (w : Writer) :
    writePieces io (front ++ back) w =
      match writePieces io front w with
      | (false, w) => (false, w)
      | (true, w) => writePieces io back w := by
  induction front generalizing w with
  | nil => rfl
  | cons piece rest ih =>
      simp only [List.cons_append, writePieces]
      rcases write io piece w with ⟨_ | n, next⟩
      · rfl
      · exact ih next

theorem libWriteLoop_eq {rounds off : Nat} (hrounds : buf.length - off < rounds) (ctx : Context)
    (w : Writer) :
    libWriteLoop secrets io buf rounds off ctx w =
      match writePieces io (chunkPieces secrets buf rounds off ctx).1 w with
      | (false, w) => .returns (none, w)
      | (true, w) => .returns (some (chunkPieces secrets buf rounds off ctx).2, w) := by
  induction rounds generalizing off ctx w with
  | zero => omega
  | succ rounds ih =>
      rw [libWriteLoop, chunkPieces]
      split_ifs with hend hlast
      · rfl
      all_goals
        simp only [sysWrite_eq, writePieces]
        rcases write io _ w with ⟨_ | n, next⟩
        · rfl
        · refine ih ?_ _ next
          simp only [ioSize]
          omega

theorem libWrite_eq (secrets : Secrets) (io : Nat → WriteCall) (buf : List Byte) (w : Writer) :
    libWrite secrets io buf w =
      match writePieces io (pieces secrets buf) w with
      | (false, w) => .returns (-1, w)
      | (true, w) => .returns (toInt32 buf.length, w) := by
  rw [libWrite, libWriteLoop_eq (by omega), pieces, writePieces_append]
  rcases writePieces io _ w with ⟨_ | _, next⟩
  · rfl
  · simp only [Outcome.returns_andThen, sysWrite_eq, writePieces]
    rcases write io _ next with ⟨_ | n, last⟩
    · rfl
    · rfl

theorem pieces_flatten (secrets : Secrets) (buf : List Byte) :
    (pieces secrets buf).flatten = encryptMessage secrets.cipher secrets.iv buf := by
  obtain ⟨writes, hwrite⟩ := libWrite_whole secrets buf Writer.start
  obtain ⟨hok, hfile⟩ := writePieces_whole (w := Writer.start)
    (allWritten_whole Writer.start.writes ((pieces secrets buf).map List.length))
  rw [libWrite_eq] at hwrite
  rcases hpieces : writePieces (fun _ => .whole) (pieces secrets buf) Writer.start with ⟨ok, next⟩
  rw [hpieces] at hok hfile hwrite
  obtain rfl : ok = true := hok
  simp only [Outcome.returns.injEq, Prod.mk.injEq, true_and] at hwrite
  rw [hwrite] at hfile
  exact (List.append_cancel_left hfile).symm

def chunkSizes (count : Nat) : List Nat :=
  List.replicate (count / ioSize) ioSize ++
    if count % ioSize = 0 then [] else [count % ioSize / blockSize * blockSize]

/-- How much each call of `lib__write` for `count` bytes is to write. -/
def writeSizes (count : Nat) : List Nat := chunkSizes count ++ [blockSize]

theorem chunkSizes_of_lt {count : Nat} (hpos : 0 < count) (hlt : count < ioSize) :
    chunkSizes count = [count / blockSize * blockSize] := by
  rw [chunkSizes, Nat.div_eq_of_lt hlt, Nat.mod_eq_of_lt hlt, if_neg hpos.ne']
  rfl

theorem chunkSizes_add (count : Nat) :
    chunkSizes (count + ioSize) = ioSize :: chunkSizes count := by
  have hpos : 0 < ioSize := by decide
  rw [chunkSizes, Nat.add_div_right _ hpos, Nat.add_mod_right]
  rfl

theorem chunkSizes_sum (count : Nat) :
    (chunkSizes count).sum = count / blockSize * blockSize := by
  rw [chunkSizes, List.sum_append_nat, List.sum_replicate_nat]
  split_ifs
  · simp only [List.sum_nil, ioSize, blockSize] at *
    omega
  · simp only [List.sum_cons, List.sum_nil, ioSize, blockSize] at *
    omega

theorem chunkSizes_step {count off out : Nat} (hoff : ioSize ∣ off) (hlt : off < count)
    (hout : min off count / blockSize * blockSize + out =
      min (off + ioSize) count / blockSize * blockSize) :
    out :: chunkSizes (count - (off + ioSize)) = chunkSizes (count - off) := by
  obtain ⟨k, rfl⟩ := hoff
  rcases le_or_gt (ioSize * k + ioSize) count with hfull | hlast
  · have hrest : count - ioSize * k = count - (ioSize * k + ioSize) + ioSize := by omega
    rw [hrest, chunkSizes_add]
    congr 1
    simp only [ioSize, blockSize] at *
    omega
  · have hnone : chunkSizes 0 = [] := rfl
    rw [Nat.sub_eq_zero_of_le hlast.le, hnone, chunkSizes_of_lt (by omega) (by omega)]
    congr 1
    simp only [ioSize, blockSize] at *
    omega

theorem released_length (secrets : Secrets) (fed : List Byte) :
    (released blockSize (encryptBlock secrets.cipher) encryptReady secrets.iv fed).length =
      fed.length / blockSize * blockSize :=
  (encryptBlocks_length (encryptReady_rule.le fed.length) secrets.iv_length).1

theorem chunkPieces_lengths {rounds off : Nat} {ctx : Context}
    (hrounds : buf.length - off < rounds) (hoff : ioSize ∣ off)
    (hfed : Fed blockSize (encryptBlock secrets.cipher) encryptReady secrets.iv
      (buf.take off) ctx) :
    (chunkPieces secrets buf rounds off ctx).1.map List.length = chunkSizes (buf.length - off) := by
  induction rounds generalizing off ctx with
  | zero => omega
  | succ rounds ih =>
      rw [chunkPieces]
      split
      · rename_i hend
        rw [Nat.sub_eq_zero_of_le hend]
        rfl
      · rename_i hmore
        have hchunk := take_append_chunk hoff (not_le.mp hmore)
        obtain ⟨hnext, hout⟩ := hfed.feed encryptReady_rule ((buf.drop off).take
          (if buf.length < off + ioSize then buf.length % ioSize else ioSize))
        rw [hchunk] at hnext hout
        have hlength := congrArg List.length hout
        rw [List.length_append, released_length, released_length, List.length_take,
          List.length_take] at hlength
        have hrest := ih (by simp only [ioSize]; omega)
          ((Nat.dvd_add_right hoff).mpr (dvd_refl _)) hnext
        simp only [List.map_cons, encryptUpdate, hrest]
        exact chunkSizes_step hoff (not_le.mp hmore) hlength

theorem pieces_lengths (secrets : Secrets) (buf : List Byte) :
    (pieces secrets buf).map List.length = writeSizes buf.length := by
  have hchunks : (chunkPieces secrets buf (buf.length + 1) 0 (init secrets.iv)).1.map
      List.length = chunkSizes (buf.length - 0) :=
    chunkPieces_lengths (by omega) (dvd_zero _) (fed_nil encryptReady_rule secrets.iv)
  have htotal := congrArg List.length (pieces_flatten secrets buf)
  rw [encryptMessage_length secrets.iv_length, List.length_flatten, pieces, List.map_append,
    List.sum_append_nat, hchunks, Nat.sub_zero, chunkSizes_sum] at htotal
  rw [pieces, List.map_append, hchunks, Nat.sub_zero, writeSizes]
  congr 1
  simp only [List.map_cons, List.map_nil, List.sum_cons, List.sum_nil, blockSize] at htotal ⊢
  congr 1
  omega

end Pieces

/-- If the whole count is returned, the whole message is in the file behind what was there
before. -/
def Complete (library : Library) (io : Nat → WriteCall) (rounds : Nat) (buf : List Byte)
    (w : Writer) : Prop :=
  ∀ w', dumpWrite library io rounds buf w = .returns (buf.length, w') →
    w'.file = w.file ++ message library buf

section Completeness

variable {io : Nat → WriteCall} {buf : List Byte} {w w' : Writer}

theorem builtin_complete (io : Nat → WriteCall) (rounds : Nat) (buf : List Byte) (w : Writer) :
    Complete .builtin io rounds buf w := by
  intro w' h
  simp only [dumpWrite, builtinWrite] at h
  split_ifs at h
  have hlen := writeLoop_lt h
  obtain ⟨n, writes, rfl, ⟨-, hn⟩ | hret⟩ :=
    writeLoop_returns w.file (by omega) (Nat.zero_le _) (by simp) h
  · simp [message, List.take_of_length_le hn]
  · omega

theorem cipherOff_complete (io : Nat → WriteCall) (rounds : Nat) (buf : List Byte) (w : Writer) :
    Complete .cipherOff io rounds buf w := by
  intro w' h
  simp only [dumpWrite, libWritePlain] at h
  rcases hwrite : write io buf w with ⟨_ | n, next⟩
  · simp only [hwrite, Outcome.returns.injEq, Prod.mk.injEq] at h
    omega
  · obtain ⟨hn, hfile⟩ := write_eq_some hwrite
    simp only [hwrite, Outcome.returns.injEq, Prod.mk.injEq] at h
    have hle := toInt32_le n
    rw [← h.2, hfile]
    simp [message, List.take_of_length_le (by omega : buf.length ≤ n)]

theorem cipherOn_complete_iff (secrets : Secrets) (io : Nat → WriteCall) (rounds : Nat)
    (buf : List Byte) (w : Writer) :
    Complete (.cipherOn secrets) io rounds buf w ↔
      2 ^ 31 ≤ buf.length ∨ OneFails io w.writes (writeSizes buf.length) ∨
        AllWritten io w.writes (writeSizes buf.length) := by
  simp only [Complete, dumpWrite, message, libWrite_eq]
  rw [← pieces_lengths secrets buf, ← pieces_flatten secrets buf]
  rcases hpieces : writePieces io (pieces secrets buf) w with ⟨_ | _, next⟩
  · have hfails := (writePieces_fst io (pieces secrets buf) w).mp (by rw [hpieces])
    simp only [hfails, true_or, or_true, iff_true, Outcome.returns.injEq, Prod.mk.injEq]
    rintro w' ⟨hret, -⟩
    omega
  · have hok : ¬ OneFails io w.writes ((pieces secrets buf).map List.length) := by
      rw [← writePieces_fst, hpieces]
      simp
    simp only [hok, false_or, Outcome.returns.injEq, Prod.mk.injEq]
    constructor
    · intro hcomplete
      refine (le_or_gt (2 ^ 31) buf.length).imp_right fun hlt => ?_
      have hfile := hcomplete next ⟨toInt32_of_lt hlt, rfl⟩
      apply (writePieces_length (by rw [hpieces])).2
      rw [hpieces, hfile, List.length_append]
    · rintro (hlong | hall) w' ⟨hret, rfl⟩
      · have := toInt32_lt buf.length
        omega
      · have hfile := (writePieces_whole hall).2
        rwa [hpieces] at hfile

end Completeness

/-- A count that is returned is a complete write, except for an encrypted message with a
short write among its calls and no failed one. -/
theorem dumpWrite_complete_iff (library : Library) (io : Nat → WriteCall) (rounds : Nat)
    (buf : List Byte) (w : Writer) :
    Complete library io rounds buf w ↔
      ∀ secrets, library = .cipherOn secrets →
        2 ^ 31 ≤ buf.length ∨ OneFails io w.writes (writeSizes buf.length) ∨
          AllWritten io w.writes (writeSizes buf.length) := by
  rcases library with _ | _ | secrets
  · simp [builtin_complete]
  · simp [cipherOff_complete]
  · simpa using cipherOn_complete_iff secrets io rounds buf w

def shortFirst (i : Nat) : WriteCall := if i = 0 then .upTo 8 else .whole

theorem shortFirst_incomplete :
    ∃ w', dumpWrite (.cipherOn plainSecrets) shortFirst 0 (List.replicate 16 1) Writer.start =
        .returns (16, w') ∧ w'.file.length = 24 ∧
      (message (.cipherOn plainSecrets) (List.replicate 16 1)).length = 32 := by
  refine ⟨_, rfl, by decide, by decide⟩

end Memcr.DumpWriters
