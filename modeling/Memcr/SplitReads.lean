import Memcr.EncryptedDump

namespace Memcr.SplitReads

open Memcr.BlockStreams
open Memcr.ByteWords
open Memcr.CallOutcome
open Memcr.CipherBlocks
open Memcr.DumpFormat
open Memcr.DumpReaders
open Memcr.DumpRestore
open Memcr.EncryptedDump

/-- What `lib__write` appends for a buffer. -/
def writtenMessage (secrets : Secrets) (buf : List Byte) : List Byte :=
  match libWrite secrets (fun _ => .whole) buf Writer.start with
  | .returns (_, w) => w.file
  | _ => []

/-- A reader with the message of a buffer in front of it. -/
def atMessage (secrets : Secrets) (buf tail : List Byte) (r : Reader) : Reader :=
  { r with rest := writtenMessage secrets buf ++ tail }

/-- The result of a call, the bytes it delivers, and the file behind it. -/
def observed (outcome : Outcome (Int × List Byte × Reader)) :
    Outcome (Int × List Byte × List Byte) :=
  outcome.andThen fun (ret, bytes, r) => .returns (ret, bytes, r.rest)

/-- The `i`-th call of `read` returns at most `limits i + 1` bytes. -/
def splitBy (limits : Nat → Nat) (i : Nat) : ReadCall := .upTo (limits i)

/-- Some call ends strictly inside the last block of a message of `count` bytes. -/
def EndsInLastBlock (io : Nat → ReadCall) (first count : Nat) : Prop :=
  ∃ k, count < taken io first (messageSize count) k ∧
    taken io first (messageSize count) k < messageSize count

theorem writtenMessage_eq (secrets : Secrets) (buf : List Byte) :
    writtenMessage secrets buf = encryptMessage secrets.cipher secrets.iv buf := by
  obtain ⟨writes, hwrite⟩ := libWrite_whole secrets buf Writer.start
  rw [writtenMessage, hwrite]
  rfl

section Split

variable {secrets : Secrets} {io io' : Nat → ReadCall} {todo count capacity n : Nat} {r : Reader}
  {st st' : Reading} {message tail : List Byte}

theorem taken_mono {first j k : Nat} (h : j ≤ k) :
    taken io first todo j ≤ taken io first todo k := by
  induction k, h using Nat.le_induction with
  | base => exact le_rfl
  | succ k _ ih => exact ih.trans (Nat.le_add_right _ _)

theorem observed_final (h : ReadUpTo secrets r n st) (h' : ReadUpTo secrets r n st') :
    observed (libReadFinal secrets capacity count st) =
      observed (libReadFinal secrets capacity count st') := by
  have hctx : st.ctx = st'.ctx := h.fed.unique h'.fed
  have hrest : st.reader.rest = st'.reader.rest := by
    rw [h.reader, h'.reader]
  simp only [libReadFinal, h.bytesRead, h'.bytesRead, h.stored, h'.stored, hctx]
  split
  · simp only [observed, Outcome.returns_andThen, hrest]
  · split
    · simp only [observed, Outcome.returns_andThen, hrest]
    · split
      · rfl
      · simp only [observed, Outcome.returns_andThen, hrest]

/-- If the count is too large for the loop to stop early, the loop reads all
that it wants to read. -/
theorem observed_libRead_of_le (hio : ∀ i, io i ≠ .fails) (hio' : ∀ i, io' i ≠ .fails)
    (htodo : bytesTodo count = todo) (hlen : todo ≤ r.rest.length) (hlt : todo < count)
    (hcap : count ≤ capacity) :
    observed (libRead secrets io capacity count r) =
      observed (libRead secrets io' capacity count r) := by
  -- no more plaintext comes out than ciphertext goes in, which is less than `count`
  have hready : ∀ m ≤ todo, decryptReady m * blockSize ≤ todo :=
    fun m hm => (decryptReady_rule.le m).trans hm
  have hfits := (hready todo le_rfl).trans (hlt.le.trans hcap)
  have hall : ∀ {call : Nat → ReadCall} {k : Nat}, taken call r.reads todo k = todo ∨
      count ≤ decryptReady (taken call r.reads todo k) * blockSize →
      taken call r.reads todo k = todo := by
    rintro call k (hall | henough)
    · exact hall
    · have := hready _ (@taken_le call r.reads todo k)
      omega
  obtain ⟨k, st, hread, hst, hstop, -⟩ := @libRead_ends secrets io _ _ _ _ hio htodo hlen hfits
  obtain ⟨k', st', hread', hst', hstop', -⟩ :=
    @libRead_ends secrets io' _ _ _ _ hio' htodo hlen hfits
  rw [hall hstop] at hst
  rw [hall hstop'] at hst'
  rw [hread, hread']
  exact observed_final hst hst'

theorem bytesTodo_neg (hcount : 2 ^ 31 - 16 ≤ count) (hlt : count < 2 ^ 31) :
    bytesTodo count < 0 := by
  have hround : (roundUp (BitVec.ofNat 64 count) (BitVec.ofNat 64 blockSize)).toNat =
      2 ^ 31 := by
    rw [roundUp_toNat, BitVec.toNat_ofNat]
    simp only [blockSize]
    omega
  rw [bytesTodo, hround]
  decide

theorem bytesTodo_lt (hcount : 2 ^ 31 - 16 ≤ count) : bytesTodo count < count := by
  rcases lt_or_ge count (2 ^ 31) with hlt | hge
  · exact (bytesTodo_neg hcount hlt).trans_le (Int.natCast_nonneg count)
  · have := @toInt32_lt (roundUp (BitVec.ofNat 64 count) (BitVec.ofNat 64 blockSize)).toNat
    rw [bytesTodo]
    omega

theorem observed_libRead_long (hlong : 2 ^ 31 - 16 ≤ message.length)
    (hrest : r.rest = encryptMessage secrets.cipher secrets.iv message ++ tail)
    (hio : ∀ i, io i ≠ .fails) (hio' : ∀ i, io' i ≠ .fails) :
    observed (libRead secrets io message.length message.length r) =
      observed (libRead secrets io' message.length message.length r) := by
  have hlt := bytesTodo_lt hlong
  rcases lt_or_ge (bytesTodo message.length) 0 with hneg | hpos
  · have hcount : 0 < message.length := by omega
    rw [libRead_overflow io _ hcount hneg, libRead_overflow io' _ hcount hneg]
  · obtain ⟨todo, htodo⟩ := Int.eq_ofNat_of_zero_le hpos
    have hlen : todo ≤ r.rest.length := by
      rw [hrest, List.length_append, encryptMessage_length secrets.iv_length]
      simp only [blockSize]
      omega
    exact observed_libRead_of_le hio hio' htodo hlen (by omega) le_rfl

theorem libReadFinal_inside (hcount : blockSize ∣ count) (hgt : count < n)
    (hlt : n < count + blockSize) (hlen : n ≤ r.rest.length) (h : ReadUpTo secrets r n st) :
    libReadFinal secrets capacity count st = .returns (-1, st.stored, st.reader) := by
  have hpending : st.ctx.pending.length ≠ blockSize := by
    rw [h.fed.pending, List.length_drop, List.length_take_of_le hlen]
    simp only [decryptReady, blockSize] at *
    omega
  rw [libReadFinal, h.bytesRead, if_neg (Nat.ne_zero_of_lt hgt), decryptFinal, if_neg hpending]

theorem libRead_message (hpos : 0 < message.length) (hlt : message.length < 2 ^ 31 - 16)
    (hrest : r.rest = encryptMessage secrets.cipher secrets.iv message ++ tail)
    (hio : ∀ i, io i ≠ .fails) :
    (observed (libRead secrets io message.length message.length r) =
        .returns (message.length, message, tail) ∧
      ¬ (blockSize ∣ message.length ∧ EndsInLastBlock io r.reads message.length)) ∨
    (∃ bytes rest, observed (libRead secrets io message.length message.length r) =
        .returns (-1, bytes, rest)) ∧
      blockSize ∣ message.length ∧ EndsInLastBlock io r.reads message.length := by
  have hlen : messageSize message.length ≤ r.rest.length := by
    rw [hrest, List.length_append, encryptMessage_length secrets.iv_length]
    exact Nat.le_add_right _ _
  have hcap : decryptReady (messageSize message.length) * blockSize ≤ message.length := by
    simp only [messageSize, decryptReady, blockSize]
    omega
  obtain ⟨k, st, hread, hst, hstop, hbefore⟩ :=
    @libRead_ends secrets io (messageSize message.length) r _ _ hio (bytesTodo_eq hlt) hlen hcap
  have hle := @taken_le io r.reads (messageSize message.length) k
  rcases hle.eq_or_lt with hall | hinside
  · -- a call that ended inside the last block would have been the last one
    refine Or.inl ⟨?_, ?_⟩
    · rw [hall] at hst
      rw [hread, libReadFinal_message hrest hst le_rfl, toInt32_of_lt (by omega)]
      rfl
    · rintro ⟨hdvd, j, hgt, hless⟩
      have hjk : j < k := by
        by_contra hkj
        have := @taken_mono io (messageSize message.length) r.reads _ _ (not_lt.mp hkj)
        omega
      have hnot := hbefore j hjk
      simp only [decryptReady, blockSize] at *
      omega
  · have henough := hstop.resolve_left hinside.ne
    obtain ⟨hdvd, hgt⟩ := dvd_of_enough hpos hle henough
    have hsize : messageSize message.length = message.length + blockSize := by
      rw [messageSize, Nat.succ_mul, Nat.div_mul_cancel hdvd]
    refine Or.inr ⟨⟨st.stored, st.reader.rest, ?_⟩, hdvd, k, hgt, hinside⟩
    rw [hread, libReadFinal_inside hdvd hgt (hsize ▸ hinside) (hle.trans hlen) hst]
    rfl

end Split

/-- However the calls of `read` are split, `lib__read` behaves as with complete
calls, except if a call ends inside the last block of a message that fills its
blocks. -/
theorem libRead_split_iff (secrets : Secrets) (message tail : List Byte) (limits : Nat → Nat)
    (r : Reader) :
    observed (libRead secrets (splitBy limits) message.length message.length
          (atMessage secrets message tail r)) =
        observed (libRead secrets (fun _ => .whole) message.length message.length
          (atMessage secrets message tail r)) ↔
      ¬ (0 < message.length ∧ message.length < 2 ^ 31 - 16 ∧ blockSize ∣ message.length ∧
        EndsInLastBlock (splitBy limits) r.reads message.length) := by
  have hrest : (atMessage secrets message tail r).rest =
      encryptMessage secrets.cipher secrets.iv message ++ tail := by
    rw [atMessage, writtenMessage_eq]
  have hsplit : ∀ i, splitBy limits i ≠ .fails := by
    intro i
    simp [splitBy]
  have hwhole : ∀ i : Nat, (fun _ => ReadCall.whole) i ≠ .fails := by
    intro i
    simp
  rcases Nat.eq_zero_or_pos message.length with hzero | hpos
  · simp [hzero, libRead, libReadLoop, Reading.start]
  · rcases lt_or_ge message.length (2 ^ 31 - 16) with hlt | hlong
    · obtain ⟨reads, hread⟩ := libRead_whole hpos hlt hrest
      rw [hread]
      rcases libRead_message hpos hlt hrest hsplit with ⟨hsame, hnot⟩ | ⟨⟨_, _, hfails⟩, hends⟩
      · rw [hsame]
        exact iff_of_true rfl (fun h => hnot h.2.2)
      · rw [hfails]
        refine iff_of_false ?_ (fun h => h ⟨hpos, hlt, hends⟩)
        intro h
        have hret := congrArg Prod.fst (Outcome.returns.inj h)
        simp only at hret
        omega
    · exact iff_of_true (observed_libRead_long hlong hrest hsplit hwhole)
        (fun h => absurd h.2.1 (not_lt.mpr hlong))

theorem splitPadding_fails :
    observed (libRead plainSecrets (splitBy fun _ => 19) 16 16
        (atMessage plainSecrets (List.replicate 16 7) [] ⟨[], 0, [], 0⟩)) =
      .returns (-1, List.replicate 16 7, List.replicate 12 23) ∧
    observed (libRead plainSecrets (fun _ => .whole) 16 16
        (atMessage plainSecrets (List.replicate 16 7) [] ⟨[], 0, [], 0⟩)) =
      .returns (16, List.replicate 16 7, []) := by
  decide +kernel

end Memcr.SplitReads
