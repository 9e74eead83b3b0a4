import Memcr.SplitReads

namespace Memcr.TamperedReads

open Memcr.BlockStreams
open Memcr.ByteWords
open Memcr.CallOutcome
open Memcr.CipherBlocks
open Memcr.DumpFormat (Reader)
open Memcr.EncryptedDump
open Memcr.SplitReads

/-- No more than `count` bytes are stored, and just as many if `count` is returned. -/
def Contained (secrets : Secrets) (io : Nat → ReadCall) (count : Nat) (r : Reader) : Prop :=
  libRead secrets io count count r ≠ .overruns ∧
    ∀ bytes r', libRead secrets io count count r = .returns (count, bytes, r') →
      bytes.length = count

/-- The length of the padding that encrypted data ends with, if it has one. -/
def padding (secrets : Secrets) (data : List Byte) : Option Nat :=
  if 0 < data.length ∧ blockSize ∣ data.length then
    let before := ((secrets.iv ++ data).drop (data.length - blockSize)).take blockSize
    let last := data.drop (data.length - blockSize)
    (unpad (decryptBlock secrets.cipher before last).1).map fun plain => blockSize - plain.length
  else none

/-- Nothing keeps the loop of `lib__read` from reading all there is of a message of
`count` bytes: no call fails before, and none ends inside the last block. -/
def ReadsThrough (io : Nat → ReadCall) (count : Nat) (r : Reader) : Prop :=
  ∃ k, taken io r.reads (readEnd (messageSize count) r) k = readEnd (messageSize count) r ∧
    (∀ j < k, Passes io r.reads (readEnd (messageSize count) r) count j) ∧
    (decryptReady (readEnd (messageSize count) r) * blockSize < count → io (r.reads + k) ≠ .fails)

section Padding

variable {secrets : Secrets} {data block plain : List Byte} {ctx : Context}

theorem unpad_length (hblock : block.length = blockSize) (h : unpad block = some plain) :
    plain.length < blockSize := by
  simp only [unpad] at h
  split_ifs at h with hvalid
  obtain ⟨hpos, hle, -⟩ := hvalid
  rw [← Option.some.inj h, List.length_take, hblock]
  omega

theorem decryptBlocks_state (secrets : Secrets) {m : Nat} (hm : m * blockSize ≤ data.length) :
    (runBlocks blockSize (decryptBlock secrets.cipher) m secrets.iv data).2 =
      ((secrets.iv ++ data).drop (m * blockSize)).take blockSize := by
  rcases m with _ | m
  · simp only [runBlocks, Nat.zero_mul, List.drop_zero]
    exact (List.take_left' secrets.iv_length).symm
  · have hdrop : (secrets.iv ++ data).drop ((m + 1) * blockSize) = data.drop (m * blockSize) := by
      rw [Nat.succ_mul, Nat.add_comm, ← List.drop_drop, List.drop_left' secrets.iv_length]
    rw [runBlocks_add, hdrop]
    rfl

theorem decryptFinal_padding
    (h : Fed blockSize (decryptBlock secrets.cipher) decryptReady secrets.iv data ctx) :
    (decryptFinal secrets.cipher ctx).map (fun plain => blockSize - plain.length) =
      padding secrets data := by
  have hpending : ctx.pending.length = data.length - decryptReady data.length * blockSize := by
    rw [h.pending, List.length_drop]
  rw [decryptFinal, padding]
  by_cases hwhole : 0 < data.length ∧ blockSize ∣ data.length
  · have hready : decryptReady data.length * blockSize = data.length - blockSize := by
      simp only [decryptReady, blockSize] at *
      omega
    have hblock : ctx.pending.length = blockSize := by
      have := Nat.le_of_dvd hwhole.1 hwhole.2
      omega
    rw [if_pos hwhole, if_pos hblock, h.state, h.pending,
      decryptBlocks_state secrets (decryptReady_rule.le data.length), hready]
  · have hblock : ctx.pending.length ≠ blockSize := by
      simp only [decryptReady, blockSize] at *
      omega
    rw [if_neg hwhole, if_neg hblock]
    rfl

theorem decryptFinal_length
    (h : Fed blockSize (decryptBlock secrets.cipher) decryptReady secrets.iv data ctx)
    (hfinal : decryptFinal secrets.cipher ctx = some plain) :
    plain.length < blockSize ∧ 0 < data.length ∧ blockSize ∣ data.length := by
  have hstate : ctx.state.length = blockSize := by
    rw [h.state]
    exact (decryptBlocks_length (decryptReady_rule.le data.length) secrets.iv_length).2
  have hpending := congrArg List.length h.pending
  rw [List.length_drop] at hpending
  rw [decryptFinal] at hfinal
  split_ifs at hfinal with hblock
  refine ⟨unpad_length (decryptBlock_length hblock hstate) hfinal, ?_⟩
  simp only [decryptReady, blockSize] at *
  omega

end Padding

section Endings

variable {secrets : Secrets} {io : Nat → ReadCall} {count n : Nat} {r : Reader} {st : Reading}

theorem libReadFinal_padding (count : Nat) (h : ReadUpTo secrets r n st) (hn : n ≤ r.rest.length) :
    (∃ ret, libReadFinal secrets count count st = .returns (ret, st.stored, st.reader) ∧
        (ret = 0 ∧ n = 0 ∨ ret = -1) ∧ padding secrets (r.rest.take n) = none) ∨
      ∃ p last, padding secrets (r.rest.take n) = some p ∧ 0 < p ∧ p ≤ blockSize ∧
        blockSize ∣ n ∧ (st.stored ++ last).length + p = n ∧
        libReadFinal secrets count count st =
          if count < (st.stored ++ last).length then .overruns
          else .returns (toInt32 count, st.stored ++ last, st.reader) := by
  have htake : (r.rest.take n).length = n := List.length_take_of_le hn
  have hpadding := decryptFinal_padding h.fed
  have hstored := h.stored_length hn
  rw [libReadFinal, h.bytesRead]
  by_cases hzero : n = 0
  · rw [if_pos hzero]
    refine Or.inl ⟨0, rfl, Or.inl ⟨rfl, hzero⟩, ?_⟩
    rw [padding, htake, if_neg (by omega)]
  · rw [if_neg hzero]
    rcases hfinal : decryptFinal secrets.cipher st.ctx with _ | last
    · rw [hfinal] at hpadding
      exact Or.inl ⟨-1, rfl, Or.inr rfl, hpadding.symm⟩
    · rw [hfinal, Option.map_some] at hpadding
      obtain ⟨hlast, -, hdvd⟩ := decryptFinal_length h.fed hfinal
      rw [htake] at hdvd
      refine Or.inr ⟨blockSize - last.length, last, hpadding.symm, by omega, by omega, hdvd, ?_, ?_⟩
      · rw [List.length_append, hstored]
        simp only [decryptReady, blockSize] at *
        omega
      · rw [List.length_append]

theorem contained_of_eq {outcome : Outcome (Int × List Byte × Reader)}
    (h : libRead secrets io count count r = outcome) :
    Contained secrets io count r ↔
      outcome ≠ .overruns ∧
        ∀ bytes r', outcome = .returns (count, bytes, r') → bytes.length = count := by
  rw [Contained, h]

theorem contained_of_le_zero {ret : Int} {bytes : List Byte} {r' : Reader}
    (h : libRead secrets io count count r = .returns (ret, bytes, r'))
    (hret : ret = 0 ∧ bytes = [] ∨ ret = -1) : Contained secrets io count r := by
  refine (contained_of_eq h).mpr ⟨by simp, fun bytes' _ heq => ?_⟩
  simp only [Outcome.returns.injEq, Prod.mk.injEq] at heq
  obtain ⟨hcount, rfl, -⟩ := heq
  rcases hret with ⟨rfl, rfl⟩ | rfl
  · rw [List.length_nil]
    omega
  · omega

theorem ReadUpTo.stored_nil (h : ReadUpTo secrets r 0 st) : st.stored = [] := by
  have hlength := h.stored_length (Nat.zero_le _)
  exact List.length_eq_zero_iff.mp (by simpa [decryptReady] using hlength)

theorem contained_of_long (secrets : Secrets) (io : Nat → ReadCall) (r : Reader)
    (hlong : 2 ^ 31 - 16 ≤ count) : Contained secrets io count r := by
  have hpos : 0 < count := by omega
  rcases lt_or_ge (bytesTodo count) 0 with hneg | hnonneg
  · exact contained_of_le_zero (libRead_overflow io count hpos hneg r) (Or.inr rfl)
  · obtain ⟨todo, htodo⟩ := Int.eq_ofNat_of_zero_le hnonneg
    have hge : 2 ^ 31 ≤ count := by
      by_contra hlt
      have := bytesTodo_neg hlong (not_le.mp hlt)
      omega
    have hlt := bytesTodo_lt hlong
    have hend : readEnd todo r ≤ todo := Nat.min_le_left _ _
    have hready := decryptReady_rule.le (readEnd todo r)
    obtain ⟨k, -, ⟨bytes, r', hread, -⟩ | ⟨st, hread, hst, -⟩⟩ :=
      @libRead_outcome secrets io todo r count count htodo (by omega)
    · exact contained_of_le_zero hread (Or.inr rfl)
    · have hn := @taken_le io r.reads (readEnd todo r) k
      rcases libReadFinal_padding count hst (hn.trans (Nat.min_le_right _ _)) with
        ⟨ret, hfinal, hret, -⟩ | ⟨p, last, -, -, -, -, hlength, hfinal⟩
      · refine contained_of_le_zero (hread.trans hfinal) (hret.imp_left ?_)
        rintro ⟨rfl, hzero⟩
        exact ⟨rfl, ReadUpTo.stored_nil (hzero ▸ hst)⟩
      · rw [if_neg (by omega)] at hfinal
        refine (contained_of_eq (hread.trans hfinal)).mpr ⟨by simp, fun bytes _ heq => ?_⟩
        simp only [Outcome.returns.injEq, Prod.mk.injEq] at heq
        have := toInt32_lt count
        omega

theorem not_readsThrough {k : Nat}
    (hbefore : ∀ j < k, Passes io r.reads (readEnd (messageSize count) r) count j)
    (hstop : ¬ Passes io r.reads (readEnd (messageSize count) r) count k)
    (hend : taken io r.reads (readEnd (messageSize count) r) k = readEnd (messageSize count) r →
      decryptReady (readEnd (messageSize count) r) * blockSize < count ∧
        io (r.reads + k) = .fails) :
    ¬ ReadsThrough io count r := by
  rintro ⟨k', hall, hpasses, hlast⟩
  rcases lt_trichotomy k k' with hlt | rfl | hgt
  · exact hstop (hpasses k hlt)
  · exact hlast (hend hall).1 (hend hall).2
  · exact (hbefore k' hgt).more.ne hall

theorem contained_iff_length {data : List Byte} {r' : Reader} (hcount : count < 2 ^ 31)
    (h : libRead secrets io count count r =
      if count < data.length then .overruns else .returns (toInt32 count, data, r')) :
    Contained secrets io count r ↔ data.length = count := by
  rw [contained_of_eq h, toInt32_of_lt hcount]
  split_ifs with hover
  · exact iff_of_false (fun hcontained => hcontained.1 rfl) (by omega)
  · constructor
    · rintro ⟨-, hreported⟩
      exact hreported data r' rfl
    · intro hlength
      refine ⟨by simp, fun bytes r'' heq => ?_⟩
      simp only [Outcome.returns.injEq, Prod.mk.injEq, true_and] at heq
      rw [← heq.1]
      exact hlength

theorem length_eq_count_iff {len p : Nat} (hpos : 0 < p) (hp : p ≤ blockSize)
    (hdvd : blockSize ∣ readEnd (messageSize count) r)
    (hlength : len + p = readEnd (messageSize count) r) :
    len = count ↔ messageSize count ≤ r.rest.length ∧ count + p = messageSize count := by
  have hend : readEnd (messageSize count) r = min (messageSize count) r.rest.length := rfl
  simp only [messageSize, blockSize] at *
  omega

theorem contained_iff_of_short (hshort : count < 2 ^ 31 - 16) :
    Contained secrets io count r ↔
      (ReadsThrough io count r →
        ∀ p, padding secrets (r.rest.take (messageSize count)) = some p →
          messageSize count ≤ r.rest.length ∧ count + p = messageSize count) := by
  have htake : r.rest.take (messageSize count) = r.rest.take (readEnd (messageSize count) r) :=
    List.take_eq_take_min
  have hend : readEnd (messageSize count) r ≤ messageSize count := Nat.min_le_left _ _
  have hcap : decryptReady (readEnd (messageSize count) r) * blockSize ≤ count := by
    simp only [messageSize, decryptReady, blockSize] at *
    omega
  rw [htake]
  obtain ⟨k, hbefore, ⟨bytes, r', hread, hfails, hwanted⟩ | ⟨st, hread, hst, hstop⟩⟩ :=
    @libRead_outcome secrets io (messageSize count) r count count (bytesTodo_eq hshort) hcap
  · refine iff_of_true (contained_of_le_zero hread (Or.inr rfl)) fun hthrough => ?_
    exact absurd hthrough (not_readsThrough hbefore (fun h => h.works hfails)
      (fun hall => ⟨hall ▸ hwanted, hfails⟩))
  · have hle := @taken_le io r.reads (readEnd (messageSize count) r) k
    rcases libReadFinal_padding count hst (hle.trans (Nat.min_le_right _ _)) with
      ⟨ret, hfinal, hret, hnone⟩ | ⟨p, last, hpadding, hpos, hp, hdvd, hlength, hfinal⟩
    · have hcontained : Contained secrets io count r := by
        refine contained_of_le_zero (hread.trans hfinal) (hret.imp_left ?_)
        rintro ⟨rfl, hzero⟩
        exact ⟨rfl, ReadUpTo.stored_nil (hzero ▸ hst)⟩
      refine iff_of_true hcontained fun hthrough p hp => ?_
      rcases hle.eq_or_lt with hall | hinside
      · rw [← hall, hnone] at hp
        cases hp
      · have henough := hstop.resolve_right fun hall => hinside.ne hall.1
        exact absurd hthrough (not_readsThrough hbefore
          (fun h => absurd henough (not_le.mpr h.wanted)) (fun hall => absurd hall hinside.ne))
    · -- only a whole number of blocks has a padding, so the loop has not stopped early
      have hall : taken io r.reads (readEnd (messageSize count) r) k =
          readEnd (messageSize count) r := by
        rcases hstop with henough | ⟨hall, -⟩
        · simp only [messageSize, decryptReady, blockSize] at *
          omega
        · exact hall
      have hthrough : ReadsThrough io count r := by
        refine ⟨k, hall, hbefore, fun hwanted => ?_⟩
        rw [hall] at hstop
        exact (hstop.resolve_left (not_le.mpr hwanted)).2
      rw [hall] at hpadding hdvd hlength
      rw [contained_iff_length (by omega) (hread.trans hfinal),
        length_eq_count_iff hpos hp hdvd hlength]
      constructor
      · intro h _ p' hp'
        obtain rfl : p = p' := Option.some.inj (hpadding.symm.trans hp')
        exact h
      · exact fun h => h hthrough p hpadding

end Endings

/-- The buffer is not left, and a reported count is the number of bytes decrypted into
it, unless all of the message is read and ends in a padding that is not the one of
`count` bytes, or the file ends in a padding before it. -/
theorem libRead_contained_iff (secrets : Secrets) (io : Nat → ReadCall) (count : Nat)
    (r : Reader) :
    Contained secrets io count r ↔
      (count < 2 ^ 31 - 16 → ReadsThrough io count r →
        ∀ p, padding secrets (r.rest.take (messageSize count)) = some p →
          messageSize count ≤ r.rest.length ∧ count + p = messageSize count) := by
  rcases le_or_gt (2 ^ 31 - 16) count with hlong | hshort
  · exact iff_of_true (contained_of_long secrets io r hlong) (fun hlt => absurd hlt (by omega))
  · rw [contained_iff_of_short hshort]
    exact ⟨fun h _ => h, fun h => h hshort⟩

theorem alteredPadding_not_contained :
    observed (libRead plainSecrets (fun _ => .whole) 16 16
        ⟨List.replicate 31 7 ++ [6], 0, [], 0⟩) = .overruns ∧
      observed (libRead plainSecrets (fun _ => .whole) 15 15
        ⟨7 :: List.replicate 15 15, 0, [], 0⟩) = .returns (15, [7], []) := by
  decide +kernel

end Memcr.TamperedReads
