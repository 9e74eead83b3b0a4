import Memcr.BlockFormats
import Memcr.DumpRecords

namespace Memcr.BlockDecoding

open Memcr.BlockFormats
open Memcr.ByteWords
open Memcr.ByteMemory
open Memcr.CallOutcome
open Memcr.DumpFormat
open Memcr.DumpReaders
open Memcr.DumpRecords
open Memcr.DumpRestore

/-- Whenever the call returns `len` it has stored `len` bytes, and the same ones
whatever its buffers held before. -/
def AllOrNothing
    (read : (Nat → Bool) → Scratch → Memory → Reader → Outcome (Int × Memory × Reader))
    (stream : List Byte) (len : Nat) : Prop :=
  ∀ fails scratch dst dst' r r', r.rest = stream →
    read fails scratch dst r = .returns (len, dst', r') →
      ∃ out : List Byte, out.length = len ∧
        ∀ scratch₂ dst₂, read fails scratch₂ dst₂ r = .returns (len, store dst₂ 0 out, r')

/-- A block at the start of the stream, if it decodes for `len` bytes, decodes to
`len` bytes. -/
def DecodesInFull (codec : Codec) (decompress : List Byte → Nat → Option (List Byte))
    (stream : List Byte) (len : Nat) : Prop :=
  ∀ body tail out, stream = body ++ tail → Block codec decompress len body out →
    out.length = len

theorem codecReadVia_quiet {codec : Codec} {decoder : Decoder} {capacity len : Nat} {r : Reader}
    {body tail out : List Byte} (hrest : r.rest = body ++ tail)
    (hblock : Block codec decoder.decompress len body out) (hcap : len ≤ capacity)
    (scratch : Scratch) (dst : Memory) :
    codecReadVia (dumpRead quietFails) codec decoder scratch capacity len dst r =
      .returns (toInt32 len, store dst 0 out, { r with rest := tail, reads := r.reads + 2 }) := by
  obtain ⟨block, hframed, hout⟩ := hblock
  rw [codecReadVia_fetch, fetchBlock_quiet hrest hframed, Outcome.returns_andThen, finishBlock,
    decodeBlock_some hout ((decoder.reach_le block len).trans hcap)]

theorem codecRead_allOrNothing_iff {codec : Codec} {decoder : Decoder} {stream : List Byte}
    {len : Nat} :
    AllOrNothing
        (fun fails scratch => codecReadVia (dumpRead fails) codec decoder scratch len len)
        stream len ↔
      (len < 2 ^ 31 → DecodesInFull codec decoder.decompress stream len) := by
  constructor
  · intro h hlen body tail out hstream hblock
    -- a run without failures returns `len`, and stores what the block decodes to
    have hread (scratch : Scratch) (dst : Memory) :
        codecReadVia (dumpRead quietFails) codec decoder scratch len len dst ⟨stream, 0, [], 0⟩ =
          .returns (len, store dst 0 out, ⟨tail, 0, [], 2⟩) := by
      rw [codecReadVia_quiet hstream hblock le_rfl, toInt32_of_lt hlen]
    obtain ⟨out', hlength, hall⟩ := h _ _ _ _ _ _ rfl (hread (blankScratch 0) fun _ => 0)
    rw [← hlength]
    refine @length_eq_of_store_eq _ _ 0 fun dst => ?_
    have hequal := (hread (blankScratch 0) dst).symm.trans (hall (blankScratch 0) dst)
    simp only [Outcome.returns.injEq, Prod.mk.injEq] at hequal
    exact hequal.2.1
  · intro h fails scratch dst dst' r r' hrest hread
    simp only [codecReadVia_fetch] at hread ⊢
    rcases fetchBlock_cases with ⟨r₁, hfetch⟩ |
        ⟨body, tail, block, reads, hstream, hframed, hfetch⟩ | ⟨hfetch, -⟩ <;>
      rw [hfetch] at hread
    · simp only [Outcome.returns_andThen, finishBlock, Outcome.returns.injEq,
        Prod.mk.injEq] at hread
      omega
    · obtain ⟨hfailed, -⟩ | ⟨hlen, rfl, hfits, out, hout, -⟩ := decodeBlock_returns hread
      · omega
      · have hsmall := toInt32_lt len
        refine ⟨out, h (by omega) body tail out (hrest ▸ hstream) ⟨block, hframed, hout⟩, ?_⟩
        intro scratch₂ dst₂
        rw [hfetch, Outcome.returns_andThen, finishBlock, decodeBlock_some hout hfits, hlen]
    · cases hread

/-- `lz4_read` and `zstd_read` are all or nothing on a stream exactly when it
does not begin with a block that decodes to fewer bytes than are asked for. -/
theorem decompression_exact_iff (codecs : Codecs) (stream : List Byte) (len : Nat) :
    (AllOrNothing (fun fails scratch => lz4ReadVia (dumpRead fails) codecs.lz4 scratch len len)
        stream len ↔
      (len < 2 ^ 31 → DecodesInFull codecs.lz4 (lz4Decompress codecs.lz4) stream len)) ∧
    (AllOrNothing (fun fails scratch => zstdReadVia (dumpRead fails) codecs.zstd scratch len len)
        stream len ↔
      (len < 2 ^ 31 → DecodesInFull codecs.zstd (zstdDecompress codecs.zstd) stream len)) :=
  ⟨codecRead_allOrNothing_iff, codecRead_allOrNothing_iff⟩

theorem codecRead_shortBlock {codec : Codec} {decoder : Decoder} {block : List Byte}
    (hframed : Framed codec (toBytes 4 block.length ++ block) block)
    (hout : decoder.decompress block 4096 = some [7]) (scratch : Scratch) (dst : Memory) :
    ∃ dst' r, codecReadVia (dumpRead quietFails) codec decoder scratch 4096 4096 dst
        ⟨toBytes 4 block.length ++ block, 4096, [], 0⟩ = .returns (4096, dst', r) ∧
      dst' 0 = 7 ∧ dst' 4095 = dst 4095 := by
  have hint : toInt32 4096 = 4096 := toInt32_of_lt (by decide)
  have hread := @codecReadVia_quiet codec decoder 4096 4096
    ⟨toBytes 4 block.length ++ block, 4096, [], 0⟩ _ _ _ (List.append_nil _).symm
    ⟨block, hframed, hout⟩ le_rfl scratch dst
  rw [hint] at hread
  exact ⟨_, _, hread, rfl, store_of_not_within (by decide)⟩

/-- An LZ4 block of one literal. -/
def shortBlock : List Byte := [0x10, 0x07]

/-- A zstd frame of one byte. -/
def shortFrame : List Byte :=
  [0x28, 0xb5, 0x2f, 0xfd, 0xa0, 0x01, 0x00, 0x00, 0x00, 0x09, 0x00, 0x00, 0x07]

theorem shortBlock_decompress : lz4Decompress literalCodec shortBlock 4096 = some [7] := by
  rw [lz4Decompress, toInt32_of_lt (by decide)]
  rfl

theorem shortBlock_keeps_stale :
    (∃ dst r, lz4ReadVia (dumpRead quietFails) literalCodec (blankScratch 0) 4096 4096
        (fun _ => 9) ⟨toBytes 4 2 ++ shortBlock, 4096, [], 0⟩ = .returns (4096, dst, r) ∧
      dst 0 = 7 ∧ dst 4095 = 9) ∧
    ∃ dst r, zstdReadVia (dumpRead quietFails) rawCodec (blankScratch 0) 4096 4096
        (fun _ => 9) ⟨toBytes 4 13 ++ shortFrame, 4096, [], 0⟩ = .returns (4096, dst, r) ∧
      dst 0 = 7 ∧ dst 4095 = 9 := by
  constructor
  · have hframed : Framed literalCodec (toBytes 4 shortBlock.length ++ shortBlock) shortBlock :=
      ⟨rfl, by decide, by decide⟩
    exact codecRead_shortBlock hframed shortBlock_decompress (blankScratch 0) fun _ => 9
  · have hframed : Framed rawCodec (toBytes 4 shortFrame.length ++ shortFrame) shortFrame :=
      ⟨rfl, by decide, by decide⟩
    have hout : zstdDecompress rawCodec shortFrame 4096 = some [7] := by decide
    exact codecRead_shortBlock hframed hout (blankScratch 0) fun _ => 9

end Memcr.BlockDecoding
