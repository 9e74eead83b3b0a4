import Memcr.EncryptedDump

namespace Memcr.DumpLayers

open Memcr.ByteMemory
open Memcr.ByteWords
open Memcr.CallOutcome
open Memcr.CipherBlocks
open Memcr.DumpFormat
open Memcr.DumpReaders
open Memcr.DumpRestore
open Memcr.EncryptedDump

/-- What `dump_read` calls. -/
inductive Layer where
  | builtIn (fails : Nat → Bool)
  /-- `lib__read` with the cipher enabled. -/
  | encrypted (secrets : Secrets) (io : Nat → ReadCall)
  /-- `lib__read` with the cipher disabled. -/
  | plainLibrary (io : Nat → ReadCall)

def Layer.dumpRead : Layer → DumpRead
  | .builtIn fails => DumpFormat.dumpRead fails
  | .encrypted secrets io => libRead secrets io
  | .plainLibrary io => libReadPlain io

/-- There is a region at the reader: its header is read in full and passes the
checks, and `compress_read` returns `ret` for its length. -/
def RegionRead (dumpRead : DumpRead) (cfg : Config) (scratch : Scratch) (r : Reader) (ret : Int)
    (vmr : VmRegion) (buf : Memory) : Prop :=
  ∃ r₁ r₂, dumpRead vmRegionSize vmRegionSize r = .returns (vmRegionSize, vmr.bytes, r₁) ∧
    vmr.len.toNat ≤ r₁.dumpedVmSize ∧ vmRegionValid cfg.pageSize vmr = true ∧
    compressReadVia dumpRead cfg scratch vmr.len.toNat
      { r₁ with dumpedVmSize := r₁.dumpedVmSize - vmr.len.toNat } = .returns (ret, buf, r₂)

/-- A round of `target_set_pages` that reads, and ends with the result. -/
def UploadsNothing (cfg : Config) (env : LoopEnv) (st : Upload) : Prop :=
  uploadRound cfg env st =
    (readVmRegionVia env.dumpRead cfg (env.scratch st.sends) st.reader).andThen
      fun (ret, _, _, reader) => .returns (.inl (ret, { st with reader := reader }))

/-- `read_vm_region` returns a positive value for a region only, and nothing is
uploaded where there is none. -/
structure ReportsRegions (cfg : Config) (env : LoopEnv) (st : Upload) : Prop where
  reported : ∀ ret vmr buf r',
    readVmRegionVia env.dumpRead cfg (env.scratch st.sends) st.reader =
      .returns (ret, vmr, buf, r') → 0 < ret →
      RegionRead env.dumpRead cfg (env.scratch st.sends) st.reader ret vmr buf
  uploaded : (¬ ∃ ret vmr buf, 0 < ret ∧
      RegionRead env.dumpRead cfg (env.scratch st.sends) st.reader ret vmr buf) →
    UploadsNothing cfg env st

/-- A `read` of a header that delivers a part of it. -/
def ShortHeader : Layer → Reader → Prop
  | .plainLibrary io, r =>
      io r.reads ≠ .fails ∧ 0 < r.rest.length ∧
        min ((io r.reads).limit vmRegionSize) r.rest.length < vmRegionSize
  | _, _ => False

section Headers

variable {dumpRead : DumpRead} {cfg : Config} {scratch : Scratch} {r r' : Reader} {ret : Int}
  {vmr : VmRegion} {buf : Memory}

theorem readVmRegionVia_pos
    (h : readVmRegionVia dumpRead cfg scratch r = .returns (ret, vmr, buf, r')) (hret : 0 < ret) :
    ∃ got header r₁, dumpRead vmRegionSize vmRegionSize r = .returns (got, header, r₁) ∧
      (got = ret ∧ got ≠ vmRegionSize ∨
        got = vmRegionSize ∧
        vmr = VmRegion.ofBytes (slice (store scratch.vmr 0 header) 0 vmRegionSize) ∧
        vmr.len.toNat ≤ r₁.dumpedVmSize ∧ vmRegionValid cfg.pageSize vmr = true ∧
        ∃ r₂, compressReadVia dumpRead cfg scratch vmr.len.toNat
          { r₁ with dumpedVmSize := r₁.dumpedVmSize - vmr.len.toNat } =
            .returns (ret, buf, r₂)) := by
  obtain ⟨first, hfirst, hrest⟩ := Outcome.andThen_eq_returns.mp h
  obtain ⟨⟨got, header, r₁⟩, hread, hnext⟩ := Outcome.andThen_eq_returns.mp hfirst
  refine ⟨got, header, r₁, hread, ?_⟩
  simp only at hnext
  split at hnext
  · rename_i hshort
    obtain rfl := Outcome.returns.inj hnext
    simp only [Outcome.returns.injEq, Prod.mk.injEq] at hrest
    exact Or.inl ⟨hrest.1, hshort⟩
  · rename_i hwhole
    split at hnext
    · obtain rfl := Outcome.returns.inj hnext
      simp only [Outcome.returns.injEq, Prod.mk.injEq] at hrest
      omega
    · rename_i hbudget
      split at hnext
      · obtain rfl := Outcome.returns.inj hnext
        simp only [Outcome.returns.injEq, Prod.mk.injEq] at hrest
        omega
      · rename_i hvalid
        obtain rfl := Outcome.returns.inj hnext
        obtain ⟨hvmr, r₂, -, -, hbody⟩ := readContentsVia_returns hrest
        rw [← hvmr] at hbudget hvalid hbody
        refine Or.inr ⟨not_not.mp hwhole, hvmr, not_lt.mp hbudget, ?_, r₂, hbody⟩
        simpa using hvalid

theorem ofBytes_header {header : List Byte} (h : header.length = vmRegionSize) (mem : Memory) :
    (VmRegion.ofBytes (slice (store mem 0 header) 0 vmRegionSize)).bytes = header := by
  rw [← h, slice_store_self]
  exact VmRegion.bytes_ofBytes h

/-- It is enough that `dump_read` reports the bytes of a header only if it has
delivered them, or if nothing can be read behind it. -/
theorem regionRead_of_pos
    (hheader : ∀ {got header r₁}, dumpRead vmRegionSize vmRegionSize r =
        .returns (got, header, r₁) → 0 < got → got = vmRegionSize ∧
      (header.length = vmRegionSize ∨
        ∀ {len budget ret buf r₂}, compressReadVia dumpRead cfg scratch len
          { r₁ with dumpedVmSize := budget } = .returns (ret, buf, r₂) → ret ≤ 0))
    (h : readVmRegionVia dumpRead cfg scratch r = .returns (ret, vmr, buf, r')) (hret : 0 < ret) :
    RegionRead dumpRead cfg scratch r ret vmr buf := by
  obtain ⟨got, header, r₁, hread, ⟨rfl, hshort⟩ | ⟨rfl, hvmr, hbudget, hvalid, r₂, hbody⟩⟩ :=
    readVmRegionVia_pos h hret
  · exact absurd (hheader hread hret).1 hshort
  · rcases (hheader hread (by decide)).2 with hlength | hnothing
    · have hbytes := ofBytes_header hlength scratch.vmr
      rw [← hvmr] at hbytes
      refine ⟨r₁, r₂, ?_, hbudget, hvalid, hbody⟩
      rw [hbytes]
      exact hread
    · exact absurd hret (not_lt.mpr (hnothing hbody))

theorem reportsRegions_of_reported {env : LoopEnv} {st : Upload}
    (h : ∀ ret vmr buf r',
      readVmRegionVia env.dumpRead cfg (env.scratch st.sends) st.reader =
        .returns (ret, vmr, buf, r') → 0 < ret →
        RegionRead env.dumpRead cfg (env.scratch st.sends) st.reader ret vmr buf) :
    ReportsRegions cfg env st := by
  refine ⟨h, ?_⟩
  intro hnone
  refine Outcome.andThen_congr ?_
  rintro ⟨ret, vmr, buf, reader⟩ hread
  have hret : ret ≤ 0 := by
    by_contra hpos
    exact hnone ⟨ret, vmr, buf, not_le.mp hpos, h _ _ _ _ hread (not_le.mp hpos)⟩
  simp only [sendRegion, hret, if_true]

end Headers

section Encrypted

variable {secrets : Secrets} {io : Nat → ReadCall} {r r' : Reader} {n capacity count rounds : Nat}
  {todo : Int} {st st' : Reading} {cfg : Config} {scratch : Scratch}

theorem sysRead_some {size : Nat} {data : List Byte} (h : sysRead io size r = (some data, r')) :
    data = r.rest.take data.length ∧
      r' = { r with rest := r.rest.drop data.length, reads := r.reads + 1 } ∧
      (data = [] → size = 0 ∨ r.rest = []) := by
  simp only [sysRead] at h
  split at h
  · cases h
  · rename_i hfails
    obtain ⟨htake, hreader⟩ := Prod.mk.inj h
    rw [← hreader, ← Option.some.inj htake, List.length_take]
    refine ⟨?_, ?_, ?_⟩
    · rw [List.take_eq_take_min]
    · rw [← List.drop_eq_drop_min]
    · intro hnil
      rcases List.take_eq_nil_iff.mp hnil with hlimit | hrest
      · left
        by_contra hsize
        exact (ReadCall.limit_pos (Nat.pos_of_ne_zero hsize) hfails).ne' hlimit
      · exact Or.inr hrest

theorem readUpTo_decrypts {size : Nat} {data : List Byte} (h : ReadUpTo secrets r n st)
    (hn : n ≤ r.rest.length) (hread : sysRead io size st.reader = (some data, r')) :
    n + data.length ≤ r.rest.length ∧
      ReadUpTo secrets r (n + data.length)
        { ctx := (decryptUpdate secrets.cipher st.ctx data).2
          stored := st.stored ++ (decryptUpdate secrets.cipher st.ctx data).1
          bytesRead := st.bytesRead + data.length
          reader := r' } := by
  obtain ⟨hdata, rfl, -⟩ := sysRead_some hread
  have hrest : st.reader.rest = r.rest.drop n := congrArg Reader.rest h.reader
  rw [hrest] at hdata
  have hlength := congrArg List.length hdata
  rw [List.length_take, List.length_drop] at hlength
  have hnext := h.update data.length
  rw [← hdata] at hnext
  refine ⟨by omega, ?_⟩
  rw [h.bytesRead, hrest, List.drop_drop, h.reader]
  exact hnext

/-- When the loop of `lib__read` ends, enough is stored, or the file is at its
end, or all was read. -/
theorem libReadLoop_done (h : ReadUpTo secrets r n st) (hn : n ≤ r.rest.length)
    (hloop : libReadLoop secrets io capacity count todo rounds st = .returns (.inr st')) :
    ∃ n' ≤ r.rest.length, ReadUpTo secrets r n' st' ∧
      (count ≤ st'.stored.length ∨ st'.reader.rest = [] ∨ (n' : Int) = todo) := by
  induction rounds generalizing n st with
  | zero => cases hloop
  | succ rounds ih =>
      rw [libReadLoop] at hloop
      split at hloop
      · rename_i henough
        cases hloop
        exact ⟨n, hn, h, Or.inl henough⟩
      · simp only at hloop
        split at hloop
        · cases hloop
        · rename_i hsize
          split at hloop
          · cases hloop
          · rename_i reader hread
            cases hloop
            obtain ⟨-, rfl, hempty⟩ := sysRead_some hread
            -- `read` returned 0: the end of the file, or a `size` of 0
            refine ⟨n, hn, ⟨h.fed, h.stored, h.bytesRead, ?_⟩, Or.inr ?_⟩
            · simp only [List.length_nil, List.drop_zero]
              rw [h.reader]
            · rcases hempty rfl with hzero | hrest
              · right
                rw [h.bytesRead] at hzero hsize
                simp only [nextSize, ioSize] at hzero hsize
                split_ifs at hzero hsize
                · omega
                · omega
              · exact Or.inl hrest
          · rename_i b data reader hread
            split at hloop
            · cases hloop
            · obtain ⟨hle, hnext⟩ := readUpTo_decrypts h hn hread
              exact ih hnext hle hloop

theorem libReadLoop_fails {failed : Int × List Byte × Reader}
    (hloop : libReadLoop secrets io capacity count todo rounds st = .returns (.inl failed)) :
    failed.1 = -1 := by
  induction rounds generalizing st with
  | zero => cases hloop
  | succ rounds ih =>
      rw [libReadLoop] at hloop
      split at hloop
      · cases hloop
      · simp only at hloop
        split at hloop
        · cases hloop
          rfl
        · split at hloop
          · cases hloop
            rfl
          · cases hloop
          · split at hloop
            · cases hloop
            · exact ih hloop

/-- A positive result of `lib__read` is the count; the bytes of a header came with
it, or the file is at its end. -/
theorem libRead_header {got : Int} {header : List Byte}
    (h : libRead secrets io vmRegionSize vmRegionSize r = .returns (got, header, r'))
    (hgot : 0 < got) :
    got = vmRegionSize ∧ (header.length = vmRegionSize ∨ r'.rest = []) := by
  obtain ⟨failed | st, hloop, hfinal⟩ := Outcome.andThen_eq_returns.mp h
  · have hfailed := libReadLoop_fails hloop
    rw [Outcome.returns.inj hfinal] at hfailed
    simp only at hfailed
    omega
  · obtain ⟨n, hn, hst, hdone⟩ :=
      libReadLoop_done (readUpTo_start secrets r) (Nat.zero_le _) hloop
    have hstored := hst.stored_length hn
    simp only [libReadFinal] at hfinal
    split at hfinal
    · simp only [Outcome.returns.injEq, Prod.mk.injEq] at hfinal
      omega
    · split at hfinal
      · simp only [Outcome.returns.injEq, Prod.mk.injEq] at hfinal
        omega
      · rename_i last hlast
        split at hfinal
        · cases hfinal
        · rename_i hfits
          simp only [Outcome.returns.injEq, Prod.mk.injEq] at hfinal
          obtain ⟨rfl, rfl, rfl⟩ := hfinal
          refine ⟨rfl, ?_⟩
          rw [List.length_append]
          rcases hdone with henough | hend | hall
          · left
            omega
          · exact Or.inr hend
          · -- 32 bytes were read, and one block of them is out
            left
            have htodo : bytesTodo vmRegionSize = 32 := by decide
            simp only [vmRegionSize, decryptReady, blockSize] at *
            omega

theorem compressReadVia_eof {len : Nat} {ret : Int} {buf : Memory} (hrest : r.rest = [])
    (h : compressReadVia (libRead secrets io) cfg scratch len r = .returns (ret, buf, r')) :
    ret ≤ 0 := by
  have hcodec : ∀ {codec decoder}, codecReadVia (libRead secrets io) codec decoder scratch
      maxVmRegionSize len scratch.buf r = .returns (ret, buf, r') → ret ≤ 0 := by
    intro codec decoder h
    obtain ⟨got, reads, heof, hgot, -⟩ := @libRead_eof secrets r io 4 4 hrest
    have hshort : got ≠ 4 := by omega
    simp only [codecReadVia, heof, Outcome.returns_andThen, hshort, ne_eq, not_false_eq_true,
      if_true, Outcome.returns.injEq, Prod.mk.injEq] at h
    omega
  simp only [compressReadVia] at h
  split at h
  · obtain ⟨got, reads, heof, hgot, -⟩ := @libRead_eof secrets r io maxVmRegionSize len hrest
    simp only [plainReadVia, heof, Outcome.returns_andThen] at h
    split at h
    · simp only [Outcome.returns.injEq, Prod.mk.injEq] at h
      omega
    · simp only [Outcome.returns.injEq, Prod.mk.injEq] at h
      omega
  · exact hcodec h
  · exact hcodec h

end Encrypted

section Layers

variable {cfg : Config} {scratch : Scratch} {r : Reader} {io : Nat → ReadCall}

theorem libReadPlain_fails {capacity count : Nat} (hio : io r.reads = .fails) :
    libReadPlain io capacity count r = .returns (-1, [], { r with reads := r.reads + 1 }) := by
  simp only [libReadPlain, sysRead, hio, if_true]

theorem libReadPlain_eq {count : Nat} (hio : io r.reads ≠ .fails) (hcount : count < 2 ^ 31) :
    libReadPlain io count count r =
      .returns ((min ((io r.reads).limit count) r.rest.length : Nat),
        r.rest.take ((io r.reads).limit count),
        { r with rest := r.rest.drop ((io r.reads).limit count), reads := r.reads + 1 }) := by
  have hle := (io r.reads).limit_le count
  have hfits : ¬ count < min ((io r.reads).limit count) r.rest.length := by omega
  have hint := @toInt32_of_lt (min ((io r.reads).limit count) r.rest.length) (by omega)
  simp only [libReadPlain, sysRead_eq hio, List.length_take, hfits, if_false, hint]

theorem regionRead_of_layer (layer : Layer) (hlayer : ¬ ShortHeader layer r) {ret : Int}
    {vmr : VmRegion} {buf : Memory} {r' : Reader}
    (h : readVmRegionVia layer.dumpRead cfg scratch r = .returns (ret, vmr, buf, r'))
    (hret : 0 < ret) : RegionRead layer.dumpRead cfg scratch r ret vmr buf := by
  refine regionRead_of_pos ?_ h hret
  intro got header r₁ hread hgot
  rcases layer with fails | ⟨secrets, io⟩ | io
  · have hwhole : got = vmRegionSize := by
      rcases (dumpRead_returns hread).1 with heq | rfl | rfl
      · exact heq
      · omega
      · omega
    exact ⟨hwhole, Or.inl (dumpRead_bytes hread hwhole).1⟩
  · obtain ⟨hwhole, hlength | hend⟩ := libRead_header hread hgot
    · exact ⟨hwhole, Or.inl hlength⟩
    · -- the header may be incomplete, but then `compress_read` finds the end of the file
      refine ⟨hwhole, Or.inr ?_⟩
      intro len budget ret buf r₂ hbody
      exact compressReadVia_eof (r := { r₁ with dumpedVmSize := budget }) hend hbody
  · rcases eq_or_ne (io r.reads) .fails with hfails | hio
    · rw [Layer.dumpRead, libReadPlain_fails hfails] at hread
      simp only [Outcome.returns.injEq, Prod.mk.injEq] at hread
      omega
    · rw [Layer.dumpRead, libReadPlain_eq hio (by decide)] at hread
      simp only [Outcome.returns.injEq, Prod.mk.injEq] at hread
      obtain ⟨rfl, rfl, rfl⟩ := hread
      have hle := (io r.reads).limit_le vmRegionSize
      have hwhole : min ((io r.reads).limit vmRegionSize) r.rest.length = vmRegionSize := by
        by_contra hne
        refine hlayer ⟨hio, ?_, ?_⟩
        · omega
        · omega
      refine ⟨congrArg Nat.cast hwhole, Or.inl ?_⟩
      rw [List.length_take, hwhole]

theorem readVmRegionVia_short (h : ShortHeader (.plainLibrary io) r) :
    ∃ ret header r₁,
      libReadPlain io vmRegionSize vmRegionSize r = .returns (ret, header, r₁) ∧
      0 < ret ∧ ret < vmRegionSize ∧
      ∃ vmr, readVmRegionVia (libReadPlain io) cfg scratch r =
        .returns (ret, vmr, scratch.buf, r₁) := by
  obtain ⟨hio, hrest, hlt⟩ := h
  have hlimit := ReadCall.limit_pos (by decide : 0 < vmRegionSize) hio
  have hshort : ((min ((io r.reads).limit vmRegionSize) r.rest.length : Nat) : Int) ≠
      vmRegionSize := by omega
  refine ⟨_, _, _, libReadPlain_eq hio (by decide), by omega, by omega, ?_⟩
  rw [readVmRegionVia, readHeaderVia, libReadPlain_eq hio (by decide)]
  simp only [Outcome.returns_andThen, ne_eq, hshort, not_false_eq_true, if_true]
  exact ⟨_, rfl⟩

/-- `read_vm_region` reports regions only, and only regions are uploaded, unless
the library is loaded with its cipher disabled and a `read` delivers a part of a
header. -/
theorem reportsRegions_iff (cfg : Config) (layer : Layer) (sendFails : Nat → Bool)
    (scratch : Nat → Scratch) (st : Upload) :
    ReportsRegions cfg ⟨layer.dumpRead, sendFails, scratch⟩ st ↔
      ¬ ShortHeader layer st.reader := by
  constructor
  · rintro ⟨hreported, -⟩ hshort
    rcases layer with fails | ⟨secrets, io⟩ | io
    · exact hshort
    · exact hshort
    · obtain ⟨ret, header, r₁, hread, hpos, hlt, vmr, hregion⟩ := readVmRegionVia_short hshort
      obtain ⟨r₂, r₃, hwhole, -⟩ := hreported ret vmr _ r₁ hregion hpos
      have hret := (Prod.mk.inj (Outcome.returns.inj (hread.symm.trans hwhole))).1
      omega
  · intro hlayer
    refine reportsRegions_of_reported ?_
    intro ret vmr buf r' hread hret
    exact regionRead_of_layer layer hlayer hread hret

/-- Whatever a run of `target_set_pages` has uploaded, if no header was short, is
the contents of a region that was there. -/
theorem uploaded_regionRead {layer : Layer} {sendFails : Nat → Bool} {bufs : Nat → Scratch}
    (hlayer : ∀ r, ¬ ShortHeader layer r) {start st : Upload}
    (hreach : Relation.ReflTransGen (GoesOn cfg ⟨layer.dumpRead, sendFails, bufs⟩) start st)
    {region : Region} (hregion : region ∈ st.uploaded) :
    region ∈ start.uploaded ∨ ∃ head ret buf,
      Relation.ReflTransGen (GoesOn cfg ⟨layer.dumpRead, sendFails, bufs⟩) start head ∧
      0 < ret ∧ RegionRead layer.dumpRead cfg (bufs head.sends) head.reader ret region.vmr buf ∧
      region.data = slice buf 0 region.vmr.len.toNat := by
  induction hreach with
  | refl => exact Or.inl hregion
  | tail hhead hgoes ih =>
      obtain ⟨⟨ret, vmr, buf, r'⟩, hread, hsend⟩ := Outcome.andThen_eq_returns.mp hgoes
      obtain ⟨hret, -, -, rfl⟩ := sendRegion_goesOn hsend
      rcases List.mem_append.mp hregion with hearlier | hlast
      · exact ih hearlier
      · obtain rfl := List.mem_singleton.mp hlast
        exact Or.inr ⟨_, ret, buf, hhead, hret,
          regionRead_of_layer layer (hlayer _) hread hret, rfl⟩

end Layers

/-- The buffers of a round, with a header of an earlier round in them. -/
def staleHeader (_ : Nat) : Scratch :=
  ⟨store (fun _ => 0) 0 (VmRegion.bytes ⟨8192, 4096⟩), fun _ => 0, fun _ => 0, fun _ => 0⟩

theorem truncatedHeader_uploaded :
    (∀ ret vmr buf, ¬ RegionRead (libReadPlain fun _ => .whole) (plainConfig false)
      (staleHeader 0) ⟨[1, 2, 3, 4], 4096, [], 0⟩ ret vmr buf) ∧
    ∃ vmr buf r' st',
      readVmRegionVia (libReadPlain fun _ => .whole) (plainConfig false) (staleHeader 0)
        ⟨[1, 2, 3, 4], 4096, [], 0⟩ = .returns (4, vmr, buf, r') ∧
      uploadRound (plainConfig false) ⟨libReadPlain fun _ => .whole, fun _ => false, staleHeader⟩
        (Upload.start [1, 2, 3, 4] 4096) = .returns (.inr st') ∧
      st'.uploaded.map Region.vmr = [⟨67305985, 4096⟩] := by
  refine ⟨?_, _, _, _, _, rfl, rfl, rfl⟩
  rintro ret vmr buf ⟨r₁, r₂, hread, -⟩
  have hfour : libReadPlain (fun _ => .whole) vmRegionSize vmRegionSize
      ⟨[1, 2, 3, 4], 4096, [], 0⟩ = .returns (4, [1, 2, 3, 4], ⟨[], 4096, [], 1⟩) := rfl
  have hret := (Prod.mk.inj (Outcome.returns.inj (hfour.symm.trans hread))).1
  exact absurd hret (by decide)

end Memcr.DumpLayers
