import Memcr.DumpRestore

namespace Memcr.DumpRoundTrip

open Memcr.ByteWords
open Memcr.ByteMemory
open Memcr.CallOutcome
open Memcr.DumpFormat
open Memcr.DumpRestore

/-- `write_vm_region`, with `dumped_vm_size` in the word that it is kept in. -/
def writeVmRegionWord (cfg : Config) (io : Nat → Option Nat) (region : Region) (w : Writer) :
    Outcome (Int × Writer) :=
  (writeVmRegion cfg io region w).andThen fun (ret, w) =>
    .returns (ret, { w with dumpedVmSize := w.dumpedVmSize % 2 ^ 64 })

/-- The results of writing a list of regions in order. -/
def writeAll (cfg : Config) (io : Nat → Option Nat) :
    List Region → Writer → Outcome (List Int × Writer)
  | [], w => .returns ([], w)
  | region :: rest, w =>
      (writeVmRegionWord cfg io region w).andThen fun (ret, w) =>
        (writeAll cfg io rest w).andThen fun (rets, w) => .returns (ret :: rets, w)

/-- `read_vm_region` until its result is not positive: the regions read and that
last result. -/
def readAll (cfg : Config) (fails : Nat → Bool) :
    Nat → Memory → Reader → Outcome (List (VmRegion × List Byte) × Int × Reader)
  | 0, _, _ => .hangs
  | rounds + 1, buf, r =>
      (readVmRegion cfg fails buf r).andThen fun (ret, vmr, buf, r) =>
        if 0 < ret then
          (readAll cfg fails rounds buf r).andThen fun (regions, last, r) =>
            .returns ((vmr, slice buf 0 vmr.len.toNat) :: regions, last, r)
        else .returns ([], ret, r)

/-- Every block that fits the region buffer can be compressed. -/
def Total (codec : Codec) : Prop :=
  ∀ data, data ≠ [] → data.length ≤ maxVmRegionSize → (codec.compress data).isSome = true

/-- A region of whole pages that fits the region buffer. -/
structure WholePages (pageSize : Nat) (region : Region) : Prop where
  addr_aligned : region.vmr.addr.toNat % pageSize = 0
  len_aligned : region.vmr.len.toNat % pageSize = 0
  len_pos : 0 < region.vmr.len.toNat
  len_le : region.vmr.len.toNat ≤ maxVmRegionSize

/-- How many bytes the regions hold. -/
def size (regions : List Region) : Nat := (regions.map fun r => r.vmr.len.toNat).sum

/-- Every region is written with a positive result. Read from where writing
began, they come back as they were, in their order and up to the end of the
file, and `dumped_vm_size` is again what it was. -/
def RoundTrip (cfg : Config) (regions : List Region) (w : Writer) (buf : Memory) (rounds : Nat) :
    Prop :=
  ∃ rets w' r', writeAll cfg (fun _ => none) regions w = .returns (rets, w') ∧
    (∀ ret ∈ rets, 0 < ret) ∧
    readAll cfg (fun _ => false) rounds buf
        ⟨w'.file.drop w.file.length, w'.dumpedVmSize, [], 0⟩ =
      .returns (regions.map fun r => (r.vmr, r.data), 0, r') ∧
    r'.dumpedVmSize = w.dumpedVmSize

variable {cfg : Config} {regions : List Region} {region : Region} {w : Writer}

theorem payload_isSome (hlz4 : Total cfg.codecs.lz4) (hzstd : Total cfg.codecs.zstd)
    {data : List Byte} (hne : data ≠ []) (hle : data.length ≤ maxVmRegionSize) :
    (payload? cfg.codecs cfg.algorithm data).isSome = true := by
  cases cfg.algorithm with
  | plain => rfl
  | lz4 => simpa [payload?] using hlz4 data hne hle
  | zstd => simpa [payload?] using hzstd data hne hle

theorem WholePages.stored {shift : Nat} (hpage : cfg.pageSize = 2 ^ shift)
    (hlz4 : Total cfg.codecs.lz4) (hzstd : Total cfg.codecs.zstd)
    (h : WholePages cfg.pageSize region) : Stored cfg region := by
  have hne : region.data ≠ [] := by
    apply List.ne_nil_of_length_pos
    rw [region.length_eq]
    exact h.len_pos
  have haddr : region.vmr.addr.toNat &&& (cfg.pageSize - 1) = 0 := by
    rw [hpage, Nat.and_two_pow_sub_one_eq_mod, ← hpage]
    exact h.addr_aligned
  refine ⟨?_, h.len_pos, h.len_le, payload_isSome hlz4 hzstd hne ?_⟩
  · simp [vmRegionValid, haddr, h.len_aligned]
  · rw [region.length_eq]
    exact h.len_le

section Writing

theorem dumpWrite_exact {bytes : List Byte} (hne : bytes ≠ []) (w : Writer) :
    dumpWrite (fun _ => none) bytes w =
      .returns (true, { w with file := w.file ++ bytes, writes := w.writes + 1 }) := by
  simp [dumpWrite, hne]

theorem codecWrite_exact {codec : Codec} {data : List Byte} (w : Writer)
    (h : (codec.compress data).isSome = true) (hle : data.length ≤ maxVmRegionSize) :
    ∃ w', codecWrite (fun _ => none) codec data w = .returns ((data.length : Int), w') := by
  obtain ⟨dst, hdst⟩ := Option.isSome_iff_exists.mp h
  have hword : toBytes 4 dst.length ≠ [] := List.ne_nil_of_length_pos (by simp)
  have hlen : toInt32 data.length = data.length :=
    toInt32_of_lt (by simp only [maxVmRegionSize] at hle; omega)
  simp only [codecWrite, hdst, dumpWrite_exact hword,
    dumpWrite_exact (codec.compress_nonempty hdst), Outcome.returns_andThen, if_true, hlen]
  exact ⟨_, rfl⟩

theorem compressWrite_exact {data : List Byte} (w : Writer) (hne : data ≠ [])
    (hpayload : (payload? cfg.codecs cfg.algorithm data).isSome = true)
    (hle : data.length ≤ maxVmRegionSize) :
    ∃ w', compressWrite (fun _ => none) cfg.codecs cfg.algorithm data w =
      .returns ((data.length : Int), w') := by
  cases halg : cfg.algorithm with
  | plain =>
      refine ⟨{ w with file := w.file ++ data, writes := w.writes + 1 }, ?_⟩
      have hlen : toInt32 data.length = data.length :=
        toInt32_of_lt (by simp only [maxVmRegionSize] at hle; omega)
      simp [compressWrite, plainWrite, dumpWrite_exact hne, hlen]
  | lz4 =>
      rw [halg] at hpayload
      exact codecWrite_exact w (by simpa [payload?] using hpayload) hle
  | zstd =>
      rw [halg] at hpayload
      exact codecWrite_exact w (by simpa [payload?] using hpayload) hle

theorem writeVmRegion_stored (hstored : Stored cfg region) (w : Writer) :
    ∃ w', writeVmRegion cfg (fun _ => none) region w =
      .returns ((region.vmr.len.toNat : Int), w') := by
  have hpos := hstored.len_pos
  have hle := hstored.len_le
  have hheader : region.vmr.bytes ≠ [] := List.ne_nil_of_length_pos (by simp [vmRegionSize])
  rw [← region.length_eq] at hpos hle ⊢
  obtain ⟨w', hbody⟩ := compressWrite_exact
    { w with file := w.file ++ region.vmr.bytes, writes := w.writes + 1 }
    (List.ne_nil_of_length_pos hpos) hstored.payload hle
  simp only [writeVmRegion, hstored.valid, Bool.not_true, Bool.false_eq_true, if_false,
    dumpWrite_exact hheader, Outcome.returns_andThen, hbody,
    show ¬ (region.data.length : Int) < 0 by omega]
  split
  · exact ⟨_, rfl⟩
  · exact ⟨_, rfl⟩

theorem writeAll_stored (hstored : ∀ region ∈ regions, Stored cfg region) (w : Writer)
    (hword : w.dumpedVmSize < 2 ^ 64) :
    ∃ w', writeAll cfg (fun _ => none) regions w =
        .returns (regions.map fun r => (r.vmr.len.toNat : Int), w') ∧
      w'.file = w.file ++ regions.flatMap (Region.frame cfg) ∧
      w'.dumpedVmSize = (w.dumpedVmSize + size regions) % 2 ^ 64 := by
  induction regions generalizing w with
  | nil => exact ⟨w, rfl, by simp, (Nat.mod_eq_of_lt hword).symm⟩
  | cons region rest ih =>
      have hregion := hstored region (by simp)
      have hpos := hregion.len_pos
      obtain ⟨w₁, hwrite⟩ := writeVmRegion_stored hregion w
      obtain ⟨-, -, -, hfile, hsize, -⟩ := writeVmRegion_pos hwrite (by omega)
      obtain ⟨w', hrest, hfile', hsize'⟩ := ih (fun r hr => hstored r (by simp [hr]))
        { w₁ with dumpedVmSize := w₁.dumpedVmSize % 2 ^ 64 } (Nat.mod_lt _ (by positivity))
      refine ⟨w', ?_, ?_, ?_⟩
      · simp only [writeAll, writeVmRegionWord, hwrite, Outcome.returns_andThen, hrest,
          List.map_cons]
      · rw [hfile', hfile, List.flatMap_cons, List.append_assoc]
      · rw [hsize', hsize, Nat.mod_add_mod, size, size, List.map_cons, List.sum_cons]
        congr 1
        omega

end Writing

section Reading

theorem readVmRegion_budget {fails : Nat → Bool} {buf buf' : Memory} {r r' : Reader} {ret : Int}
    {vmr : VmRegion} (h : readVmRegion cfg fails buf r = .returns (ret, vmr, buf', r')) :
    r'.dumpedVmSize ≤ r.dumpedVmSize ∧
      (0 < ret → r'.dumpedVmSize + vmr.len.toNat = r.dumpedVmSize) := by
  obtain ⟨⟨ret₁, header, r₁⟩, hheader, hnext⟩ := Outcome.andThen_eq_returns.mp h
  obtain ⟨hret₁, hkeeps₁⟩ := dumpRead_returns hheader
  have hsize₁ := hkeeps₁.dumpedVmSize
  simp only at hnext
  split at hnext
  · rename_i hne
    cases hnext
    refine ⟨by omega, fun hpos => ?_⟩
    rcases hret₁ with heq | heq | heq
    · exact absurd heq hne
    · omega
    · omega
  · split at hnext
    · cases hnext
      exact ⟨by omega, fun hpos => by omega⟩
    · split at hnext
      · cases hnext
        exact ⟨by simp only; omega, fun hpos => by omega⟩
      · obtain ⟨⟨ret₂, buf₂, r₂⟩, hbody, hlast⟩ := Outcome.andThen_eq_returns.mp hnext
        have hsize₂ := (compressRead_keeps hbody).dumpedVmSize
        simp only at hlast hsize₂
        split at hlast
        · cases hlast
          exact ⟨by omega, fun hpos => by omega⟩
        · split at hlast
          · split at hlast
            · cases hlast
            · cases hlast
              exact ⟨by simp only; omega, fun _ => by simp only; omega⟩
          · cases hlast
            exact ⟨by omega, fun _ => by omega⟩

theorem readAll_budget {fails : Nat → Bool} {rounds : Nat} {buf : Memory} {r r' : Reader}
    {read : List (VmRegion × List Byte)} {last : Int}
    (h : readAll cfg fails rounds buf r = .returns (read, last, r')) :
    r'.dumpedVmSize + (read.map fun region => region.1.len.toNat).sum ≤ r.dumpedVmSize := by
  induction rounds generalizing buf r read with
  | zero => cases h
  | succ rounds ih =>
      obtain ⟨⟨ret, vmr, buf', r₁⟩, hread, hnext⟩ := Outcome.andThen_eq_returns.mp h
      obtain ⟨hle, htaken⟩ := readVmRegion_budget hread
      simp only at hnext
      split at hnext
      · rename_i hpos
        obtain ⟨⟨more, last', r₂⟩, hmore, hlast⟩ := Outcome.andThen_eq_returns.mp hnext
        cases hlast
        have hrest := ih hmore
        have hfirst := htaken hpos
        simp only [List.map_cons, List.sum_cons] at hrest ⊢
        omega
      · cases hnext
        simpa using hle

theorem readAll_frames (hstored : ∀ region ∈ regions, Stored cfg region) {rounds : Nat}
    (hrounds : regions.length < rounds) (buf : Memory) (r : Reader)
    (hrest : r.rest = regions.flatMap (Region.frame cfg))
    (hsize : size regions ≤ r.dumpedVmSize) :
    ∃ r', readAll cfg (fun _ => false) rounds buf r =
        .returns (regions.map fun region => (region.vmr, region.data), 0, r') ∧
      r'.dumpedVmSize = r.dumpedVmSize - size regions := by
  induction regions generalizing rounds buf r with
  | nil =>
      obtain ⟨more, rfl⟩ : ∃ more, rounds = more + 1 := Nat.exists_eq_succ_of_ne_zero (by omega)
      have hempty : r.rest.length < vmRegionSize := by
        rw [hrest, List.flatMap_nil]
        decide
      obtain ⟨ret, vmr, buf', r', hread, ⟨-, i, hfail⟩ | ⟨rfl, hkeeps⟩⟩ :=
        readVmRegion_cut_header cfg (fun _ => false) buf hempty
      · cases hfail
      · refine ⟨r', ?_, by simpa [size] using hkeeps.dumpedVmSize⟩
        rw [readAll, hread]
        rfl
  | cons region rest ih =>
      obtain ⟨more, rfl⟩ : ∃ more, rounds = more + 1 := Nat.exists_eq_succ_of_ne_zero (by omega)
      have hregion := hstored region (by simp)
      have hpos := hregion.len_pos
      rw [List.flatMap_cons] at hrest
      simp only [size, List.map_cons, List.sum_cons] at hsize ⊢
      obtain ⟨ret, vmr, buf', r₁, hread, ⟨-, i, hfail⟩ | ⟨rfl, rfl, hslice, reads, rfl⟩⟩ :=
        readVmRegion_frame (fun _ => false) buf hregion hrest (by omega)
      · cases hfail
      · obtain ⟨r', hmore, hleft⟩ := ih (fun r hr => hstored r (by simp [hr]))
          (by simpa using hrounds) buf' (r.pass cfg region (rest.flatMap (Region.frame cfg)) reads)
          rfl (by simp only [Reader.pass, size]; omega)
        refine ⟨r', ?_, ?_⟩
        · simp only [readAll, hread, Outcome.returns_andThen, hmore, hslice,
            show (0 : Int) < region.vmr.len.toNat by omega, if_true]
        · rw [hleft]
          simp only [Reader.pass, size]
          omega

end Reading

theorem RoundTrip.fits {buf : Memory} {rounds : Nat} (h : RoundTrip cfg regions w buf rounds)
    (hstored : ∀ region ∈ regions, Stored cfg region) (hword : w.dumpedVmSize < 2 ^ 64) :
    w.dumpedVmSize + size regions < 2 ^ 64 := by
  obtain ⟨rets, w', r', hwrite, -, hread, hback⟩ := h
  obtain ⟨w₁, hwrite₁, -, hsize⟩ := writeAll_stored hstored w hword
  cases hwrite.symm.trans hwrite₁
  have hbudget := readAll_budget hread
  rw [List.map_map, hback, hsize] at hbudget
  exact lt_of_le_of_lt hbudget (Nat.mod_lt _ (by positivity))

/-- Regions of whole pages survive the way into the file and back, whatever the
back end, exactly when the bytes written fit into `dumped_vm_size`. -/
theorem dump_round_trip_iff (cfg : Config) (shift : Nat) (hpage : cfg.pageSize = 2 ^ shift)
    (hlz4 : Total cfg.codecs.lz4) (hzstd : Total cfg.codecs.zstd) (regions : List Region)
    (hregions : ∀ region ∈ regions, WholePages cfg.pageSize region) (w : Writer)
    (hword : w.dumpedVmSize < 2 ^ 64) (buf : Memory) (rounds : Nat)
    (hrounds : regions.length < rounds) :
    RoundTrip cfg regions w buf rounds ↔ w.dumpedVmSize + size regions < 2 ^ 64 := by
  have hstored : ∀ region ∈ regions, Stored cfg region :=
    fun region hregion => (hregions region hregion).stored hpage hlz4 hzstd
  constructor
  · intro h
    exact h.fits hstored hword
  · intro hfits
    obtain ⟨w', hwrite, hfile, hsize⟩ := writeAll_stored hstored w hword
    rw [Nat.mod_eq_of_lt hfits] at hsize
    obtain ⟨r', hread, hleft⟩ := readAll_frames hstored hrounds buf
      ⟨w'.file.drop w.file.length, w'.dumpedVmSize, [], 0⟩
      (by simp [hfile]) (by simp only [hsize]; omega)
    refine ⟨_, w', r', hwrite, ?_, hread, ?_⟩
    · intro ret hret
      obtain ⟨region, hregion, rfl⟩ := List.mem_map.mp hret
      have hpos := (hstored region hregion).len_pos
      omega
    · rw [hleft]
      simp only [hsize]
      omega

theorem verbatimCodec_total : Total verbatimCodec := by
  intro data hne hle
  simp [verbatimCodec, hne, hle]

theorem pages_wholePages : ∀ region ∈ [zeroPage, onesPages], WholePages 4096 region := by
  simp only [List.forall_mem_cons, List.not_mem_nil, false_implies, implies_true, and_true]
  exact ⟨⟨by decide, by decide, by decide, by decide⟩, ⟨by decide, by decide, by decide, by decide⟩⟩

theorem dump_round_trip_pages :
    RoundTrip (plainConfig true) [zeroPage, onesPages] Writer.start (fun _ => 0) 3 :=
  (dump_round_trip_iff (plainConfig true) 12 rfl verbatimCodec_total verbatimCodec_total
    [zeroPage, onesPages] pages_wholePages Writer.start (by decide) (fun _ => 0) 3
    (by decide)).mpr (by decide)

/-- The longest region there is. -/
def longRegion : Region where
  vmr := { addr := 4096, len := 1048576 }
  data := List.replicate 1048576 0
  length_eq := List.length_replicate

theorem longRegion_wholePages : WholePages 4096 longRegion :=
  ⟨by decide, by decide, by decide, by decide⟩

theorem size_replicate (n : Nat) (region : Region) :
    size (List.replicate n region) = n * region.vmr.len.toNat := by
  simp [size]

theorem dump_round_trip_wraps :
    (∀ region ∈ List.replicate (2 ^ 44) longRegion, WholePages 4096 region) ∧
      ∀ buf rounds, ¬ RoundTrip (plainConfig false) (List.replicate (2 ^ 44) longRegion)
        Writer.start buf rounds := by
  have hwhole : ∀ region ∈ List.replicate (2 ^ 44) longRegion, WholePages 4096 region := by
    intro region hregion
    rw [List.eq_of_mem_replicate hregion]
    exact longRegion_wholePages
  have hpage : (plainConfig false).pageSize = 2 ^ 12 := rfl
  have hstored : ∀ region ∈ List.replicate (2 ^ 44) longRegion,
      Stored (plainConfig false) region :=
    fun region hregion =>
      (hwhole region hregion).stored hpage verbatimCodec_total verbatimCodec_total
  refine ⟨hwhole, fun buf rounds h => ?_⟩
  have hfits := h.fits hstored (by decide)
  rw [size_replicate] at hfits
  exact absurd hfits (by decide)

end Memcr.DumpRoundTrip
