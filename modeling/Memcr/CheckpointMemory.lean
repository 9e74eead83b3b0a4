import Memcr.DumpRestore
import Memcr.PageSelection

/-!
What a checkpoint and a restore do to the memory of the target:
`get_target_pages` with `get_vm_region` and `free_vm_region` of memcr.c on one
side of the socket, `cmd_get_pages` and `cmd_set_pages` of parasite.c on the
other. The parasite answers requests in order but in its own time, so a request
that nobody waits for stays outstanding until it gets to it.
-/

namespace Memcr.CheckpointMemory

open Memcr.ByteWords
open Memcr.ByteMemory
open Memcr.CallOutcome
open Memcr.DumpFormat
open Memcr.DumpRestore
open Memcr.PageSelection

/-- The options, the pages of the target and the outcome of every call. -/
structure CheckpointEnv where
  procMem : Bool
  rssFile : Bool
  table : PageTable
  /-- `/proc/<pid>/pagemap` can be opened; otherwise the parasite reads it. -/
  pagemapOpens : Bool
  pagemapReads : Nat → Bool
  dumpOpens : Bool
  memOpens : Bool
  parasiteConnects : Bool
  /-- The `CMD_GET_PAGES` byte is sent. -/
  commandSent : Bool
  /-- Failing calls among those counted in `Download.calls`. -/
  fails : Nat → Bool
  /-- Failing `dump_write` calls. -/
  io : Nat → Option Nat
  /-- How many outstanding requests are carried out before a call. -/
  carriedOut : Nat → Nat
  /-- `is_checkpoint_aborted`, asked before each mapping. -/
  aborted : Nat → Bool

/-- The state of `get_target_pages`. The parasite answers requests in order but in its
own time, so a request that nobody waits for stays outstanding until it gets to it. -/
structure Download where
  mem : Memory
  /-- `MADV_DONTNEED` requests the parasite has not carried out yet. -/
  outstanding : List VmRegion
  writer : Writer
  calls : Nat

/-- The page of an address keeps its content under `MADV_DONTNEED`. -/
def Reloads (pageSize : Nat) (table : PageTable) (a : Nat) : Bool :=
  (table.entry (a / pageSize)).getLsbD pmPageFileOrSharedAnon

/-- `madvise(MADV_DONTNEED)`: pages that cannot be loaded again from a file read as zero. -/
def madviseDontneed (pageSize : Nat) (table : PageTable) (mem : Memory) (vmr : VmRegion) :
    Memory :=
  fun a =>
    if Within vmr.addr.toNat vmr.len.toNat a ∧ Reloads pageSize table a = false then 0
    else mem a

/-- The parasite carries out the first `count` outstanding requests. -/
def carryOut (pageSize : Nat) (table : PageTable) (count : Nat) (d : Download) : Download :=
  { d with
    mem := (d.outstanding.take count).foldl (madviseDontneed pageSize table) d.mem
    outstanding := d.outstanding.drop count }

/-- The region with the contents that the memory has at its place. -/
def regionAt (mem : Memory) (vmr : VmRegion) : Region where
  vmr := vmr
  data := slice mem vmr.addr.toNat vmr.len.toNat
  length_eq := slice_length _ _ _

/-- The last line of `get_vm_region`. -/
def writeDownload (cfg : Config) (env : CheckpointEnv) (region : Region) (d : Download) :
    Outcome (Int × Download) :=
  (writeVmRegion cfg env.io region d.writer).andThen fun (ret, w) =>
    .returns (ret, { d with writer := w })

/-- `get_vm_region`; `write` is its last line, which calls `write_vm_region`. -/
def fetchVmRegion (write : Region → Download → Outcome (Int × Download)) (cfg : Config)
    (env : CheckpointEnv) (addr len : Nat) (d : Download) : Outcome (Int × Download) :=
  let vmr : VmRegion := { addr := BitVec.ofNat 64 addr, len := BitVec.ofNat 64 len }
  if env.procMem then
    -- read from /proc/<pid>/mem, then ask for the pages to be dropped
    if env.fails d.calls then .returns (-1, { d with calls := d.calls + 1 })
    else if maxVmRegionSize < len then .overruns
    else
      let d := carryOut cfg.pageSize env.table (env.carriedOut d.calls) d
      let region := regionAt d.mem vmr
      if env.fails (d.calls + 1) then .returns (-1, { d with calls := d.calls + 2 })
      else
        write region { d with outstanding := d.outstanding ++ [vmr], calls := d.calls + 2 }
  else
    -- the parasite sends the region and drops it afterwards
    if env.fails d.calls then .returns (-1, { d with calls := d.calls + 1 })
    else
      let d := carryOut cfg.pageSize env.table d.outstanding.length d
      if env.fails (d.calls + 1) then
        .returns (-1, { d with outstanding := [vmr], calls := d.calls + 2 })
      else if maxVmRegionSize < len then .overruns
      else write (regionAt d.mem vmr) { d with outstanding := [vmr], calls := d.calls + 2 }

/-- `get_vm_region` -/
def getVmRegion (cfg : Config) (env : CheckpointEnv) (addr len : Nat) (d : Download) :
    Outcome (Int × Download) :=
  fetchVmRegion (writeDownload cfg env) cfg env addr len d

/-- `free_vm_region` -/
def freeVmRegion (env : CheckpointEnv) (addr len : Nat) (d : Download) :
    Outcome (Int × Download) :=
  let vmr : VmRegion := { addr := BitVec.ofNat 64 addr, len := BitVec.ofNat 64 len }
  if env.fails d.calls then .returns (-1, { d with calls := d.calls + 1 })
  else
    .returns (0, { d with outstanding := d.outstanding ++ [vmr], calls := d.calls + 1 })

/-- What the page loop does with a run of pages. -/
def regionOps (cfg : Config) (env : CheckpointEnv) : RegionOps Download where
  getVmRegion := getVmRegion cfg env
  freeVmRegion := freeVmRegion env

section Mappings

variable (ops : RegionOps Download) (cfg : Config) (env : CheckpointEnv)

/-- `get_vma_pages`, over what is done with a run of pages. The parasite's answer to a
pagemap request is compared as an `int`, so it is an error for a mapping of 2^28 pages or
more. -/
def vmaPages (vma : VmArea cfg.pageSize) (d : Download) : Outcome (Int × Download) :=
  if env.pagemapOpens then
    if env.fails d.calls then .returns (-1, { d with calls := d.calls + 1 })
    else
      pageLoop ops (visitPage env.rssFile env.table env.pagemapReads vma)
        vma.nrpages 0 0 0 { d with calls := d.calls + 1 }
  else if env.fails d.calls || env.fails (d.calls + 1) ||
      decide (2 ^ 31 ≤ vma.nrpages * 8) then
    .returns (-1, { d with calls := d.calls + 2 })
  else
    let d := carryOut cfg.pageSize env.table d.outstanding.length d
    pageLoop ops (visitPage env.rssFile env.table (fun _ => true) vma)
      vma.nrpages 0 0 0 { d with calls := d.calls + 2 }

/-- The loop of `get_target_pages` over whatever is done with a mapping. -/
def mappingLoop {pageSize : Nat} {State : Type}
    (pages : VmArea pageSize → State → Outcome (Int × State)) (aborted : Nat → Bool) :
    Nat → List (VmArea pageSize) → State → Outcome (Int × State)
  | _, [], s => .returns (0, s)
  | idx, vma :: rest, s =>
      if aborted idx then .returns (0, s)
      else
        (pages vma s).andThen fun (ret, s) =>
          if ret ≠ 0 then .returns (ret, s) else mappingLoop pages aborted (idx + 1) rest s

/-- `get_target_pages`, over what is done with a run of pages. -/
def targetPages (vmas : List (VmArea cfg.pageSize)) (mem : Memory) : Outcome (Int × Download) :=
  let d : Download := { mem := mem, outstanding := [], writer := Writer.start, calls := 0 }
  if !env.dumpOpens then .returns (-1, d)
  else if env.procMem && !env.memOpens then .returns (-1, d)
  else if !env.parasiteConnects then .returns (-1, d)
  else if !env.commandSent then .returns (-1, d)
  else mappingLoop (vmaPages ops cfg env) env.aborted 0 vmas d

end Mappings

/-- `get_vma_pages` -/
def getVmaPages (cfg : Config) (env : CheckpointEnv) (vma : VmArea cfg.pageSize) (d : Download) :
    Outcome (Int × Download) :=
  vmaPages (regionOps cfg env) cfg env vma d

/-- `get_target_pages` -/
def getTargetPages (cfg : Config) (env : CheckpointEnv) (vmas : List (VmArea cfg.pageSize))
    (mem : Memory) : Outcome (Int × Download) :=
  targetPages (regionOps cfg env) cfg env vmas mem

/-- The memory once the parasite has seen the end of the connection and goes
back to its `accept`. -/
def memoryAfter (pageSize : Nat) (table : PageTable) (d : Download) : Memory :=
  (carryOut pageSize table d.outstanding.length d).mem

/-- `cmd_set_pages` for the regions that arrive on its connection. -/
def cmdSetPages (mem : Memory) (regions : List Region) : Memory :=
  regions.foldl (fun mem region => store mem region.vmr.addr.toNat region.data) mem

def Covered (regions : List Region) (a : Nat) : Prop :=
  ∃ region ∈ regions, Within region.vmr.addr.toNat region.vmr.len.toNat a

/-- Dropping the region loses no byte that is not in the dump. -/
def Droppable (pageSize : Nat) (table : PageTable) (regions : List Region)
    (vmr : VmRegion) : Prop :=
  ∀ a, Within vmr.addr.toNat vmr.len.toNat a →
    Reloads pageSize table a = true ∨ Covered regions a

/-- The dump holds `regions` as they were in `mem₀`, none of them reaches into
the addresses still to be visited, and no other byte has changed or is about to. -/
structure Consistent (cfg : Config) (table : PageTable) (mem₀ : Memory) (future : Nat → Prop)
    (regions : List Region) (d : Download) : Prop where
  stored : ∀ region ∈ regions, Stored cfg region
  file : d.writer.file = regions.flatMap (Region.frame cfg)
  size : d.writer.dumpedVmSize = (regions.map fun r => r.vmr.len.toNat).sum
  original : ∀ region ∈ regions, region = regionAt mem₀ region.vmr
  past : ∀ a, Covered regions a → ¬ future a
  mem : ∀ a, d.mem a = mem₀ a ∨ Covered regions a
  outstanding : ∀ vmr ∈ d.outstanding, Droppable cfg.pageSize table regions vmr

theorem madviseDontneed_eq_or_covered {pageSize : Nat} {table : PageTable} {mem mem₀ : Memory}
    {regions : List Region} {vmr : VmRegion} (hdrop : Droppable pageSize table regions vmr)
    (hmem : ∀ a, mem a = mem₀ a ∨ Covered regions a) (a : Nat) :
    madviseDontneed pageSize table mem vmr a = mem₀ a ∨ Covered regions a := by
  simp only [madviseDontneed]
  split
  · rename_i hdropped
    rcases hdrop a hdropped.1 with hreload | hcovered
    · simp [hreload] at hdropped
    · exact Or.inr hcovered
  · exact hmem a

theorem foldl_madviseDontneed_eq_or_covered {pageSize : Nat} {table : PageTable}
    {mem mem₀ : Memory} {regions : List Region} {vmrs : List VmRegion}
    (hdrop : ∀ vmr ∈ vmrs, Droppable pageSize table regions vmr)
    (hmem : ∀ a, mem a = mem₀ a ∨ Covered regions a) :
    ∀ a, vmrs.foldl (madviseDontneed pageSize table) mem a = mem₀ a ∨ Covered regions a := by
  induction vmrs generalizing mem with
  | nil => exact hmem
  | cons vmr rest ih =>
      exact ih (fun v hv => hdrop v (by simp [hv]))
        (madviseDontneed_eq_or_covered (hdrop vmr (by simp)) hmem)

section Download

variable {cfg : Config} {env : CheckpointEnv} {mem₀ : Memory} {future : Nat → Prop}
  {regions : List Region} {d d' : Download}

theorem Consistent.carryOut (h : Consistent cfg env.table mem₀ future regions d)
    (count : Nat) :
    Consistent cfg env.table mem₀ future regions (carryOut cfg.pageSize env.table count d) :=
  { h with
    mem := foldl_madviseDontneed_eq_or_covered
      (fun vmr hvmr => h.outstanding vmr (List.mem_of_mem_take hvmr)) h.mem
    outstanding := fun vmr hvmr => h.outstanding vmr (List.mem_of_mem_drop hvmr) }

theorem Consistent.mono {future' : Nat → Prop}
    (h : Consistent cfg env.table mem₀ future regions d)
    (hfuture : ∀ a, future' a → future a) :
    Consistent cfg env.table mem₀ future' regions d :=
  { h with past := fun a hcovered hlater => h.past a hcovered (hfuture a hlater) }

theorem Consistent.calls (h : Consistent cfg env.table mem₀ future regions d) (calls : Nat) :
    Consistent cfg env.table mem₀ future regions { d with calls := calls } :=
  { h with }

theorem covered_append_singleton {region : Region} {a : Nat} :
    Covered (regions ++ [region]) a ↔
      Covered regions a ∨ Within region.vmr.addr.toNat region.vmr.len.toNat a := by
  simp [Covered, or_and_right, exists_or]

theorem Droppable.append {pageSize : Nat} {table : PageTable} {vmr : VmRegion}
    (h : Droppable pageSize table regions vmr) (region : Region) :
    Droppable pageSize table (regions ++ [region]) vmr := fun a ha =>
  (h a ha).imp id fun hcovered => covered_append_singleton.mpr (Or.inl hcovered)

theorem Consistent.regionAt_eq {vmr : VmRegion}
    (h : Consistent cfg env.table mem₀ future regions d)
    (hvisit : ∀ a, Within vmr.addr.toNat vmr.len.toNat a → future a) :
    regionAt d.mem vmr = regionAt mem₀ vmr := by
  apply Region.ext_iff_fields
  · rfl
  · apply slice_congr
    intro a ha
    rcases h.mem a with hsame | hcovered
    · exact hsame
    · exact absurd (hvisit a ha) (h.past a hcovered)

/-- The dump has grown by a region that was still to be visited, and its drop
request may be among the outstanding ones. -/
theorem Consistent.append {vmr : VmRegion} {outstanding : List VmRegion} {calls : Nat} {w : Writer}
    (h : Consistent cfg env.table mem₀ future regions d)
    (hstored : Stored cfg (regionAt mem₀ vmr))
    (hfile : w.file = d.writer.file ++ (regionAt mem₀ vmr).frame cfg)
    (hsize : w.dumpedVmSize = d.writer.dumpedVmSize + vmr.len.toNat)
    (houtstanding : ∀ v ∈ outstanding, v ∈ d.outstanding ∨ v = vmr) :
    Consistent cfg env.table mem₀
      (fun a => future a ∧ ¬ Within vmr.addr.toNat vmr.len.toNat a)
      (regions ++ [regionAt mem₀ vmr]) ⟨d.mem, outstanding, w, calls⟩ where
  stored := by
    intro region hmem
    rcases List.mem_append.mp hmem with hold | hnew
    · exact h.stored region hold
    · rw [List.mem_singleton.mp hnew]
      exact hstored
  file := by simp only [hfile, h.file, List.flatMap_append, List.flatMap_singleton]
  size := by simp [hsize, h.size, regionAt]
  original := by
    intro region hmem
    rcases List.mem_append.mp hmem with hold | hnew
    · exact h.original region hold
    · rw [List.mem_singleton.mp hnew]
      rfl
  past := by
    rintro a hcovered ⟨hfuture, hnot⟩
    rcases covered_append_singleton.mp hcovered with hold | hnew
    · exact h.past a hold hfuture
    · exact hnot hnew
  mem := by
    intro a
    exact (h.mem a).imp id fun hcovered => covered_append_singleton.mpr (Or.inl hcovered)
  outstanding := by
    intro v hv
    rcases houtstanding v hv with hold | rfl
    · exact (h.outstanding v hold).append _
    · exact fun a ha => Or.inr (covered_append_singleton.mpr (Or.inr ha))

/-- Writing out a region that was still to be visited, with its drop request
among the outstanding ones. -/
theorem Consistent.writeDownload {vmr : VmRegion} {outstanding : List VmRegion} {calls : Nat}
    {ret : Int} (h : Consistent cfg env.table mem₀ future regions d)
    (hpos : 0 < vmr.len.toNat) (hle : vmr.len.toNat ≤ maxVmRegionSize)
    (hvisit : ∀ a, Within vmr.addr.toNat vmr.len.toNat a → future a)
    (houtstanding : ∀ v ∈ outstanding, v ∈ d.outstanding ∨ v = vmr)
    (hwrite : CheckpointMemory.writeDownload cfg env (regionAt d.mem vmr)
      { d with outstanding := outstanding, calls := calls } = .returns (ret, d')) :
    ret ≠ 0 ∧ (0 < ret → Consistent cfg env.table mem₀
      (fun a => future a ∧ ¬ Within vmr.addr.toNat vmr.len.toNat a)
      (regions ++ [regionAt mem₀ vmr]) d') := by
  obtain ⟨⟨code, w⟩, hregion, hnext⟩ := Outcome.andThen_eq_returns.mp hwrite
  cases hnext
  rw [h.regionAt_eq hvisit] at hregion
  constructor
  · rintro rfl
    rcases writeVmRegion_ret hregion with hneg | hlen
    · omega
    · have hvalue : toInt32 vmr.len.toNat = vmr.len.toNat :=
        toInt32_of_lt (by simp only [maxVmRegionSize] at hle; omega)
      simp only [regionAt, hvalue] at hlen
      omega
  · intro hret
    obtain ⟨hvalid, hpayload, -, hfile, hsize, -⟩ := writeVmRegion_pos hregion hret
    exact h.append ⟨hvalid, hpos, hle, hpayload⟩ hfile hsize houtstanding

theorem ofNat_toNat_of_lt {n : Nat} (hn : n < 2 ^ 64) : (BitVec.ofNat 64 n).toNat = n :=
  (BitVec.toNat_ofNat n 64).trans (Nat.mod_eq_of_lt hn)

/-- What `get_vm_region` returns is an error, or what becomes of the region as it was
once the parasite had carried out some of the outstanding requests. -/
theorem fetchVmRegion_cases {write : Region → Download → Outcome (Int × Download)}
    {addr len : Nat} {ret : Int}
    (hget : fetchVmRegion write cfg env addr len d = .returns (ret, d')) :
    ret = -1 ∨ len ≤ maxVmRegionSize ∧ ∃ count outstanding calls,
      (∀ v ∈ outstanding, v ∈ (carryOut cfg.pageSize env.table count d).outstanding ∨
        v = ⟨BitVec.ofNat 64 addr, BitVec.ofNat 64 len⟩) ∧
      write (regionAt (carryOut cfg.pageSize env.table count d).mem
          ⟨BitVec.ofNat 64 addr, BitVec.ofNat 64 len⟩)
        { carryOut cfg.pageSize env.table count d with
          outstanding := outstanding, calls := calls } = .returns (ret, d') := by
  have hfail {e : Download} (he : Outcome.returns ((-1 : Int), e) = .returns (ret, d')) :
      ret = -1 := by
    cases he
    rfl
  simp only [fetchVmRegion] at hget
  split_ifs at hget with _ _ hlong _ _ _ hlong
  · exact Or.inl (hfail hget)
  · exact Or.inl (hfail hget)
  · refine Or.inr ⟨not_lt.mp hlong, _, _, _, fun v hv => ?_, hget⟩
    simpa using hv
  · exact Or.inl (hfail hget)
  · exact Or.inl (hfail hget)
  · refine Or.inr ⟨not_lt.mp hlong, _, _, _, fun v hv => ?_, hget⟩
    exact Or.inr (List.mem_singleton.mp hv)

theorem Consistent.getVmRegion {addr len : Nat} {ret : Int}
    (h : Consistent cfg env.table mem₀ future regions d)
    (hpos : 0 < len) (hle : len ≤ maxVmRegionSize) (hlt : addr + len < 2 ^ 64)
    (hvisit : ∀ a, Within addr len a → future a)
    (hget : CheckpointMemory.getVmRegion cfg env addr len d = .returns (ret, d')) :
    ret ≠ 0 ∧ (0 < ret → ∃ regions', Consistent cfg env.table mem₀
      (fun a => future a ∧ ¬ Within addr len a) regions' d') := by
  have haddr : (BitVec.ofNat 64 addr).toNat = addr := ofNat_toNat_of_lt (by omega)
  have hlen : (BitVec.ofNat 64 len).toNat = len := ofNat_toNat_of_lt (by omega)
  rcases fetchVmRegion_cases hget with rfl | ⟨-, count, outstanding, calls, hout, hwrite⟩
  · exact ⟨by omega, by omega⟩
  · obtain ⟨hne, hstep⟩ := (h.carryOut count).writeDownload (by rwa [hlen]) (by rwa [hlen])
      (by rwa [haddr, hlen]) hout hwrite
    rw [haddr, hlen] at hstep
    exact ⟨hne, fun hret => ⟨_, hstep hret⟩⟩

theorem Consistent.freeVmRegion {addr len : Nat}
    (h : Consistent cfg env.table mem₀ future regions d) (hlt : addr + len < 2 ^ 64)
    (hpages : FilePages cfg.pageSize env.table addr len)
    (hfree : CheckpointMemory.freeVmRegion env addr len d = .returns (0, d')) :
    Consistent cfg env.table mem₀ future regions d' := by
  have haddr : (BitVec.ofNat 64 addr).toNat = addr := ofNat_toNat_of_lt (by omega)
  have hlen : (BitVec.ofNat 64 len).toNat = len := ofNat_toNat_of_lt (by omega)
  simp only [CheckpointMemory.freeVmRegion] at hfree
  split at hfree
  · cases hfree
  · cases hfree
    refine { h with outstanding := ?_ }
    intro v hv
    rcases List.mem_append.mp hv with hold | hnew
    · exact h.outstanding v hold
    · rw [List.mem_singleton.mp hnew]
      intro a ha
      rw [haddr, hlen] at ha
      exact Or.inl (hpages a ha)

/-- The addresses of one mapping from `next` on, and those of later mappings. -/
def Ahead (vma : VmArea cfg.pageSize) (later : Nat → Prop) (next a : Nat) : Prop :=
  later a ∨ (next ≤ a ∧ a < vma.stop)

/-- What the two operations on a run of pages keep, given the addresses that are still to
be visited, and what the requests outside of them keep. -/
structure Keeps (ops : RegionOps Download) (cfg : Config) (env : CheckpointEnv)
    (Inv : (Nat → Prop) → Download → Prop) : Prop where
  mono : ∀ {future future' : Nat → Prop} {d}, Inv future d → (∀ a, future' a → future a) →
    Inv future' d
  calls : ∀ {future d}, Inv future d → ∀ calls, Inv future { d with calls := calls }
  carryOut : ∀ {future d}, Inv future d → ∀ count,
    Inv future (carryOut cfg.pageSize env.table count d)
  getVmRegion : ∀ {future addr len ret d d'}, Inv future d → 0 < len → len ≤ maxVmRegionSize →
    addr + len < 2 ^ 64 → (∀ a, Within addr len a → future a) →
    ops.getVmRegion addr len d = .returns (ret, d') →
    ret ≠ 0 ∧ (0 < ret → Inv (fun a => future a ∧ ¬ Within addr len a) d')
  freeVmRegion : ∀ {future addr len d d'}, Inv future d → addr + len < 2 ^ 64 →
    FilePages cfg.pageSize env.table addr len →
    ops.freeVmRegion addr len d = .returns (0, d') → Inv future d'

section Loops

variable {ops : RegionOps Download} {Inv : (Nat → Prop) → Download → Prop}

theorem Keeps.pageLoop (hkeeps : Keeps ops cfg env Inv) {vma : VmArea cfg.pageSize}
    {later : Nat → Prop} {reads : Nat → Bool} (hreads : ∀ page, reads page = true)
    (hdvd : cfg.pageSize ∣ maxVmRegionSize)
    (hlater : ∀ a, vma.start ≤ a → a < vma.stop → ¬ later a)
    (h : Inv (Ahead vma later vma.start) d)
    (hloop : pageLoop ops (visitPage env.rssFile env.table reads vma) vma.nrpages 0 0 0 d =
      .returns (0, d')) : Inv later d' := by
  have hstop := vma.stop_lt
  obtain ⟨next, -, hstart, h'⟩ := pageLoop_visitPage_spec hreads hdvd
    (fun next d => vma.start ≤ next ∧ Inv (Ahead vma later next) d)
    (fun {next a l s ret s'} hI hcollected hle hget => by
      obtain ⟨hnext, hs⟩ := hI
      have hfit := hcollected.le.trans vma.address_nrpages.le
      have hbehind := hcollected.next_le
      obtain ⟨hne, hstep⟩ := hkeeps.getVmRegion hs hcollected.pos hle (by omega)
        (fun x hx => Or.inr ⟨by have := hx.1; omega, by have := hx.2; omega⟩) hget
      refine ⟨hne, fun hret => ⟨by omega, hkeeps.mono (hstep hret) ?_⟩⟩
      rintro x (hx | ⟨hlow, hhigh⟩)
      · refine ⟨Or.inl hx, fun hwithin => ?_⟩
        exact hlater x (by have := hwithin.1; omega) (by have := hwithin.2; omega) hx
      · exact ⟨Or.inr ⟨by omega, hhigh⟩, fun hwithin => by have := hwithin.2; omega⟩)
    (fun {next a l s s'} hI hcollected hpages hfree => by
      obtain ⟨hnext, hs⟩ := hI
      have hfit := hcollected.le.trans vma.address_nrpages.le
      have hbehind := hcollected.next_le
      refine ⟨by omega, hkeeps.mono (hkeeps.freeVmRegion hs (by omega) hpages hfree) ?_⟩
      rintro x (hx | ⟨hlow, hhigh⟩)
      · exact Or.inl hx
      · exact Or.inr ⟨by omega, hhigh⟩)
    ⟨le_rfl, h⟩ hloop
  exact hkeeps.mono h' fun a ha => Or.inl ha

theorem Keeps.vmaPages (hkeeps : Keeps ops cfg env Inv) {vma : VmArea cfg.pageSize}
    {later : Nat → Prop} (hreads : ∀ page, env.pagemapReads page = true)
    (hdvd : cfg.pageSize ∣ maxVmRegionSize)
    (hlater : ∀ a, vma.start ≤ a → a < vma.stop → ¬ later a)
    (h : Inv (Ahead vma later vma.start) d)
    (hget : CheckpointMemory.vmaPages ops cfg env vma d = .returns (0, d')) : Inv later d' := by
  simp only [CheckpointMemory.vmaPages] at hget
  split_ifs at hget
  · cases hget
  · exact hkeeps.pageLoop hreads hdvd hlater (hkeeps.calls h _) hget
  · cases hget
  · exact hkeeps.pageLoop (fun _ => rfl) hdvd hlater (hkeeps.calls (hkeeps.carryOut h _) _) hget

def Mapped (vmas : List (VmArea cfg.pageSize)) (a : Nat) : Prop :=
  ∃ vma ∈ vmas, vma.start ≤ a ∧ a < vma.stop

/-- Mappings that share no address. -/
def Apart {pageSize : Nat} (vma vma' : VmArea pageSize) : Prop :=
  vma.stop ≤ vma'.start ∨ vma'.stop ≤ vma.start

theorem Keeps.mappingLoop (hkeeps : Keeps ops cfg env Inv) {vmas : List (VmArea cfg.pageSize)}
    {idx : Nat} (hreads : ∀ page, env.pagemapReads page = true)
    (hdvd : cfg.pageSize ∣ maxVmRegionSize) (hapart : vmas.Pairwise Apart)
    (h : Inv (Mapped vmas) d)
    (hloop : CheckpointMemory.mappingLoop (CheckpointMemory.vmaPages ops cfg env) env.aborted idx
      vmas d = .returns (0, d')) : Inv (fun _ => False) d' := by
  induction vmas generalizing idx d with
  | nil =>
      cases hloop
      exact hkeeps.mono h fun a ha => ha.elim
  | cons vma rest ih =>
      obtain ⟨hvma, hrest⟩ := List.pairwise_cons.mp hapart
      simp only [CheckpointMemory.mappingLoop] at hloop
      split at hloop
      · cases hloop
        exact hkeeps.mono h fun a ha => ha.elim
      · obtain ⟨⟨ret, e⟩, hget, hnext⟩ := Outcome.andThen_eq_returns.mp hloop
        simp only at hnext
        split at hnext
        · rename_i hne
          cases hnext
          exact absurd rfl hne
        · rename_i hzero
          obtain rfl : ret = 0 := by simpa using hzero
          have hlater : ∀ a, vma.start ≤ a → a < vma.stop → ¬ Mapped rest a := by
            rintro a hlow hhigh ⟨other, hmem, hlow', hhigh'⟩
            rcases hvma other hmem with hle | hle <;> omega
          have hahead : Inv (Ahead vma (Mapped rest) vma.start) d := by
            apply hkeeps.mono h
            rintro a (⟨other, hmem, ha⟩ | ha)
            · exact ⟨other, by simp [hmem], ha⟩
            · exact ⟨vma, by simp, ha⟩
          exact ih hrest (hkeeps.vmaPages hreads hdvd hlater hahead hget) hnext

theorem Keeps.targetPages (hkeeps : Keeps ops cfg env Inv) {vmas : List (VmArea cfg.pageSize)}
    (hreads : ∀ page, env.pagemapReads page = true) (hdvd : cfg.pageSize ∣ maxVmRegionSize)
    (hapart : vmas.Pairwise Apart)
    (hinit : Inv (Mapped vmas)
      { mem := mem₀, outstanding := [], writer := Writer.start, calls := 0 })
    (hget : CheckpointMemory.targetPages ops cfg env vmas mem₀ = .returns (0, d)) :
    Inv (fun _ => False) d := by
  simp only [CheckpointMemory.targetPages] at hget
  split_ifs at hget
  · cases hget
  · cases hget
  · cases hget
  · cases hget
  · exact hkeeps.mappingLoop hreads hdvd hapart hinit hget

end Loops

theorem consistent_keeps (cfg : Config) (env : CheckpointEnv) (mem₀ : Memory) :
    Keeps (regionOps cfg env) cfg env fun future d =>
      ∃ regions, Consistent cfg env.table mem₀ future regions d where
  mono := by
    rintro future future' d ⟨regions, h⟩ hfuture
    exact ⟨regions, h.mono hfuture⟩
  calls := by
    rintro future d ⟨regions, h⟩ calls
    exact ⟨regions, h.calls calls⟩
  carryOut := by
    rintro future d ⟨regions, h⟩ count
    exact ⟨regions, h.carryOut count⟩
  getVmRegion := by
    rintro future addr len ret d d' ⟨regions, h⟩ hpos hle hlt hvisit hget
    exact h.getVmRegion hpos hle hlt hvisit hget
  freeVmRegion := by
    rintro future addr len d d' ⟨regions, h⟩ hlt hpages hfree
    exact ⟨regions, h.freeVmRegion hlt hpages hfree⟩

theorem consistent_of_getTargetPages {vmas : List (VmArea cfg.pageSize)}
    (hreads : ∀ page, env.pagemapReads page = true) (hdvd : cfg.pageSize ∣ maxVmRegionSize)
    (hapart : vmas.Pairwise Apart)
    (hget : getTargetPages cfg env vmas mem₀ = .returns (0, d)) :
    ∃ regions, Consistent cfg env.table mem₀ (fun _ => False) regions d := by
  refine (consistent_keeps cfg env mem₀).targetPages hreads hdvd hapart ⟨[], ?_⟩ hget
  constructor <;> simp [Writer.start, Covered]

/-- Uploading regions of the original memory brings every byte back that is not
already as it was. -/
theorem cmdSetPages_eq {mem : Memory}
    (horiginal : ∀ region ∈ regions, region = regionAt mem₀ region.vmr)
    (hmem : ∀ a, mem a = mem₀ a ∨ Covered regions a) :
    cmdSetPages mem regions = mem₀ := by
  induction regions generalizing mem with
  | nil =>
      funext a
      simpa [cmdSetPages, Covered] using hmem a
  | cons region rest ih =>
      apply ih (fun r hr => horiginal r (by simp [hr]))
      intro a
      rw [horiginal region (by simp)]
      by_cases hwithin : Within region.vmr.addr.toNat region.vmr.len.toNat a
      · exact Or.inl (store_slice_of_within hwithin)
      · have hkeep : store mem region.vmr.addr.toNat (regionAt mem₀ region.vmr).data a = mem a :=
          store_of_not_within (by simpa [regionAt] using hwithin)
        simp only [regionAt] at hkeep ⊢
        rw [hkeep]
        rcases hmem a with hsame | ⟨r, hr, hin⟩
        · exact Or.inl hsame
        · rcases List.mem_cons.mp hr with rfl | hr
          · exact absurd hin hwithin
          · exact Or.inr ⟨r, hr, hin⟩

end Download

/-- Checkpoint and restore are the identity on the memory of the target. -/
theorem checkpoint_restore_memory (cfg : Config) (hdvd : cfg.pageSize ∣ maxVmRegionSize)
    (vmas : List (VmArea cfg.pageSize)) (hapart : vmas.Pairwise Apart) (env : CheckpointEnv)
    (hreads : ∀ page, env.pagemapReads page = true) (mem₀ : Memory) (d : Download)
    (hget : getTargetPages cfg env vmas mem₀ = .returns (0, d)) (restoreEnv : RestoreEnv)
    (st : Upload)
    (hset : targetSetPages cfg restoreEnv d.writer.file d.writer.dumpedVmSize =
      .returns (0, st)) :
    cmdSetPages (memoryAfter cfg.pageSize env.table d) st.uploaded = mem₀ := by
  obtain ⟨regions, h⟩ := consistent_of_getTargetPages hreads hdvd hapart hget
  rw [targetSetPages_uploaded h.stored h.file h.size hset]
  exact cmdSetPages_eq h.original (h.carryOut d.outstanding.length).mem

def tinyConfig : Config := { plainConfig false with pageSize := 4 }

def tinyArea : VmArea 4 where
  start := 4
  stop := 12
  flags := flagAnon
  start_pos := by decide
  start_lt_stop := by decide
  stop_lt := by decide
  start_aligned := by decide
  stop_aligned := by decide

/-- Nothing fails, and only the first page of `tinyArea` is present. -/
def tinyEnv : CheckpointEnv where
  procMem := true
  rssFile := true
  table :=
    { entry := fun page => if page = 1 then 0x8000000000000000#64 else 0#64
      kpageflags := fun _ => some 0#64 }
  pagemapOpens := true
  pagemapReads := fun _ => true
  dumpOpens := true
  memOpens := true
  parasiteConnects := true
  commandSent := true
  fails := fun _ => false
  io := fun _ => none
  carriedOut := fun _ => 0
  aborted := fun _ => false

/-- Nothing fails, and no page is present. -/
def absentEnv (pagemapOpens : Bool) : CheckpointEnv :=
  { tinyEnv with
    table := { entry := fun _ => 0#64, kpageflags := fun _ => none }
    pagemapOpens := pagemapOpens }

theorem checkpoint_restore_memory_tiny :
    ∃ d st, getTargetPages tinyConfig tinyEnv [tinyArea] UInt8.ofNat = .returns (0, d) ∧
      d.writer.dumpedVmSize = 4 ∧
      targetSetPages tinyConfig quietEnv d.writer.file d.writer.dumpedVmSize =
        .returns (0, st) ∧
      cmdSetPages (memoryAfter 4 tinyEnv.table d) st.uploaded = UInt8.ofNat := by
  refine ⟨_, _, rfl, rfl, rfl, ?_⟩
  exact checkpoint_restore_memory tinyConfig (by decide) [tinyArea]
    (List.pairwise_singleton _ _) tinyEnv (fun _ => rfl) UInt8.ofNat _ rfl quietEnv _ rfl

end Memcr.CheckpointMemory
