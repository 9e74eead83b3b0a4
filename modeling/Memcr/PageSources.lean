import Memcr.CheckpointMemory
import Memcr.PagemapReply

namespace Memcr.PageSources

open Memcr.ByteMemory
open Memcr.ByteWords
open Memcr.CallOutcome
open Memcr.CallOutcome.Outcome
open Memcr.CheckpointMemory
open Memcr.DumpFormat
open Memcr.DumpRestore
open Memcr.PageSelection
open Memcr.PagemapReply

/-- The state of `get_target_pages` with the requests that were sent. -/
structure Session where
  download : Download
  /-- The ranges of the memory requests sent to the parasite, in order. -/
  asked : List VmRegion

def range (addr len : Nat) : VmRegion :=
  { addr := BitVec.ofNat 64 addr, len := BitVec.ofNat 64 len }

/-- `get_vm_region` gets as far as sending its request. -/
def asksGet (env : CheckpointEnv) (len : Nat) (d : Download) : Bool :=
  if env.procMem then
    !env.fails d.calls && decide (len ≤ maxVmRegionSize) && !env.fails (d.calls + 1)
  else !env.fails d.calls

/-- What the page loop does with a run, with the requests kept. -/
def askOps (cfg : Config) (env : CheckpointEnv) : RegionOps Session where
  getVmRegion addr len s :=
    (getVmRegion cfg env addr len s.download).andThen fun (ret, d) =>
      .returns (ret,
        ⟨d, if asksGet env len s.download then s.asked ++ [range addr len] else s.asked⟩)
  freeVmRegion addr len s :=
    (freeVmRegion env addr len s.download).andThen fun (ret, d) =>
      .returns (ret,
        ⟨d, if env.fails s.download.calls then s.asked else s.asked ++ [range addr len]⟩)

section Mappings

variable {pageSize : Nat}

/-- The page table as `map_buf` has it for one mapping. -/
def fetchedTable (table : PageTable) (vma : VmArea pageSize) : PageTable :=
  let page := vma.start / pageSize
  let reply := (pagemapReply table (page * 8) (vma.nrpages * 8)).flatten
  { table with entry := fun other => mapBuf reply (other - page) }

theorem mappingLoop_mirrors {State State' : Type} {view : State → State'}
    {pages : VmArea pageSize → State → Outcome (Int × State)}
    {pages' : VmArea pageSize → State' → Outcome (Int × State')} {aborted : Nat → Bool}
    (Inv : List (VmArea pageSize) → State → Prop)
    (hpages : ∀ vma rest s, Inv (vma :: rest) s →
      Mirrors view (fun _ s' => Inv rest s') (pages vma s) (pages' vma (view s)))
    {idx : Nat} {vmas : List (VmArea pageSize)} {s : State} (hinit : Inv vmas s) :
    Mirrors view (fun _ _ => True) (mappingLoop pages aborted idx vmas s)
      (mappingLoop pages' aborted idx vmas (view s)) := by
  induction vmas generalizing idx s with
  | nil => exact mirrors_returns trivial
  | cons vma rest ih =>
      simp only [mappingLoop]
      split
      · exact mirrors_returns trivial
      · refine (hpages vma rest s hinit).andThen fun ret s' hs' => ?_
        simp only
        split
        · exact mirrors_returns trivial
        · exact ih hs'

end Mappings

/-- `get_vma_pages`, with the reply of the parasite taken apart. -/
def askVmaPages (cfg : Config) (env : CheckpointEnv) (vma : VmArea cfg.pageSize) (s : Session) :
    Outcome (Int × Session) :=
  let calls := s.download.calls
  if env.pagemapOpens then
    if env.fails calls then .returns (-1, { s with download.calls := calls + 1 })
    else
      pageLoop (askOps cfg env) (visitPage env.rssFile env.table env.pagemapReads vma)
        vma.nrpages 0 0 0 { s with download.calls := calls + 1 }
  else if env.fails calls || env.fails (calls + 1) || !wholeReply (vma.nrpages * 8) then
    .returns (-1, { s with download.calls := calls + 2 })
  else
    let d := carryOut cfg.pageSize env.table s.download.outstanding.length s.download
    pageLoop (askOps cfg env)
      (visitPage env.rssFile (fetchedTable env.table vma) (fun _ => true) vma)
      vma.nrpages 0 0 0 { s with download := { d with calls := calls + 2 } }

/-- `get_target_pages` with the requests kept. -/
def askTargetPages (cfg : Config) (env : CheckpointEnv) (vmas : List (VmArea cfg.pageSize))
    (mem : Memory) : Outcome (Int × Session) :=
  let s : Session := ⟨⟨mem, [], Writer.start, 0⟩, []⟩
  if !env.dumpOpens then .returns (-1, s)
  else if env.procMem && !env.memOpens then .returns (-1, s)
  else if !env.parasiteConnects then .returns (-1, s)
  else if !env.commandSent then .returns (-1, s)
  else mappingLoop (askVmaPages cfg env) env.aborted 0 vmas s

/-- Return value, dump file and ranges to drop. -/
def result (cfg : Config) (env : CheckpointEnv) (vmas : List (VmArea cfg.pageSize))
    (mem : Memory) : Outcome (Int × List Byte × List VmRegion) :=
  (askTargetPages cfg env vmas mem).andThen fun (ret, s) =>
    .returns (ret, s.download.writer.file, s.asked)

section Sessions

variable {cfg : Config} {env : CheckpointEnv} {vma : VmArea cfg.pageSize}

theorem fetchedTable_visit {reads : Nat → Bool} (hreads : ∀ page, reads page = true)
    {idx : Nat} (hidx : idx < vma.nrpages) :
    visitPage env.rssFile (fetchedTable env.table vma) (fun _ => true) vma idx =
      visitPage env.rssFile env.table reads vma idx := by
  refine visitPage_congr (hreads _).symm ?_ rfl
  simp only [fetchedTable, Nat.add_sub_cancel_left]
  exact mapBuf_pagemapReply env.table hidx

theorem pageLoop_fetched {State : Type} {ops : RegionOps State} {reads : Nat → Bool}
    (hreads : ∀ page, reads page = true) (s : State) :
    pageLoop ops (visitPage env.rssFile (fetchedTable env.table vma) (fun _ => true) vma)
        vma.nrpages 0 0 0 s =
      pageLoop ops (visitPage env.rssFile env.table reads vma) vma.nrpages 0 0 0 s :=
  pageLoop_congr fun _ _ hhigh => fetchedTable_visit hreads (by omega)

theorem wholeReply_nrpages (vma : VmArea cfg.pageSize) :
    (!wholeReply (vma.nrpages * 8)) = decide (2 ^ 31 ≤ vma.nrpages * 8) := by
  rw [Bool.eq_iff_iff, Bool.not_eq_true', ← Bool.not_eq_true, wholeReply_iff, decide_eq_true_eq,
    not_lt]

section Erasure

theorem askOps_get_mirrors (addr len : Nat) (s : Session) :
    Mirrors Session.download (fun _ _ => True) ((askOps cfg env).getVmRegion addr len s)
      ((regionOps cfg env).getVmRegion addr len s.download) := by
  refine ⟨?_, fun _ _ _ => trivial⟩
  simp only [askOps, regionOps]
  cases getVmRegion cfg env addr len s.download <;> rfl

theorem askOps_free_mirrors (addr len : Nat) (s : Session) :
    Mirrors Session.download (fun _ _ => True) ((askOps cfg env).freeVmRegion addr len s)
      ((regionOps cfg env).freeVmRegion addr len s.download) := by
  refine ⟨?_, fun _ _ _ => trivial⟩
  simp only [askOps, regionOps]
  cases freeVmRegion env addr len s.download <;> rfl

theorem askVmaPages_mirrors (s : Session) :
    Mirrors Session.download (fun _ _ => True) (askVmaPages cfg env vma s)
      (getVmaPages cfg env vma s.download) := by
  have hloop {visit : Nat → Nat → Nat → Visit} (s : Session) :
      Mirrors Session.download (fun _ _ => True)
        (pageLoop (askOps cfg env) visit vma.nrpages 0 0 0 s)
        (pageLoop (regionOps cfg env) visit vma.nrpages 0 0 0 s.download) :=
    (pageLoop_mirrors Session.download (fun _ _ _ _ => True) (fun _ _ _ => trivial)
      (fun _ _ _ => askOps_get_mirrors ..) (fun _ _ _ => askOps_free_mirrors ..)
      (Nat.zero_add _) trivial).mono fun _ _ _ => trivial
  simp only [askVmaPages, getVmaPages, vmaPages, wholeReply_nrpages]
  split
  · split
    · exact mirrors_returns trivial
    · exact hloop _
  · split
    · exact mirrors_returns trivial
    · rw [pageLoop_fetched fun _ => rfl]
      exact hloop _

end Erasure

theorem askLoop_mirrors (idx : Nat) (vmas : List (VmArea cfg.pageSize)) (s : Session) :
    Mirrors Session.download (fun _ _ => True)
      (mappingLoop (askVmaPages cfg env) env.aborted idx vmas s)
      (mappingLoop (getVmaPages cfg env) env.aborted idx vmas s.download) := by
  have hpages (vma : VmArea cfg.pageSize) (rest : List (VmArea cfg.pageSize)) (s : Session)
      (_ : True) : Mirrors Session.download (fun _ _ => True) (askVmaPages cfg env vma s)
        (getVmaPages cfg env vma s.download) := askVmaPages_mirrors s
  exact mappingLoop_mirrors (fun _ _ => True) hpages trivial

theorem askTargetPages_mirrors (vmas : List (VmArea cfg.pageSize)) (mem : Memory) :
    Mirrors Session.download (fun _ _ => True) (askTargetPages cfg env vmas mem)
      (getTargetPages cfg env vmas mem) := by
  simp only [askTargetPages, getTargetPages, targetPages]
  split
  · exact mirrors_returns trivial
  · split
    · exact mirrors_returns trivial
    · split
      · exact mirrors_returns trivial
      · split
        · exact mirrors_returns trivial
        · exact askLoop_mirrors 0 vmas ⟨⟨mem, [], Writer.start, 0⟩, []⟩

end Sessions

section Purpose

/-- What all sources are compared with: the dump, and the ranges that were dropped. -/
structure Dumped where
  writer : Writer
  asked : List VmRegion

/-- A run that is dumped is written as the memory has it. -/
def dumpOps (cfg : Config) (io : Nat → Option Nat) (mem : Memory) : RegionOps Dumped where
  getVmRegion addr len s :=
    if maxVmRegionSize < len then .overruns
    else
      (writeVmRegion cfg io (regionAt mem (range addr len)) s.writer).andThen fun (ret, w) =>
        .returns (ret, ⟨w, s.asked ++ [range addr len]⟩)
  freeVmRegion addr len s := .returns (0, { s with asked := s.asked ++ [range addr len] })

/-- What `get_target_pages` is for: a dump of the memory under its page table. -/
def dumpTargetPages (cfg : Config) (env : CheckpointEnv) (vmas : List (VmArea cfg.pageSize))
    (mem : Memory) : Outcome (Int × Dumped) :=
  mappingLoop
    (fun vma => pageLoop (dumpOps cfg env.io mem)
      (visitPage env.rssFile env.table (fun _ => true) vma) vma.nrpages 0 0 0)
    env.aborted 0 vmas ⟨Writer.start, []⟩

def Session.dumped (s : Session) : Dumped := ⟨s.download.writer, s.asked⟩

/-- Every file opens, and every read and transfer succeeds. -/
structure Succeeds (env : CheckpointEnv) : Prop where
  dumpOpens : env.dumpOpens = true
  memOpens : env.memOpens = true
  parasiteConnects : env.parasiteConnects = true
  commandSent : env.commandSent = true
  reads : ∀ page, env.pagemapReads page = true
  calls : ∀ n, env.fails n = false

/-- The addresses of `future` hold what they held, and no request outstanding is
about them. -/
structure Untouched (mem₀ : Memory) (future : Nat → Prop) (d : Download) : Prop where
  mem : ∀ a, future a → d.mem a = mem₀ a
  outstanding : ∀ vmr ∈ d.outstanding, ∀ a, Within vmr.addr.toNat vmr.len.toNat a → ¬ future a

variable {cfg : Config} {env : CheckpointEnv} {mem₀ : Memory} {future : Nat → Prop}
  {d : Download}

theorem Untouched.mono {later : Nat → Prop} (h : Untouched mem₀ future d)
    (himp : ∀ a, later a → future a) : Untouched mem₀ later d :=
  ⟨fun a ha => h.mem a (himp a ha),
    fun vmr hvmr a hin ha => h.outstanding vmr hvmr a hin (himp a ha)⟩

theorem foldl_madviseDontneed_eq {pageSize : Nat} {table : PageTable} {vmrs : List VmRegion}
    {a : Nat} (h : ∀ vmr ∈ vmrs, ¬ Within vmr.addr.toNat vmr.len.toNat a) (mem : Memory) :
    vmrs.foldl (madviseDontneed pageSize table) mem a = mem a := by
  induction vmrs generalizing mem with
  | nil => rfl
  | cons vmr rest ih =>
      rw [List.foldl_cons, ih (fun v hv => h v (by simp [hv]))]
      simp [madviseDontneed, h vmr (by simp)]

theorem Untouched.carryOut (h : Untouched mem₀ future d) (pageSize : Nat) (table : PageTable)
    (count : Nat) : Untouched mem₀ future (carryOut pageSize table count d) where
  mem := by
    intro a ha
    refine (foldl_madviseDontneed_eq (fun vmr hvmr hin => ?_) d.mem).trans (h.mem a ha)
    exact h.outstanding vmr (List.mem_of_mem_take hvmr) a hin ha
  outstanding := fun vmr hvmr => h.outstanding vmr (List.mem_of_mem_drop hvmr)

theorem Untouched.calls (h : Untouched mem₀ future d) (calls : Nat) :
    Untouched mem₀ future { d with calls := calls } := ⟨h.mem, h.outstanding⟩

theorem regionAt_eq {vmr : VmRegion} (h : Untouched mem₀ future d)
    (hvmr : ∀ a, Within vmr.addr.toNat vmr.len.toNat a → future a) :
    regionAt d.mem vmr = regionAt mem₀ vmr :=
  Region.ext_iff_fields rfl (slice_congr fun a ha => h.mem a (hvmr a ha))

variable {vma : VmArea cfg.pageSize} {later : Nat → Prop} {next addr len : Nat}

theorem within_range (hlt : addr + len < 2 ^ 64) {a : Nat}
    (h : Within (range addr len).addr.toNat (range addr len).len.toNat a) : Within addr len a := by
  have haddr : (BitVec.ofNat 64 addr).toNat = addr := ofNat_toNat_of_lt (by omega)
  have hlen : (BitVec.ofNat 64 len).toNat = len := ofNat_toNat_of_lt (by omega)
  simpa only [range, haddr, hlen] using h

theorem within_ahead (hnext : next ≤ addr) (hle : addr + len ≤ vma.stop) {a : Nat}
    (h : Within (range addr len).addr.toNat (range addr len).len.toNat a) :
    Ahead vma later next a := by
  have hstop := vma.stop_lt
  obtain ⟨hlow, hhigh⟩ := within_range (by omega) h
  exact Or.inr ⟨by omega, by omega⟩

theorem Untouched.ask (h : Untouched mem₀ (Ahead vma later next) d)
    (hlater : ∀ a, vma.start ≤ a → a < vma.stop → ¬ later a) (hstart : vma.start ≤ next)
    (hnext : next ≤ addr) (hle : addr + len ≤ vma.stop) {outstanding : List VmRegion}
    (hasked : ∀ v ∈ outstanding, v ∈ d.outstanding ∨ v = range addr len) (w : Writer)
    (calls : Nat) :
    Untouched mem₀ (Ahead vma later (addr + len)) ⟨d.mem, outstanding, w, calls⟩ := by
  have hstop := vma.stop_lt
  have himp : ∀ a, Ahead vma later (addr + len) a → Ahead vma later next a :=
    fun a ha => ha.imp id fun ⟨hlow, hhigh⟩ => ⟨by omega, hhigh⟩
  refine ⟨fun a ha => h.mem a (himp a ha), ?_⟩
  intro v hv a hin ha
  rcases hasked v hv with hold | rfl
  · exact h.outstanding v hold a hin (himp a ha)
  · obtain ⟨hlow, hhigh⟩ := within_range (by omega) hin
    rcases ha with hlate | ⟨hfar, -⟩
    · exact hlater a (by omega) (by omega) hlate
    · omega

theorem writeDownload_mirrors {region : Region} {asked : List VmRegion}
    (hd : ∀ w, Untouched mem₀ future { d with writer := w }) :
    Mirrors Session.dumped (fun _ s' => Untouched mem₀ future s'.download)
      ((writeDownload cfg env region d).andThen fun (ret, d) => .returns (ret, ⟨d, asked⟩))
      ((writeVmRegion cfg env.io region d.writer).andThen fun (ret, w) =>
        .returns (ret, ⟨w, asked⟩)) := by
  rw [writeDownload]
  cases writeVmRegion cfg env.io region d.writer with
  | returns r => exact mirrors_returns (hd r.2)
  | _ =>
      refine ⟨rfl, ?_⟩
      intro a s heq
      cases heq

theorem askOps_get_dumps (hsucceeds : Succeeds env) {s : Session}
    (h : Untouched mem₀ (Ahead vma later next) s.download)
    (hlater : ∀ a, vma.start ≤ a → a < vma.stop → ¬ later a) (hstart : vma.start ≤ next)
    (hnext : next ≤ addr) (hle : addr + len ≤ vma.stop) :
    Mirrors Session.dumped
      (fun _ s' => Untouched mem₀ (Ahead vma later (addr + len)) s'.download)
      ((askOps cfg env).getVmRegion addr len s)
      ((dumpOps cfg env.io mem₀).getVmRegion addr len s.dumped) := by
  have hwrite (count calls : Nat) (outstanding : List VmRegion)
      (hasked : ∀ v ∈ outstanding,
        v ∈ (carryOut cfg.pageSize env.table count s.download).outstanding ∨ v = range addr len) :
      Mirrors Session.dumped
        (fun _ s' => Untouched mem₀ (Ahead vma later (addr + len)) s'.download)
        ((writeDownload cfg env
          (regionAt (carryOut cfg.pageSize env.table count s.download).mem (range addr len))
          { carryOut cfg.pageSize env.table count s.download with
            outstanding := outstanding, calls := calls }).andThen fun (ret, d) =>
              .returns (ret, ⟨d, s.asked ++ [range addr len]⟩))
        ((writeVmRegion cfg env.io (regionAt mem₀ (range addr len)) s.download.writer).andThen
          fun (ret, w) => .returns (ret, ⟨w, s.asked ++ [range addr len]⟩)) := by
    have hcarried := h.carryOut cfg.pageSize env.table count
    rw [regionAt_eq hcarried fun a ha => within_ahead hnext hle ha]
    exact writeDownload_mirrors fun w => hcarried.ask hlater hstart hnext hle hasked w calls
  simp only [askOps, dumpOps, CheckpointMemory.getVmRegion, fetchVmRegion, asksGet, hsucceeds.calls,
    Bool.not_false, Bool.true_and, Bool.and_true, Bool.false_eq_true, if_false]
  by_cases hlong : maxVmRegionSize < len
  · simp only [if_pos hlong]
    split <;> exact mirrors_overruns
  · have hshort : len ≤ maxVmRegionSize := by omega
    simp only [if_neg hlong, hshort, decide_true]
    split
    · exact hwrite (env.carriedOut s.download.calls) _ _ (by simp [range])
    · exact hwrite s.download.outstanding.length _ _ (by simp [range])

theorem askOps_free_dumps (hsucceeds : Succeeds env) {s : Session}
    (h : Untouched mem₀ (Ahead vma later next) s.download)
    (hlater : ∀ a, vma.start ≤ a → a < vma.stop → ¬ later a) (hstart : vma.start ≤ next)
    (hnext : next ≤ addr) (hle : addr + len ≤ vma.stop) :
    Mirrors Session.dumped
      (fun _ s' => Untouched mem₀ (Ahead vma later (addr + len)) s'.download)
      ((askOps cfg env).freeVmRegion addr len s)
      ((dumpOps cfg env.io mem₀).freeVmRegion addr len s.dumped) := by
  simp only [askOps, CheckpointMemory.freeVmRegion, hsucceeds.calls, Bool.false_eq_true, if_false,
    Outcome.returns_andThen]
  exact mirrors_returns (h.ask hlater hstart hnext hle (by simp [range]) _ _)

/-- The loop has come to page `idx`, and everything before `next` has been handled. -/
def Walked (mem₀ : Memory) (vma : VmArea cfg.pageSize) (later : Nat → Prop) (idx a l : Nat)
    (s : Session) : Prop :=
  ∃ next, vma.start ≤ next ∧ next ≤ vma.address idx ∧ Gathered vma next idx a l ∧
    Untouched mem₀ (Ahead vma later next) s.download

theorem pageLoop_dumps (hsucceeds : Succeeds env) {s : Session}
    (h : Untouched mem₀ (Ahead vma later vma.start) s.download)
    (hlater : ∀ a, vma.start ≤ a → a < vma.stop → ¬ later a) :
    Mirrors Session.dumped (fun _ s' => Untouched mem₀ later s'.download)
      (pageLoop (askOps cfg env) (visitPage env.rssFile env.table (fun _ => true) vma)
        vma.nrpages 0 0 0 s)
      (pageLoop (dumpOps cfg env.io mem₀) (visitPage env.rssFile env.table (fun _ => true) vma)
        vma.nrpages 0 0 0 s.dumped) := by
  have hlast {idx : Nat} (hidx : idx < vma.nrpages) : vma.address (idx + 1) ≤ vma.stop :=
    (vma.address_mono hidx).trans vma.address_nrpages.le
  have hgoOn {idx a l a' l' : Nat} {s : Session} (_ : idx < vma.nrpages)
      (hwalked : Walked mem₀ vma later idx a l s)
      (hvisit : visitPage env.rssFile env.table (fun _ => true) vma idx a l = .goOn a' l') :
      Walked mem₀ vma later (idx + 1) a' l' s := by
    obtain ⟨next, hstart, hnext, hrun, hs⟩ := hwalked
    exact ⟨next, hstart, hnext.trans (vma.address_mono (Nat.le_succ idx)),
      visitPage_bounded hrun hnext hvisit, hs⟩
  have hhandled {idx a l : Nat} {s : Session} (hstart : vma.start ≤ a)
      (hle : a + l ≤ vma.address (idx + 1))
      (hs : Untouched mem₀ (Ahead vma later (a + l)) s.download) :
      Walked mem₀ vma later (idx + 1) 0 0 s :=
    ⟨a + l, by omega, hle, Or.inl ⟨rfl, rfl⟩, hs⟩
  have hdump {idx a l a' l' : Nat} {s : Session} (hidx : idx < vma.nrpages)
      (hwalked : Walked mem₀ vma later idx a l s)
      (hvisit : visitPage env.rssFile env.table (fun _ => true) vma idx a l = .dump a' l') :
      Mirrors Session.dumped (fun _ s' => Walked mem₀ vma later (idx + 1) 0 0 s')
        ((askOps cfg env).getVmRegion a' l' s)
        ((dumpOps cfg env.io mem₀).getVmRegion a' l' s.dumped) := by
    obtain ⟨next, hstart, hnext, hrun, hs⟩ := hwalked
    obtain ⟨hbehind, hle⟩ := visitPage_bounded hrun hnext hvisit
    exact (askOps_get_dumps hsucceeds hs hlater hstart hbehind (hle.trans (hlast hidx))).mono
      fun _ _ => hhandled (hstart.trans hbehind) hle
  have hfree {idx a l a' l' : Nat} {s : Session} (hidx : idx < vma.nrpages)
      (hwalked : Walked mem₀ vma later idx a l s)
      (hvisit : visitPage env.rssFile env.table (fun _ => true) vma idx a l = .free a' l') :
      Mirrors Session.dumped (fun _ s' => Walked mem₀ vma later (idx + 1) 0 0 s')
        ((askOps cfg env).freeVmRegion a' l' s)
        ((dumpOps cfg env.io mem₀).freeVmRegion a' l' s.dumped) := by
    obtain ⟨next, hstart, hnext, hrun, hs⟩ := hwalked
    obtain ⟨hbehind, hle⟩ := visitPage_bounded hrun hnext hvisit
    exact (askOps_free_dumps hsucceeds hs hlater hstart hbehind (hle.trans (hlast hidx))).mono
      fun _ _ => hhandled (hstart.trans hbehind) hle
  have hinit : Walked mem₀ vma later 0 0 0 s :=
    ⟨vma.start, le_rfl, by simp [VmArea.address], Or.inl ⟨rfl, rfl⟩, h⟩
  refine (pageLoop_mirrors Session.dumped (Walked mem₀ vma later) hgoOn hdump hfree
    (Nat.zero_add _) hinit).mono ?_
  rintro - s' ⟨-, -, -, next, -, -, -, hs'⟩
  exact hs'.mono fun a ha => Or.inl ha

theorem askVmaPages_dumps (hsucceeds : Succeeds env)
    (hsmall : env.pagemapOpens = true ∨ vma.nrpages < 2 ^ 28) {s : Session}
    (h : Untouched mem₀ (Ahead vma later vma.start) s.download)
    (hlater : ∀ a, vma.start ≤ a → a < vma.stop → ¬ later a) :
    Mirrors Session.dumped (fun _ s' => Untouched mem₀ later s'.download)
      (askVmaPages cfg env vma s)
      (pageLoop (dumpOps cfg env.io mem₀) (visitPage env.rssFile env.table (fun _ => true) vma)
        vma.nrpages 0 0 0 s.dumped) := by
  have hreads : env.pagemapReads = fun _ => true := funext hsucceeds.reads
  simp only [askVmaPages, hsucceeds.calls, hreads, Bool.false_eq_true, if_false, Bool.false_or]
  split
  · exact pageLoop_dumps hsucceeds (h.calls _) hlater
  · rename_i hremote
    have hwhole : wholeReply (vma.nrpages * 8) = true := by
      have hpages := hsmall.resolve_left hremote
      rw [wholeReply_iff]
      omega
    simp only [hwhole, Bool.not_true, Bool.false_eq_true, if_false]
    rw [pageLoop_fetched fun _ => rfl]
    exact pageLoop_dumps hsucceeds ((h.carryOut _ _ _).calls _) hlater

/-- The mappings still to be visited are disjoint and untouched, and their page
maps can be had. -/
structure Unvisited (env : CheckpointEnv) (mem₀ : Memory) (vmas : List (VmArea cfg.pageSize))
    (s : Session) : Prop where
  apart : vmas.Pairwise Apart
  small : env.pagemapOpens = true ∨ ∀ vma ∈ vmas, vma.nrpages < 2 ^ 28
  untouched : Untouched mem₀ (Mapped vmas) s.download

theorem Unvisited.pages (hsucceeds : Succeeds env) {rest : List (VmArea cfg.pageSize)}
    {s : Session} (h : Unvisited env mem₀ (vma :: rest) s) :
    Mirrors Session.dumped (fun _ s' => Unvisited env mem₀ rest s') (askVmaPages cfg env vma s)
      (pageLoop (dumpOps cfg env.io mem₀) (visitPage env.rssFile env.table (fun _ => true) vma)
        vma.nrpages 0 0 0 s.dumped) := by
  obtain ⟨hvma, hrest⟩ := List.pairwise_cons.mp h.apart
  have hlater : ∀ a, vma.start ≤ a → a < vma.stop → ¬ Mapped rest a := by
    rintro a hlow hhigh ⟨other, hmem, hlow', hhigh'⟩
    rcases hvma other hmem with hle | hle <;> omega
  have hahead : Untouched mem₀ (Ahead vma (Mapped rest) vma.start) s.download := by
    apply h.untouched.mono
    rintro a (⟨other, hmem, ha⟩ | ha)
    · exact ⟨other, by simp [hmem], ha⟩
    · exact ⟨vma, by simp, ha⟩
  have hsmall := h.small.imp id fun hall => hall vma (by simp)
  refine (askVmaPages_dumps hsucceeds hsmall hahead hlater).mono fun _ s' hs' => ?_
  exact ⟨hrest, h.small.imp id fun hall other hother => hall other (by simp [hother]), hs'⟩

theorem askTargetPages_dumps (hsucceeds : Succeeds env) {vmas : List (VmArea cfg.pageSize)}
    (hapart : vmas.Pairwise Apart)
    (hsmall : env.pagemapOpens = true ∨ ∀ vma ∈ vmas, vma.nrpages < 2 ^ 28) (mem : Memory) :
    Mirrors Session.dumped (fun _ _ => True) (askTargetPages cfg env vmas mem)
      (dumpTargetPages cfg env vmas mem) := by
  have hinit : Unvisited env mem vmas ⟨⟨mem, [], Writer.start, 0⟩, []⟩ :=
    ⟨hapart, hsmall, fun _ _ => rfl, by simp⟩
  simp only [askTargetPages, hsucceeds.dumpOpens, hsucceeds.memOpens, hsucceeds.parasiteConnects,
    hsucceeds.commandSent, Bool.not_true, Bool.and_false, Bool.false_eq_true, if_false]
  have hpages (vma : VmArea cfg.pageSize) (rest : List (VmArea cfg.pageSize)) (s : Session)
      (h : Unvisited env mem (vma :: rest) s) := h.pages hsucceeds
  exact mappingLoop_mirrors (Unvisited env mem) hpages hinit

theorem result_eq (hsucceeds : Succeeds env) {vmas : List (VmArea cfg.pageSize)}
    (hapart : vmas.Pairwise Apart)
    (hsmall : env.pagemapOpens = true ∨ ∀ vma ∈ vmas, vma.nrpages < 2 ^ 28) (mem : Memory) :
    result cfg env vmas mem =
      (dumpTargetPages cfg env vmas mem).andThen fun (ret, s) =>
        .returns (ret, s.writer.file, s.asked) := by
  rw [result, ← (askTargetPages_dumps hsucceeds hapart hsmall mem).same]
  cases askTargetPages cfg env vmas mem <;> rfl

end Purpose

/-- The same target, dumped under the same conditions. -/
structure SameTarget (env env' : CheckpointEnv) : Prop where
  rssFile : env.rssFile = env'.rssFile
  table : env.table = env'.table
  io : env.io = env'.io
  aborted : env.aborted = env'.aborted

/-- Neither the page map source nor the page source makes a difference to what
`get_target_pages` does with these mappings. -/
def SourceIrrelevant {pageSize : Nat} (vmas : List (VmArea pageSize)) : Prop :=
  ∀ (algorithm : Algorithm) (codecs : Codecs) (checksum : Bool) (mem : Memory)
    (env env' : CheckpointEnv), Succeeds env → Succeeds env' → SameTarget env env' →
    result ⟨pageSize, algorithm, codecs, checksum⟩ env vmas mem =
      result ⟨pageSize, algorithm, codecs, checksum⟩ env' vmas mem

section Absent

theorem absentEnv_succeeds (pagemapOpens : Bool) : Succeeds (absentEnv pagemapOpens) :=
  ⟨rfl, rfl, rfl, rfl, fun _ => rfl, fun _ => rfl⟩

theorem absentEnv_sameTarget : SameTarget (absentEnv true) (absentEnv false) :=
  ⟨rfl, rfl, rfl, rfl⟩

variable {cfg : Config} {vmas : List (VmArea cfg.pageSize)}

theorem pageLoop_absent {State : Type} {ops : RegionOps State} (opens : Bool)
    (vma : VmArea cfg.pageSize) (left idx : Nat) (s : State) :
    pageLoop ops (visitPage (absentEnv opens).rssFile (absentEnv opens).table (fun _ => true) vma)
      left idx 0 0 s = .returns (0, s) := by
  induction left generalizing idx with
  | zero => rfl
  | succ left ih =>
      have hvisit : visitPage (absentEnv opens).rssFile (absentEnv opens).table (fun _ => true) vma
          idx 0 0 = .goOn 0 0 := by
        simp [visitPage, visitAnon, visitFile, endRun, absentEnv]
      simp only [pageLoop, hvisit, ih]

theorem result_absent (hapart : vmas.Pairwise Apart) (mem : Memory) :
    result cfg (absentEnv true) vmas mem = .returns (0, [], []) := by
  have hloop (idx : Nat) (s : Dumped) :
      mappingLoop (fun vma => pageLoop (dumpOps cfg (absentEnv true).io mem)
        (visitPage (absentEnv true).rssFile (absentEnv true).table (fun _ => true) vma)
        vma.nrpages 0 0 0) (absentEnv true).aborted idx vmas s = .returns (0, s) := by
    clear hapart
    induction vmas generalizing idx with
    | nil => rfl
    | cons vma rest ih =>
        simp only [mappingLoop, pageLoop_absent true vma, Outcome.returns_andThen, ne_eq,
          not_true_eq_false, if_false, ih]
        exact if_neg Bool.false_ne_true
  rw [result_eq (absentEnv_succeeds true) hapart (Or.inl rfl), dumpTargetPages, hloop]
  rfl

theorem askVmaPages_absent (vma : VmArea cfg.pageSize) (s : Session) :
    ∃ s', askVmaPages cfg (absentEnv false) vma s =
      .returns (if vma.nrpages < 2 ^ 28 then 0 else -1, s') := by
  have hremote : (absentEnv false).pagemapOpens = false := rfl
  simp only [askVmaPages, hremote, (absentEnv_succeeds false).calls, Bool.false_eq_true, if_false,
    Bool.false_or, wholeReply_nrpages, decide_eq_true_eq]
  by_cases hsmall : vma.nrpages < 2 ^ 28
  · rw [if_pos hsmall, if_neg (by omega), pageLoop_fetched fun _ => rfl, pageLoop_absent false vma]
    exact ⟨_, rfl⟩
  · rw [if_neg hsmall, if_pos (by omega)]
    exact ⟨_, rfl⟩

theorem result_remote_fails (hbig : ∃ vma ∈ vmas, 2 ^ 28 ≤ vma.nrpages) (mem : Memory) :
    ∃ file asked, result cfg (absentEnv false) vmas mem = .returns (-1, file, asked) := by
  have hloop (idx : Nat) (s : Session) :
      ∃ s', mappingLoop (askVmaPages cfg (absentEnv false)) (absentEnv false).aborted idx vmas s =
        .returns (-1, s') := by
    induction vmas generalizing idx s with
    | nil =>
        obtain ⟨vma, hmem, -⟩ := hbig
        cases hmem
    | cons vma rest ih =>
        obtain ⟨s', hpages⟩ := askVmaPages_absent vma s
        have hgoes : (absentEnv false).aborted idx = false := rfl
        simp only [mappingLoop, hgoes, Bool.false_eq_true, if_false, hpages,
          Outcome.returns_andThen]
        by_cases hsmall : vma.nrpages < 2 ^ 28
        · simp only [if_pos hsmall, ne_eq, not_true_eq_false, if_false]
          apply ih
          obtain ⟨other, hmem, hother⟩ := hbig
          rcases List.mem_cons.mp hmem with rfl | hmem
          · omega
          · exact ⟨other, hmem, hother⟩
        · simp only [if_neg hsmall]
          exact ⟨s', rfl⟩
  obtain ⟨s', hs'⟩ := hloop 0 ⟨⟨mem, [], Writer.start, 0⟩, []⟩
  refine ⟨s'.download.writer.file, s'.asked, ?_⟩
  have hask : askTargetPages cfg (absentEnv false) vmas mem = .returns (-1, s') := hs'
  rw [result, hask]
  rfl

end Absent

/-- The sources make no difference exactly for mappings whose page maps have a
length that fits an `int`. -/
theorem page_source_irrelevant_iff {pageSize : Nat} (vmas : List (VmArea pageSize))
    (hapart : vmas.Pairwise Apart) :
    SourceIrrelevant vmas ↔ ∀ vma ∈ vmas, vma.nrpages < 2 ^ 28 := by
  constructor
  · intro h
    by_contra hall
    have hbig : ∃ vma ∈ vmas, 2 ^ 28 ≤ vma.nrpages := by simpa using hall
    obtain ⟨file, asked, hremote⟩ : ∃ file asked,
        result ⟨pageSize, .plain, ⟨verbatimCodec, verbatimCodec⟩, false⟩ (absentEnv false) vmas
          (fun _ => 0) = .returns (-1, file, asked) := result_remote_fails hbig _
    have hsame := h .plain ⟨verbatimCodec, verbatimCodec⟩ false (fun _ => 0) (absentEnv true)
      (absentEnv false) (absentEnv_succeeds true) (absentEnv_succeeds false) absentEnv_sameTarget
    rw [result_absent hapart, hremote] at hsame
    cases hsame
  · intro hsmall algorithm codecs checksum mem env env' hsucceeds hsucceeds' hsame
    rw [result_eq hsucceeds hapart (Or.inr hsmall), result_eq hsucceeds' hapart (Or.inr hsmall)]
    simp only [dumpTargetPages, hsame.rssFile, hsame.table, hsame.io, hsame.aborted]

/-- A mapping behind `tinyArea`, with a page between them. -/
def nextArea : VmArea 4 where
  start := 16
  stop := 28
  flags := flagAnon
  start_pos := by decide
  start_lt_stop := by decide
  stop_lt := by decide
  start_aligned := by decide
  stop_aligned := by decide

theorem smallAreas_source_irrelevant : SourceIrrelevant [tinyArea, nextArea] :=
  (page_source_irrelevant_iff [tinyArea, nextArea]
    (List.pairwise_pair.mpr (Or.inl (by decide)))).mpr (by decide)

/-- A reservation of one terabyte. -/
def terabyteArea : VmArea 4096 where
  start := 4096
  stop := 4096 + 2 ^ 40
  flags := flagAnon
  start_pos := by decide
  start_lt_stop := by decide
  stop_lt := by decide
  start_aligned := by decide
  stop_aligned := by decide

theorem terabyteArea_source_matters :
    Succeeds (absentEnv true) ∧ Succeeds (absentEnv false) ∧
      SameTarget (absentEnv true) (absentEnv false) ∧
      result ⟨4096, .plain, ⟨verbatimCodec, verbatimCodec⟩, false⟩ (absentEnv true) [terabyteArea]
        (fun _ => 0) = .returns (0, [], []) ∧
      ∃ file asked, result ⟨4096, .plain, ⟨verbatimCodec, verbatimCodec⟩, false⟩ (absentEnv false)
        [terabyteArea] (fun _ => 0) = .returns (-1, file, asked) := by
  have hapart : [terabyteArea].Pairwise Apart := List.pairwise_singleton _ _
  have hbig : ∃ vma ∈ [terabyteArea], 2 ^ 28 ≤ vma.nrpages :=
    ⟨terabyteArea, List.mem_cons_self, by decide⟩
  refine ⟨absentEnv_succeeds true, absentEnv_succeeds false, absentEnv_sameTarget, ?_, ?_⟩
  · exact result_absent hapart _
  · exact result_remote_fails hbig _

end Memcr.PageSources
