import Memcr.PageRegions

namespace Memcr.FileDrops

open Memcr.ByteMemory
open Memcr.CallOutcome
open Memcr.PageRegions
open Memcr.PageSelection
open Memcr.RunCollection

/-- One `read` of the pagemap. After a failure the file offset may have moved on
or not. -/
inductive PagemapRead where
  | delivers
  | fails (moves : Bool)
  deriving DecidableEq, Repr

/-- How far a read moves the file offset, in entries. The pagemap is read sequentially,
so a read that fails may put entries and pages out of step. -/
def PagemapRead.advance : PagemapRead → Nat
  | .delivers => 1
  | .fails moves => if moves then 1 else 0

/-- The entry at the file offset before a read, counted from that of the first
page of the mapping. -/
def offset (reads : Nat → PagemapRead) : Nat → Nat
  | 0 => 0
  | idx + 1 => offset reads idx + (reads idx).advance

/-- What the reads give for a page table. -/
def readTable {pageSize : Nat} (table : PageTable) (reads : Nat → PagemapRead)
    (vma : VmArea pageSize) : Seen where
  entry idx :=
    match reads idx with
    | .delivers => some (table.entry (vma.start / pageSize + offset reads idx))
    | .fails _ => none
  kpageflags idx :=
    table.kpageflags
      (table.entry (vma.start / pageSize + offset reads idx) &&& pmPageFrameNumberMask)

/-- The marks of a file mapping whose page `p` is backed by the file iff `backed p`. -/
def fileMarks (backed : Nat → Bool) (reads : Nat → PagemapRead) (idx : Nat) : Mark :=
  match reads idx with
  | .delivers => if backed (offset reads idx) then .take else .stop
  | .fails _ => .pass

/-- A page whose entry is read as the last one of a run that is handed out, for
some page table. -/
def LastOfRun (n : Nat) (reads : Nat → PagemapRead) (i : Nat) : Prop :=
  reads i = .delivers ∧ (i + 1 = n ∨ ∃ j, i < j ∧ j < n ∧ reads j = .delivers)

/-- Before such a page no read has failed, other than ones that moved the offset
on before the first entry was delivered. -/
def InStep (n : Nat) (reads : Nat → PagemapRead) : Prop :=
  ∀ i < n, LastOfRun n reads i → ∀ k < i, ∀ moves, reads k = .fails moves →
    moves = true ∧ ∀ m < k, reads m ≠ .delivers

section Offsets

variable {n : Nat} {reads : Nat → PagemapRead} {backed : Nat → Bool} {i j : Nat}

theorem advance_le (read : PagemapRead) : read.advance ≤ 1 := by
  rcases read with _ | _ | _ <;> decide

theorem offset_add_le (h : i ≤ j) : offset reads j + i ≤ offset reads i + j := by
  induction j, h using Nat.le_induction with
  | base => exact le_rfl
  | succ j hle ih =>
      have := advance_le (reads j)
      simp only [offset]
      omega

theorem offset_mono (h : i ≤ j) : offset reads i ≤ offset reads j := by
  induction j, h using Nat.le_induction with
  | base => exact le_rfl
  | succ j hle ih => exact ih.trans (Nat.le_add_right _ _)

theorem offset_lt (hdelivers : reads i = .delivers) (h : i < j) :
    offset reads i < offset reads j := by
  refine lt_of_lt_of_le ?_ (offset_mono h)
  simp [offset, hdelivers, PagemapRead.advance]

theorem advance_eq_one (h : offset reads i = i) {k : Nat} (hk : k < i) :
    (reads k).advance = 1 := by
  have hbefore : offset reads k + 0 ≤ offset reads 0 + k := offset_add_le (Nat.zero_le k)
  have hbehind : offset reads i + (k + 1) ≤ offset reads (k + 1) + i := offset_add_le hk
  have hle := advance_le (reads k)
  simp only [offset] at hbefore hbehind
  omega

theorem offset_eq_of_advance (h : ∀ k < i, (reads k).advance = 1) : offset reads i = i := by
  induction i with
  | zero => rfl
  | succ i ih =>
      rw [offset, ih fun k hk => h k (by omega), h i (Nat.lt_succ_self i)]

theorem InStep.offset_eq (h : InStep n reads) (hi : i < n) (hlast : LastOfRun n reads i) :
    offset reads i = i := by
  apply offset_eq_of_advance
  intro k hk
  rcases hread : reads k with _ | moves
  · rfl
  · obtain ⟨rfl, -⟩ := h i hi hlast k hk moves hread
    rfl

theorem fileMarks_pass (h : reads i ≠ .delivers) : fileMarks backed reads i = .pass := by
  rcases hread : reads i with _ | moves
  · exact absurd hread h
  · simp only [fileMarks, hread]

theorem fileMarks_delivers (h : reads i = .delivers) :
    fileMarks backed reads i = if backed (offset reads i) then .take else .stop := by
  simp only [fileMarks, h]

theorem delivers_of_mark {mark : Mark} (h : fileMarks backed reads i = mark)
    (hne : mark ≠ .pass) : reads i = .delivers := by
  by_contra hfails
  exact hne (h.symm.trans (fileMarks_pass hfails))

theorem backed_of_take (h : fileMarks backed reads i = .take) : backed (offset reads i) = true := by
  have hdelivers := delivers_of_mark h (by decide)
  rw [fileMarks_delivers hdelivers] at h
  by_contra hnot
  rw [if_neg hnot] at h
  cases h

/-- The open run: begun by an entry that was delivered, backed as far as it can
still be handed out, and up to here as far as it can still grow and be handed
out. -/
structure FileRun (n : Nat) (backed : Nat → Bool) (reads : Nat → PagemapRead) (idx : Nat)
    (s : Span) : Prop where
  begun : ∃ m < idx, reads m = .delivers
  backed : (∃ j, idx ≤ j ∧ j < n ∧ reads j = .delivers) → ∀ p, s.Covers p → backed p = true
  tight : (∃ j, idx ≤ j ∧ j < n ∧ LastOfRun n reads j) → s.stop = idx

theorem covers_grow {idx p : Nat} {current : Option Span} (hstop : ∀ s ∈ current, s.stop = idx)
    (h : (grow idx current).Covers p) : p = idx ∨ ∃ s ∈ current, s.Covers p := by
  rcases current with _ | s
  · exact Or.inl (covers_one.mp h)
  · have hend := hstop s rfl
    simp only [grow, Span.Covers, Span.stop] at h hend
    rcases Nat.lt_or_ge p idx with hlt | hge
    · exact Or.inr ⟨s, rfl, h.1, by simp only [Span.stop]; omega⟩
    · exact Or.inl (by omega)

theorem backed_of_inStep (h : InStep n reads) :
    ∀ s ∈ spans none (fileMarks backed reads) n 0 none, ∀ p, s.Covers p → backed p = true := by
  refine forall_mem_spans (fun idx current => ∀ s ∈ current, FileRun n backed reads idx s)
    ?_ ?_ ?_ (Nat.zero_add n) (by simp)
  · intro idx current hidx hrun hmark s hs
    obtain ⟨⟨m, hm, hdelivers⟩, hbacked, -⟩ := hrun s hs
    refine ⟨⟨m, by omega, hdelivers⟩, ?_, ?_⟩
    · rintro ⟨j, hj, hrest⟩
      exact hbacked ⟨j, by omega, hrest⟩
    · -- behind a failed read inside a run no run can be handed out
      rintro ⟨j, hj, hjn, hlast⟩
      rcases hread : reads idx with _ | moves
      · rw [fileMarks_delivers hread] at hmark
        split at hmark <;> cases hmark
      · obtain ⟨-, hnone⟩ := h j hjn hlast idx (by omega) moves hread
        exact absurd hdelivers (hnone m hm)
  · intro idx current hidx hrun hmark
    have hdelivers := delivers_of_mark hmark (by decide)
    exact ⟨fun s hs => (hrun s hs).backed ⟨idx, le_rfl, hidx, hdelivers⟩, by simp⟩
  · intro idx current hidx hrun hmark
    have hdelivers := delivers_of_mark hmark (by decide)
    have hgrown : LastOfRun n reads idx → (grow idx current).stop = idx + 1 ∧
        ∀ p, (grow idx current).Covers p → backed p = true := by
      intro hlast
      have hstop : ∀ s ∈ current, s.stop = idx :=
        fun s hs => (hrun s hs).tight ⟨idx, le_rfl, hidx, hlast⟩
      refine ⟨?_, ?_⟩
      · rcases current with _ | s
        · rfl
        · have hend := hstop s rfl
          simp only [grow, Span.stop] at hend ⊢
          omega
      · intro p hp
        rcases covers_grow hstop hp with rfl | ⟨s, hs, hcovers⟩
        · have hback := backed_of_take hmark
          rwa [h.offset_eq hidx hlast] at hback
        · exact (hrun s hs).backed ⟨idx, le_rfl, hidx, hdelivers⟩ p hcovers
    refine ⟨?_, ?_, by simp⟩
    · rintro (hend | hfull)
      · exact (hgrown ⟨hdelivers, Or.inl hend⟩).2
      · simp [full] at hfull
    · rintro s ⟨⟩
      refine ⟨⟨idx, Nat.lt_succ_self idx, hdelivers⟩, ?_, ?_⟩
      · rintro ⟨j, hj, hjn, hread⟩
        exact (hgrown ⟨hdelivers, Or.inr ⟨j, hj, hjn, hread⟩⟩).2
      · rintro ⟨j, hj, hjn, hlast⟩
        exact (hgrown ⟨hdelivers, Or.inr ⟨j, hj, hjn, hlast.1⟩⟩).1

theorem stopsNext_of_lastOfRun (hlast : LastOfRun n reads i)
    (hnone : ∀ j, i < j → reads j = .delivers → backed (offset reads j) = false) :
    i + 1 = n ∨ StopsNext n (fileMarks backed reads) (i + 1) := by
  refine hlast.2.imp id fun hlater => ?_
  classical
  obtain ⟨hlow, hhigh, hdelivers⟩ := Nat.find_spec hlater
  refine ⟨Nat.find hlater, hlow, hhigh, ?_, ?_⟩
  · rw [fileMarks_delivers hdelivers, if_neg (by simp [hnone _ hlow hdelivers])]
  · intro k hk hfind
    apply fileMarks_pass
    intro hread
    exact Nat.find_min hlater hfind ⟨hk, by omega, hread⟩

theorem mem_spans_of_head {s : Span} {rest : List Span}
    (h : spans none (fileMarks backed reads) (n - 0) 0 none = s :: rest) :
    s ∈ spans none (fileMarks backed reads) n 0 none := by
  rw [← Nat.sub_zero n, h]
  exact List.mem_cons_self

/-- Whatever the page table, only backed pages are handed out. -/
def Safe (n : Nat) (reads : Nat → PagemapRead) : Prop :=
  ∀ backed, ∀ s ∈ spans none (fileMarks backed reads) n 0 none, ∀ p, s.Covers p → backed p = true

theorem not_take_of_not_backed (h : reads i = .delivers → backed (offset reads i) = false) :
    fileMarks backed reads i ≠ .take := by
  intro htake
  have hback := backed_of_take htake
  rw [h (delivers_of_mark htake (by decide))] at hback
  cases hback

/-- Otherwise the page table in which only the entry read for page `i` is of a
backed page would have page `i` handed out. -/
theorem Safe.offset_eq (hsafe : Safe n reads) (hi : i < n) (hlast : LastOfRun n reads i) :
    offset reads i = i := by
  let only : Nat → Bool := fun p => decide (p = offset reads i)
  have hother : ∀ j, j ≠ i → reads j = .delivers → only (offset reads j) = false := by
    intro j hj hread
    simp only [only, decide_eq_false_iff_not]
    rcases Nat.lt_or_gt_of_ne hj with hlt | hgt
    · exact (offset_lt hread hlt).ne
    · exact (offset_lt hlast.1 hgt).ne'
  have htake : fileMarks only reads i = .take := by
    rw [fileMarks_delivers hlast.1, if_pos (by simp [only])]
  obtain ⟨rest, hspans⟩ := spans_take_last none none hi htake
    (stopsNext_of_lastOfRun hlast fun j hj => hother j hj.ne')
  have hidle : spans none (fileMarks only reads) (n - 0) 0 none = _ :=
    spans_idle (Nat.zero_le i) hi.le fun k _ hk => not_take_of_not_backed (hother k hk.ne)
  have hback := hsafe only _ (mem_spans_of_head (hidle.trans hspans)) i (covers_one.mpr rfl)
  simp only [only, decide_eq_true_eq] at hback
  exact hback.symm

theorem exists_neighbours {k m : Nat} {moves : Bool} (hm : m < k) (hk : k < i)
    (hbefore : reads m = .delivers) (hfails : reads k = .fails moves)
    (hbehind : reads i = .delivers) :
    ∃ a b, a < k ∧ k < b ∧ b ≤ i ∧ reads a = .delivers ∧ reads b = .delivers ∧
      ∀ x, a < x → x < b → reads x ≠ .delivers := by
  classical
  have hgreatest := Nat.findGreatest_spec (P := fun x => reads x = .delivers) hm.le hbefore
  have hnext : ∃ b, k < b ∧ b ≤ i ∧ reads b = .delivers := ⟨i, hk, le_rfl, hbehind⟩
  obtain ⟨hlow, hhigh, hleast⟩ := Nat.find_spec hnext
  refine ⟨_, _, ?_, hlow, hhigh, hgreatest, hleast, ?_⟩
  · apply lt_of_le_of_ne (Nat.findGreatest_le k)
    intro heq
    rw [heq, hfails] at hgreatest
    cases hgreatest
  · intro x hxa hxb hread
    rcases Nat.lt_trichotomy x k with hlt | rfl | hgt
    · exact Nat.findGreatest_is_greatest hxa hlt.le hread
    · rw [hfails] at hread
      cases hread
    · exact Nat.find_min hnext hxb ⟨hgt, by omega, hread⟩

/-- Otherwise the page table in which only the pages next to the failed reads are
backed would have the page in between handed out. -/
theorem Safe.no_entry_before (hsafe : Safe n reads) (hi : i < n) (hlast : LastOfRun n reads i)
    {k m : Nat} {moves : Bool} (hk : k < i) (hfails : reads k = .fails moves) (hm : m < k) :
    reads m ≠ .delivers := by
  intro hdelivers
  obtain ⟨a, b, hak, hkb, hbi, ha, hb, hquiet⟩ :=
    exists_neighbours hm hk hdelivers hfails hlast.1
  have hoffset : ∀ x ≤ i, offset reads x = x := fun x hx =>
    offset_eq_of_advance fun y hy => advance_eq_one (hsafe.offset_eq hi hlast) (by omega)
  have hlastB : LastOfRun n reads b := by
    refine ⟨hb, ?_⟩
    rcases hbi.eq_or_lt with rfl | hlt
    · exact hlast.2
    · exact Or.inr ⟨i, hlt, hi, hlast.1⟩
  let only : Nat → Bool := fun p => decide (p = a ∨ p = b)
  have hbehind : ∀ j, b < j → reads j = .delivers → only (offset reads j) = false := by
    intro j hj _
    have hlt := offset_lt hb hj
    rw [hoffset b hbi] at hlt
    simp only [only, decide_eq_false_iff_not]
    omega
  have htakeA : fileMarks only reads a = .take := by
    rw [fileMarks_delivers ha, if_pos (by simp [only, hoffset a (by omega)])]
  have htakeB : fileMarks only reads b = .take := by
    rw [fileMarks_delivers hb, if_pos (by simp [only, hoffset b hbi])]
  obtain ⟨rest, hspans⟩ := spans_take_last none (some (grow a none)) (by omega) htakeB
    (stopsNext_of_lastOfRun hlastB hbehind)
  have hidle : spans none (fileMarks only reads) (n - 0) 0 none = _ :=
    spans_idle (Nat.zero_le a) (by omega) fun x _ hx => not_take_of_not_backed fun _ => by
      simp only [only, hoffset x (by omega), decide_eq_false_iff_not]
      omega
  have hrun : spans none (fileMarks only reads) (n - 0) 0 none = ⟨a, 2⟩ :: rest := by
    rw [hidle, spans_take_more (by omega) htakeA,
      spans_pass_to (by omega) (by omega) fun x hlow hhigh =>
        fileMarks_pass (hquiet x hlow hhigh)]
    exact hspans
  have hback := hsafe only _ (mem_spans_of_head hrun) (a + 1) ⟨by simp, by simp [Span.stop]⟩
  simp only [only, decide_eq_true_eq] at hback
  omega

/-- Runs stay on backed pages for every page table exactly when the reads stay in
step with the pages. -/
theorem safe_iff_inStep : Safe n reads ↔ InStep n reads := by
  constructor
  · intro hsafe i hi hlast k hk moves hfails
    refine ⟨?_, fun m hm => hsafe.no_entry_before hi hlast hk hfails hm⟩
    have hadvance := advance_eq_one (hsafe.offset_eq hi hlast) hk
    rw [hfails] at hadvance
    rcases moves with _ | _
    · cases hadvance
    · rfl
  · intro h backed
    exact backed_of_inStep h

end Offsets

section Mapping

variable {pageSize : Nat} {vma : VmArea pageSize} {table : PageTable} {reads : Nat → PagemapRead}

/-- Whether a page of the mapping is backed by the file. -/
def fileBacked (table : PageTable) (vma : VmArea pageSize) (p : Nat) : Bool :=
  (table.entry (vma.start / pageSize + p)).getLsbD pmPageFileOrSharedAnon

theorem readTable_eq_ofTable (h : ∀ idx, (reads idx).advance = 1) :
    readTable table reads vma =
      Seen.ofTable table (fun page => reads (page - vma.start / pageSize) = .delivers) vma := by
  have hoffset (idx : Nat) : offset reads idx = idx := offset_eq_of_advance fun k _ => h k
  simp only [readTable, Seen.ofTable, hoffset, Nat.add_sub_cancel_left, Seen.mk.injEq, and_true]
  funext idx
  rcases reads idx with _ | moves
  · rfl
  · rfl

theorem not_dumps (hfile : vma.flags = flagFile) : ¬ Dumps vma := by
  rw [Dumps, hfile]
  decide

theorem mark_readTable (hfile : vma.flags = flagFile) :
    (readTable table reads vma).mark true vma = fileMarks (fileBacked table vma) reads := by
  have hflag : (true && decide (vma.flags &&& flagFile ≠ 0)) = true := by
    rw [hfile]
    decide
  funext idx
  rcases hread : reads idx with _ | moves
  · simp only [Seen.mark, readTable, hread, if_neg (not_dumps hfile), if_pos hflag, fileMarks]
    rfl
  · simp only [Seen.mark, readTable, hread, fileMarks]

theorem filePages_iff (s : Span) :
    FilePages pageSize table (vma.address s.first) (s.count * pageSize) ↔
      ∀ p, s.Covers p → fileBacked table vma p = true := by
  have hpage := VmArea.pageSize_pos vma
  constructor
  · intro h p hp
    have hstart : vma.start ≤ vma.address p := Nat.le_add_right _ _
    have hindex : (vma.address p - vma.start) / pageSize = p := by
      simp only [VmArea.address, Nat.add_sub_cancel_left]
      exact Nat.mul_div_cancel p hpage
    have hentry := h (vma.address p) ((within_spanCall_iff hstart).mpr (hindex.symm ▸ hp))
    rwa [vma.page_of_within le_rfl (by omega)] at hentry
  · intro h x hx
    have hstart : vma.start ≤ x := (Nat.le_add_right _ _).trans hx.1
    have hcovers := (within_spanCall_iff hstart).mp hx
    have hlow : vma.address ((x - vma.start) / pageSize) ≤ x := by
      have := Nat.div_mul_le_self (x - vma.start) pageSize
      simp only [VmArea.address]
      omega
    have hhigh : x < vma.address ((x - vma.start) / pageSize) + pageSize := by
      have := Nat.lt_div_mul_add hpage (a := x - vma.start)
      simp only [VmArea.address]
      omega
    rw [vma.page_of_within hlow hhigh]
    exact h _ hcovers

theorem spanCall_file (hfile : vma.flags = flagFile) (s : Span) :
    spanCall vma s = .freeVmRegion (vma.address s.first) (s.count * pageSize) :=
  if_neg (not_dumps hfile)

theorem pageLoop_obliging (visit : Nat → Nat → Nat → Visit) (left idx a l : Nat) :
    pageLoop obligingOps visit left idx a l () = .returns (0, ()) := by
  induction left generalizing idx a l with
  | zero => rfl
  | succ left ih =>
      simp only [pageLoop, obligingOps, Outcome.returns_andThen]
      rcases visit idx a l with ⟨a', l'⟩ | ⟨a', l'⟩ | ⟨a', l'⟩
      · exact ih _ _ _
      · exact ih _ _ _
      · exact ih _ _ _

theorem mem_vmaCalls_obliging (hfile : vma.flags = flagFile) {s : Span}
    (h : s ∈ spans none (fileMarks (fileBacked table vma) reads) vma.nrpages 0 none) :
    .freeVmRegion (vma.address s.first) (s.count * pageSize) ∈
      vmaCalls obligingOps true (readTable table reads vma) vma () := by
  have hcalls := @regionCalls_eq _ _ obligingOps true (readTable table reads vma) vma _ 0 none _ _
    (Nat.zero_add _) (behind_none 0) (fun _ _ _ _ _ hzero => by simp [obligingOps] at hzero)
    (pageLoop_obliging _ _ _ _ _)
  rw [pageLimit, if_neg (not_dumps hfile), mark_readTable hfile] at hcalls
  have hmem := List.mem_map_of_mem (f := spanCall vma) h
  rw [← hcalls, spanCall_file hfile] at hmem
  exact hmem

/-- A page table in which exactly the given pages of the mapping are backed. -/
def backedTable (vma : VmArea pageSize) (backed : Nat → Bool) : PageTable where
  entry page :=
    if backed (page - vma.start / pageSize) then 1#64 <<< pmPageFileOrSharedAnon else 0#64
  kpageflags _ := none

theorem fileBacked_backedTable (backed : Nat → Bool) :
    fileBacked (backedTable vma backed) vma = backed := by
  funext p
  simp only [fileBacked, backedTable, Nat.add_sub_cancel_left]
  rcases backed p with _ | _ <;> decide

/-- Every range that is dropped for a file mapping holds only pages backed by the
file, exactly when no failed read puts the entries out of step with the pages of
a range. -/
theorem file_drops_backed_iff (vma : VmArea pageSize) (hfile : vma.flags = flagFile)
    (reads : Nat → PagemapRead) :
    (∀ (table : PageTable) (State : Type) (ops : RegionOps State) (st : State) (addr len : Nat),
        .freeVmRegion addr len ∈ vmaCalls ops true (readTable table reads vma) vma st →
          FilePages pageSize table addr len) ↔ InStep vma.nrpages reads := by
  rw [← safe_iff_inStep]
  constructor
  · intro h backed s hs
    have hmem : s ∈ spans none (fileMarks (fileBacked (backedTable vma backed) vma) reads)
        vma.nrpages 0 none := by
      rwa [fileBacked_backedTable]
    have hpages := h _ _ _ _ _ _ (mem_vmaCalls_obliging hfile hmem)
    rwa [filePages_iff, fileBacked_backedTable] at hpages
  · intro h table State ops st addr len hcall
    obtain ⟨s, hs, hspan⟩ := exists_span_of_mem hcall
    rw [pageLimit, if_neg (not_dumps hfile), mark_readTable hfile] at hs
    rw [spanCall_file hfile] at hspan
    cases hspan
    exact (filePages_iff s).mpr (h _ s hs)

end Mapping

/-- Four pages of a file mapping. -/
def filePages : VmArea 4096 where
  start := 4096
  stop := 20480
  flags := flagFile
  start_pos := fourKib_pos
  start_lt_stop := by decide
  stop_lt := by decide
  start_aligned := fourKib_dvd_self
  stop_aligned := by decide

/-- The read for the given page fails. -/
def unreadPage (page : Nat) (moves : Bool) (idx : Nat) : PagemapRead :=
  if idx = page then .fails moves else .delivers

theorem file_drops_backed_unreadFirst :
    filePages.flags = flagFile ∧
    ∀ (table : PageTable) (State : Type) (ops : RegionOps State) (st : State) (addr len : Nat),
      .freeVmRegion addr len ∈
          vmaCalls ops true (readTable table (unreadPage 0 true) filePages) filePages st →
        FilePages 4096 table addr len := by
  refine ⟨rfl, (file_drops_backed_iff filePages rfl (unreadPage 0 true)).mpr ?_⟩
  intro i _ _ k _ moves hfails
  simp only [unreadPage] at hfails
  split at hfails
  · rename_i hzero
    cases hfails
    exact ⟨rfl, fun m hm => by omega⟩
  · cases hfails

theorem unreadSecond_private_dropped :
    (∃ addr len, .freeVmRegion addr len ∈
        vmaCalls obligingOps true
          (readTable (backedTable filePages fun p => p % 2 = 0) (unreadPage 1 false) filePages)
          filePages () ∧
      ¬ FilePages 4096 (backedTable filePages fun p => p % 2 = 0) addr len) ∧
    ∃ addr len, .freeVmRegion addr len ∈
        vmaCalls obligingOps true
          (readTable (backedTable filePages fun p => p % 2 = 0) (unreadPage 1 true) filePages)
          filePages () ∧
      ¬ FilePages 4096 (backedTable filePages fun p => p % 2 = 0) addr len := by
  constructor
  · refine ⟨16384, 4096, by decide, fun h => ?_⟩
    exact absurd (h 16384 (by decide)) (by decide)
  · refine ⟨4096, 8192, by decide, fun h => ?_⟩
    exact absurd (h 8192 (by decide)) (by decide)

end Memcr.FileDrops
