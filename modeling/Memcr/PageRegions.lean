import Memcr.CheckpointMemory
import Memcr.RunCollection

namespace Memcr.PageRegions

open Memcr.ByteMemory
open Memcr.CallOutcome
open Memcr.CheckpointMemory
open Memcr.DumpFormat
open Memcr.PageSelection
open Memcr.RunCollection

/-- What the loop reads, by the index of the page it is at. -/
structure Seen where
  /-- The pagemap entry, unless the read fails. -/
  entry : Nat → Option (BitVec 64)
  /-- The `kpageflags` of the frame, unless the read fails. -/
  kpageflags : Nat → Option (BitVec 64)

/-- What the page loop asks its caller to do with a run of pages. -/
inductive Call where
  | getVmRegion (addr len : Nat)
  | freeVmRegion (addr len : Nat)
  deriving DecidableEq, Repr

def Call.addr : Call → Nat
  | .getVmRegion addr _ => addr
  | .freeVmRegion addr _ => addr

def Call.len : Call → Nat
  | .getVmRegion _ len => len
  | .freeVmRegion _ len => len

section Loop

variable {pageSize : Nat}

/-- `visitPage` for the answers of the pagemap and of kpageflags that were seen. -/
def Seen.visit (seen : Seen) (rssFile : Bool) (vma : VmArea pageSize)
    (idx regionStart regionLength : Nat) : Visit :=
  visitPage rssFile
    { entry := fun _ => (seen.entry idx).getD 0
      kpageflags := fun _ => seen.kpageflags idx }
    (fun _ => (seen.entry idx).isSome) vma idx regionStart regionLength

/-- What a page table answers when some reads of the pagemap fail. -/
def Seen.ofTable (table : PageTable) (reads : Nat → Bool) (vma : VmArea pageSize) : Seen where
  entry idx :=
    let page := vma.start / pageSize + idx
    if reads page then some (table.entry page) else none
  kpageflags idx :=
    table.kpageflags (table.entry (vma.start / pageSize + idx) &&& pmPageFrameNumberMask)

theorem visit_ofTable (rssFile : Bool) (table : PageTable) (reads : Nat → Bool)
    (vma : VmArea pageSize) :
    (Seen.ofTable table reads vma).visit rssFile vma = visitPage rssFile table reads vma := by
  funext idx a l
  rcases hread : reads (vma.start / pageSize + idx) with _ | _ <;>
    simp [Seen.visit, Seen.ofTable, visitPage, visitAnon, pageUnevictable, hread]

/-- The calls behind one that may fail or not return at all. -/
def callsAfter {State : Type} (fails : Int → Bool) (outcome : Outcome (Int × State))
    (next : State → List Call) : List Call :=
  match outcome with
  | .returns (ret, s) => if fails ret then [] else next s
  | _ => []

/-- The calls that the loop makes. -/
def regionCalls {State : Type} (ops : RegionOps State) (visit : Nat → Nat → Nat → Visit) :
    Nat → Nat → Nat → Nat → State → List Call
  | 0, _, _, _, _ => []
  | left + 1, idx, regionStart, regionLength, s =>
      match visit idx regionStart regionLength with
      | .goOn start length => regionCalls ops visit left (idx + 1) start length s
      | .dump start length =>
          .getVmRegion start length ::
            callsAfter (· ≤ 0) (ops.getVmRegion start length s) fun s =>
              regionCalls ops visit left (idx + 1) 0 0 s
      | .free start length =>
          .freeVmRegion start length ::
            callsAfter (· ≠ 0) (ops.freeVmRegion start length s) fun s =>
              regionCalls ops visit left (idx + 1) 0 0 s

def vmaCalls {State : Type} (ops : RegionOps State) (rssFile : Bool) (seen : Seen)
    (vma : VmArea pageSize) (s : State) : List Call :=
  regionCalls ops (seen.visit rssFile vma) vma.nrpages 0 0 0 s

/-- Whether the pages of a mapping are dumped. -/
def Dumps (vma : VmArea pageSize) : Prop :=
  vma.flags &&& (flagAnon ||| flagHeap ||| flagStack) ≠ 0

instance (vma : VmArea pageSize) : Decidable (Dumps vma) :=
  inferInstanceAs (Decidable (_ ≠ _))

/-- The page is present, and kpageflags says that it is unevictable. -/
def Seen.unevictable (seen : Seen) (idx : Nat) (map : BitVec 64) : Bool :=
  map.getLsbD pmPagePresent && (seen.kpageflags idx).any (·.getLsbD kpfUnevictable)

/-- In units of pages the loop collects runs: a page is taken into the run, stops it, or
is passed over. -/
def Seen.mark (seen : Seen) (rssFile : Bool) (vma : VmArea pageSize) (idx : Nat) : Mark :=
  match seen.entry idx with
  | none => .pass
  | some map =>
      if Dumps vma then
        if map.getLsbD pmPagePresent || map.getLsbD pmPageSwapped then
          if seen.unevictable idx map then .pass else .take
        else .stop
      else if rssFile && decide (vma.flags &&& flagFile ≠ 0) then
        if map.getLsbD pmPageFileOrSharedAnon then .take else .stop
      else .pass

/-- The number of pages with which a region to dump is full. -/
def pagesPerRegion (pageSize : Nat) : Nat := (maxVmRegionSize + pageSize - 1) / pageSize

def pageLimit (vma : VmArea pageSize) : Option Nat :=
  if Dumps vma then some (pagesPerRegion pageSize) else none

/-- `region_start` and `region_length` for the run that is open. -/
def regionStart (vma : VmArea pageSize) (current : Option Span) : Nat :=
  current.elim 0 fun s => vma.address s.first

def regionLength (pageSize : Nat) (current : Option Span) : Nat :=
  current.elim 0 fun s => s.count * pageSize

/-- What the loop does with a run that is complete. -/
def handOut (vma : VmArea pageSize) (s : Span) : Visit :=
  if Dumps vma then .dump (vma.address s.first) (s.count * pageSize)
  else .free (vma.address s.first) (s.count * pageSize)

/-- The call for a run. -/
def spanCall (vma : VmArea pageSize) (s : Span) : Call :=
  if Dumps vma then .getVmRegion (vma.address s.first) (s.count * pageSize)
  else .freeVmRegion (vma.address s.first) (s.count * pageSize)

theorem VmArea.pageSize_pos (vma : VmArea pageSize) : 0 < pageSize :=
  Nat.pos_of_dvd_of_pos vma.start_aligned vma.start_pos

theorem lt_pagesPerRegion {count : Nat} (hpage : 0 < pageSize) :
    count < pagesPerRegion pageSize ↔ count * pageSize < maxVmRegionSize := by
  have hmax : 0 < maxVmRegionSize := by decide
  rw [pagesPerRegion, Nat.lt_div_iff_mul_lt hpage]
  constructor <;> intro h <;> rw [Nat.mul_comm] at * <;> omega

theorem regionStart_grow (vma : VmArea pageSize) (idx : Nat) (current : Option Span) :
    (if regionStart vma current = 0 then vma.address idx else regionStart vma current) =
      regionStart vma (some (grow idx current)) := by
  rcases current with _ | s
  · rfl
  · exact if_neg (vma.address_ne_zero s.first)

theorem regionLength_grow (pageSize idx : Nat) (current : Option Span) :
    regionLength pageSize current + pageSize =
      regionLength pageSize (some (grow idx current)) := by
  rcases current with _ | s
  · simp [regionLength, grow]
  · simp only [regionLength, grow, Option.elim_some]
    ring

/-- What is done with the open run at a page with the given mark. -/
def markVisit (vma : VmArea pageSize) (idx : Nat) (current : Option Span) : Mark → Visit
  | .pass => .goOn (regionStart vma current) (regionLength pageSize current)
  | .stop => current.elim (.goOn 0 0) (handOut vma)
  | .take =>
      let s := grow idx current
      if idx + 1 < vma.nrpages ∧ full (pageLimit vma) s.count = false then
        .goOn (regionStart vma (some s)) (regionLength pageSize (some s))
      else handOut vma s

theorem endRun_eq {act : Nat → Nat → Visit} {vma : VmArea pageSize}
    (hact : ∀ s : Span, act (vma.address s.first) (s.count * pageSize) = handOut vma s)
    (current : Option Span) :
    endRun act (regionStart vma current) (regionLength pageSize current) =
      current.elim (.goOn 0 0) (handOut vma) := by
  rcases current with _ | s
  · rfl
  · exact (if_neg (vma.address_ne_zero s.first)).trans (hact s)

theorem visitAnon_eq {vma : VmArea pageSize} (hdumps : Dumps vma) (table : PageTable)
    (map : BitVec 64) (idx : Nat) (current : Option Span) :
    visitAnon table vma map idx (regionStart vma current) (regionLength pageSize current) =
      markVisit vma idx current
        (if map.getLsbD pmPagePresent || map.getLsbD pmPageSwapped then
          if map.getLsbD pmPagePresent && pageUnevictable table (map &&& pmPageFrameNumberMask)
            then .pass else .take
          else .stop) := by
  have hact (s : Span) : Visit.dump (vma.address s.first) (s.count * pageSize) = handOut vma s :=
    (if_pos hdumps).symm
  have hfull : regionLength pageSize (some (grow idx current)) < maxVmRegionSize ↔
      full (pageLimit vma) (grow idx current).count = false := by
    rw [pageLimit, if_pos hdumps, full, Option.any_some, decide_eq_false_iff_not, not_le,
      lt_pagesPerRegion (VmArea.pageSize_pos vma)]
    rfl
  simp only [visitAnon, regionStart_grow, regionLength_grow pageSize idx, endRun_eq hact, hfull]
  split
  · split
    · rfl
    · rfl
  · rfl

theorem visitFile_eq {vma : VmArea pageSize} (hdumps : ¬ Dumps vma) (map : BitVec 64) (idx : Nat)
    (current : Option Span) :
    visitFile vma map idx (regionStart vma current) (regionLength pageSize current) =
      markVisit vma idx current
        (if map.getLsbD pmPageFileOrSharedAnon then .take else .stop) := by
  have hact (s : Span) : Visit.free (vma.address s.first) (s.count * pageSize) = handOut vma s :=
    (if_neg hdumps).symm
  have hfull : full (pageLimit vma) (grow idx current).count = false := by
    rw [pageLimit, if_neg hdumps]
    rfl
  simp only [visitFile, regionStart_grow, regionLength_grow pageSize idx, endRun_eq hact]
  split
  · simp only [markVisit, hfull, and_true]
    rfl
  · rfl

theorem pageUnevictable_seen (seen : Seen) (idx : Nat) (entry : Nat → BitVec 64)
    (pfn : BitVec 64) :
    pageUnevictable ⟨entry, fun _ => seen.kpageflags idx⟩ pfn =
      (seen.kpageflags idx).any (·.getLsbD kpfUnevictable) := by
  rcases hflags : seen.kpageflags idx with _ | flags <;> simp [pageUnevictable]

theorem visit_eq (seen : Seen) (rssFile : Bool) (vma : VmArea pageSize) (idx : Nat)
    (current : Option Span) :
    seen.visit rssFile vma idx (regionStart vma current) (regionLength pageSize current) =
      markVisit vma idx current (seen.mark rssFile vma idx) := by
  rcases hentry : seen.entry idx with _ | map
  · simp [Seen.visit, Seen.mark, visitPage, hentry, markVisit]
  · simp only [Seen.visit, Seen.mark, visitPage, hentry, Option.isSome_some, Bool.not_true,
      Bool.false_eq_true, if_false, Option.getD_some]
    by_cases hdumps : Dumps vma
    · have hflags : vma.flags &&& (flagAnon ||| flagHeap ||| flagStack) ≠ 0 := hdumps
      rw [if_pos hflags, if_pos hdumps, visitAnon_eq hdumps]
      simp only [pageUnevictable_seen, Seen.unevictable]
      rfl
    · have hflags : ¬ vma.flags &&& (flagAnon ||| flagHeap ||| flagStack) ≠ 0 := hdumps
      rw [if_neg hflags, if_neg hdumps]
      split
      · exact visitFile_eq hdumps map idx current
      · rfl

section Calls

variable {State : Type} {ops : RegionOps State} {rssFile : Bool} {seen : Seen}
  {vma : VmArea pageSize} {visit : Nat → Nat → Nat → Visit} {left idx a l : Nat}
  {current : Option Span} {st st' : State}

theorem regionCalls_goOn {a' l' : Nat} (h : visit idx a l = .goOn a' l') :
    regionCalls ops visit (left + 1) idx a l st =
      regionCalls ops visit left (idx + 1) a' l' st := by
  simp only [regionCalls, h]

theorem callsAfter_begins {fails : Int → Bool} {outcome : Outcome (Int × State)}
    {next : State → List Call} {calls : List Call} (h : ∀ st, next st <+: calls) :
    callsAfter fails outcome next <+: calls := by
  simp only [callsAfter]
  split
  · split
    · exact List.nil_prefix
    · exact h _
  · exact List.nil_prefix

theorem regionCalls_handOut {s : Span} (h : visit idx a l = handOut vma s) {calls : List Call}
    (hrest : ∀ st, regionCalls ops visit left (idx + 1) 0 0 st <+: calls) :
    regionCalls ops visit (left + 1) idx a l st <+: spanCall vma s :: calls := by
  simp only [regionCalls, h, handOut, spanCall]
  split_ifs
  · exact List.cons_prefix_cons.mpr ⟨rfl, callsAfter_begins hrest⟩
  · exact List.cons_prefix_cons.mpr ⟨rfl, callsAfter_begins hrest⟩

theorem not_ends_iff (hn : idx + (left + 1) = vma.nrpages) {count : Nat} :
    ¬ (left = 0 ∨ full (pageLimit vma) count = true) ↔
      idx + 1 < vma.nrpages ∧ full (pageLimit vma) count = false := by
  rw [not_or, Bool.not_eq_true]
  exact and_congr_left fun _ => by omega

theorem regionCalls_begins (hn : idx + left = vma.nrpages) :
    regionCalls ops (seen.visit rssFile vma) left idx (regionStart vma current)
        (regionLength pageSize current) st <+:
      (spans (pageLimit vma) (seen.mark rssFile vma) left idx current).map (spanCall vma) := by
  induction left generalizing idx current st with
  | zero => exact List.prefix_rfl
  | succ left ih =>
      have hnext : idx + 1 + left = vma.nrpages := by omega
      have hfresh : ∀ st, regionCalls ops (seen.visit rssFile vma) left (idx + 1) 0 0 st <+:
          (spans (pageLimit vma) (seen.mark rssFile vma) left (idx + 1) none).map (spanCall vma) :=
        fun st => @ih (idx + 1) none st hnext
      have hvisit := visit_eq seen rssFile vma idx current
      rcases hmark : seen.mark rssFile vma idx with _ | _ | _ <;>
        rw [hmark] at hvisit
      · rw [spans_pass hmark, regionCalls_goOn hvisit]
        exact ih hnext
      · rw [spans_take hmark]
        simp only [markVisit, ← not_ends_iff hn] at hvisit
        split
        · rename_i hends
          rw [if_neg (not_not.mpr hends)] at hvisit
          exact regionCalls_handOut hvisit hfresh
        · rename_i hgoes
          rw [if_pos hgoes] at hvisit
          rw [regionCalls_goOn hvisit]
          exact ih hnext
      · rw [spans_stop hmark]
        rcases current with _ | s
        · rw [regionCalls_goOn hvisit]
          exact hfresh st
        · exact regionCalls_handOut hvisit hfresh

theorem vmaCalls_begins :
    vmaCalls ops rssFile seen vma st <+:
      (spans (pageLimit vma) (seen.mark rssFile vma) vma.nrpages 0 none).map (spanCall vma) :=
  @regionCalls_begins _ _ _ _ _ _ _ _ none _ (Nat.zero_add _)

theorem exists_span_of_mem {call : Call} (h : call ∈ vmaCalls ops rssFile seen vma st) :
    ∃ s ∈ spans (pageLimit vma) (seen.mark rssFile vma) vma.nrpages 0 none,
      spanCall vma s = call :=
  List.mem_map.mp (vmaCalls_begins.subset h)

theorem VmArea.address_add (vma : VmArea pageSize) (idx count : Nat) :
    vma.address idx + count * pageSize = vma.address (idx + count) := by
  simp only [VmArea.address]
  ring

/-- Pages inside the mapping, whole and at least one. -/
structure WellFormed (vma : VmArea pageSize) (call : Call) : Prop where
  aligned : pageSize ∣ call.addr
  whole : pageSize ∣ call.len
  pos : 0 < call.len
  start_le : vma.start ≤ call.addr
  le_stop : call.addr + call.len ≤ vma.stop

theorem spanCall_addr (vma : VmArea pageSize) (s : Span) :
    (spanCall vma s).addr = vma.address s.first := by
  simp only [spanCall]
  split <;> rfl

theorem spanCall_len (vma : VmArea pageSize) (s : Span) :
    (spanCall vma s).len = s.count * pageSize := by
  simp only [spanCall]
  split <;> rfl

theorem spanCall_wellFormed {s : Span} (hpos : 0 < s.count) (hstop : s.stop ≤ vma.nrpages) :
    WellFormed vma (spanCall vma s) where
  aligned := by
    rw [spanCall_addr]
    exact vma.address_aligned s.first
  whole := by
    rw [spanCall_len]
    exact Nat.dvd_mul_left _ _
  pos := by
    rw [spanCall_len]
    exact Nat.mul_pos hpos (VmArea.pageSize_pos vma)
  start_le := by
    rw [spanCall_addr]
    exact Nat.le_add_right _ _
  le_stop := by
    rw [spanCall_addr, spanCall_len, VmArea.address_add, ← vma.address_nrpages]
    exact vma.address_mono hstop

theorem spanCall_pairwise {runs : List Span} (h : runs.Pairwise fun s t => s.stop ≤ t.first) :
    (runs.map (spanCall vma)).Pairwise fun c c' => c.addr + c.len ≤ c'.addr := by
  rw [List.pairwise_map]
  refine h.imp fun {s t} hle => ?_
  rw [spanCall_addr, spanCall_len, spanCall_addr, VmArea.address_add]
  exact vma.address_mono hle

theorem pagesPerRegion_mul (hdvd : pageSize ∣ maxVmRegionSize) :
    pagesPerRegion pageSize * pageSize = maxVmRegionSize := by
  obtain ⟨k, hk⟩ := hdvd
  have hpage : 0 < pageSize := Nat.pos_of_dvd_of_pos ⟨k, hk⟩ (by decide)
  have hcount : pagesPerRegion pageSize = k := by
    rw [pagesPerRegion, hk, Nat.add_sub_assoc hpage, Nat.mul_add_div hpage,
      Nat.div_eq_of_lt (by omega), Nat.add_zero]
  rw [hcount, hk, Nat.mul_comm]

theorem pagesPerRegion_pos (hpage : 0 < pageSize) : 0 < pagesPerRegion pageSize := by
  rw [lt_pagesPerRegion hpage, Nat.zero_mul]
  decide

end Calls

theorem wellFormed_of_mem {call : Call} (h : call ∈ vmaCalls ops rssFile seen vma st) :
    WellFormed vma call := by
  obtain ⟨s, hs, rfl⟩ := exists_span_of_mem h
  obtain ⟨hpos, hstop⟩ := spans_bounded (behind_none 0) s hs
  exact spanCall_wellFormed hpos (by omega)

/-- Every region handed out lies page aligned inside the mapping, behind the one
before it, and one that is dumped fits the buffer it is read into. -/
theorem regions_wellFormed (hdvd : pageSize ∣ maxVmRegionSize) (vma : VmArea pageSize)
    (rssFile : Bool) (seen : Seen) {State : Type} (ops : RegionOps State) (st : State) :
    (∀ call ∈ vmaCalls ops rssFile seen vma st, WellFormed vma call) ∧
    (vmaCalls ops rssFile seen vma st).Pairwise (fun c c' => c.addr + c.len ≤ c'.addr) ∧
    ∀ addr len, .getVmRegion addr len ∈ vmaCalls ops rssFile seen vma st →
      len ≤ maxVmRegionSize := by
  refine ⟨?_, ?_, ?_⟩
  · intro call hcall
    exact wellFormed_of_mem hcall
  · exact (spanCall_pairwise (spans_pairwise (behind_none 0))).sublist vmaCalls_begins.sublist
  · intro addr len hcall
    obtain ⟨s, hs, heq⟩ := exists_span_of_mem hcall
    simp only [spanCall] at heq
    split at heq
    · rename_i hdumps
      cases heq
      rw [pageLimit, if_pos hdumps] at hs
      rw [← pagesPerRegion_mul hdvd]
      apply Nat.mul_le_mul_right
      exact spans_count_le (pagesPerRegion_pos (VmArea.pageSize_pos vma)) (by simp) s hs
    · cases heq

/-- Three pages behind the first one. -/
def threePages : VmArea 4096 where
  start := 4096
  stop := 16384
  flags := flagAnon
  start_pos := fourKib_pos
  start_lt_stop := by decide
  stop_lt := by decide
  start_aligned := fourKib_dvd_self
  stop_aligned := by decide

/-- Pages that are present; the pagemap entry of the second one cannot be read. -/
def unreadMiddle : Seen where
  entry idx := if idx = 1 then none else some 0x8000000000000000#64
  kpageflags _ := none

/-- Region operations that always succeed. -/
def obligingOps : RegionOps Unit where
  getVmRegion _ _ s := .returns (1, s)
  freeVmRegion _ _ s := .returns (0, s)

theorem regions_wellFormed_unreadMiddle :
    vmaCalls obligingOps true unreadMiddle threePages () = [.getVmRegion 4096 8192] ∧
      (∀ call ∈ vmaCalls obligingOps true unreadMiddle threePages (),
        WellFormed threePages call) ∧
      (vmaCalls obligingOps true unreadMiddle threePages ()).Pairwise
        (fun c c' => c.addr + c.len ≤ c'.addr) ∧
      ∀ addr len, .getVmRegion addr len ∈ vmaCalls obligingOps true unreadMiddle threePages () →
        len ≤ maxVmRegionSize :=
  ⟨by decide, regions_wellFormed (by decide) threePages true unreadMiddle obligingOps ()⟩

section Selection

variable {State : Type} {ops : RegionOps State} {rssFile : Bool} {seen : Seen}
  {vma : VmArea pageSize} {visit : Nat → Nat → Nat → Visit} {left idx a l : Nat}
  {current : Option Span} {st st' : State}

theorem pageLoop_handOut {s : Span} (h : visit idx a l = handOut vma s)
    (hget : ∀ st st', ops.getVmRegion (vma.address s.first) (s.count * pageSize) st ≠
      .returns (0, st'))
    (hloop : pageLoop ops visit (left + 1) idx a l st = .returns (0, st')) :
    ∃ st₁, regionCalls ops visit (left + 1) idx a l st =
        spanCall vma s :: regionCalls ops visit left (idx + 1) 0 0 st₁ ∧
      pageLoop ops visit left (idx + 1) 0 0 st₁ = .returns (0, st') := by
  simp only [pageLoop, regionCalls, h, handOut, spanCall] at hloop ⊢
  split_ifs at hloop ⊢
  · obtain ⟨⟨ret, st₁⟩, hcall, hnext⟩ := Outcome.andThen_eq_returns.mp hloop
    simp only at hnext
    split at hnext
    · cases hnext
      exact absurd hcall (hget st st')
    · rename_i hpos
      exact ⟨st₁, by simp [callsAfter, hcall, hpos], hnext⟩
  · obtain ⟨⟨ret, st₁⟩, hcall, hnext⟩ := Outcome.andThen_eq_returns.mp hloop
    simp only at hnext
    split at hnext
    · rename_i hne
      cases hnext
      exact absurd rfl hne
    · rename_i hzero
      exact ⟨st₁, by simp [callsAfter, hcall, hzero], hnext⟩

theorem regionCalls_eq (hn : idx + left = vma.nrpages) (hbehind : Behind idx current)
    (hget : ∀ a l st st', 0 < l → ops.getVmRegion a l st ≠ .returns (0, st'))
    (hloop : pageLoop ops (seen.visit rssFile vma) left idx (regionStart vma current)
      (regionLength pageSize current) st = .returns (0, st')) :
    regionCalls ops (seen.visit rssFile vma) left idx (regionStart vma current)
        (regionLength pageSize current) st =
      (spans (pageLimit vma) (seen.mark rssFile vma) left idx current).map (spanCall vma) := by
  induction left generalizing idx current st with
  | zero => rfl
  | succ left ih =>
      have hnext : idx + 1 + left = vma.nrpages := by omega
      have hhand {s : Span} (hpos : 0 < s.count)
          (hvisit : seen.visit rssFile vma idx (regionStart vma current)
            (regionLength pageSize current) = handOut vma s) :
          regionCalls ops (seen.visit rssFile vma) (left + 1) idx (regionStart vma current)
              (regionLength pageSize current) st =
            spanCall vma s :: (spans (pageLimit vma) (seen.mark rssFile vma) left (idx + 1)
              none).map (spanCall vma) := by
        have hlen := Nat.mul_pos hpos (VmArea.pageSize_pos vma)
        obtain ⟨st₁, hcalls, hrest⟩ := pageLoop_handOut hvisit (fun _ _ => hget _ _ _ _ hlen) hloop
        rw [hcalls]
        exact congrArg _ (@ih (idx + 1) none st₁ hnext (behind_none _) hrest)
      have hgoes {current' : Option Span} (hbehind' : Behind (idx + 1) current')
          (hvisit : seen.visit rssFile vma idx (regionStart vma current)
            (regionLength pageSize current) =
              .goOn (regionStart vma current') (regionLength pageSize current')) :
          regionCalls ops (seen.visit rssFile vma) (left + 1) idx (regionStart vma current)
              (regionLength pageSize current) st =
            (spans (pageLimit vma) (seen.mark rssFile vma) left (idx + 1) current').map
              (spanCall vma) := by
        rw [regionCalls_goOn hvisit]
        exact ih hnext hbehind' (by simpa only [pageLoop, hvisit] using hloop)
      have hvisit := visit_eq seen rssFile vma idx current
      rcases hmark : seen.mark rssFile vma idx with _ | _ | _ <;>
        rw [hmark] at hvisit
      · rw [spans_pass hmark]
        exact hgoes hbehind.succ hvisit
      · rw [spans_take hmark]
        simp only [markVisit, ← not_ends_iff hn] at hvisit
        split
        · rename_i hends
          rw [if_neg (not_not.mpr hends)] at hvisit
          exact hhand (hbehind.grow _ rfl).1 hvisit
        · rename_i hmore
          rw [if_pos hmore] at hvisit
          exact hgoes hbehind.grow hvisit
      · rw [spans_stop hmark]
        rcases current with _ | s
        · exact @hgoes none (behind_none _) hvisit
        · exact hhand (hbehind s rfl).1 hvisit

/-- How many of the calls to `get_vm_region` cover an address. -/
def dumped (calls : List Call) (x : Nat) : Nat :=
  calls.countP fun
    | .getVmRegion addr len => decide (Within addr len x)
    | .freeVmRegion _ _ => false

/-- The pages to dump: present or swapped, and not both present and unevictable. -/
def Seen.selected (seen : Seen) (idx : Nat) : Bool :=
  (seen.entry idx).any fun map =>
    (map.getLsbD pmPagePresent || map.getLsbD pmPageSwapped) && !seen.unevictable idx map

theorem mark_take_iff (hdumps : Dumps vma) :
    seen.mark rssFile vma idx = .take ↔ seen.selected idx = true := by
  simp only [Seen.mark, Seen.selected, hdumps, if_true]
  rcases seen.entry idx with _ | map
  · simp
  · simp only [Option.any_some, Bool.and_eq_true, Bool.not_eq_true']
    split_ifs <;> simp_all

theorem within_spanCall_iff {s : Span} {x : Nat} (hx : vma.start ≤ x) :
    Within (vma.address s.first) (s.count * pageSize) x ↔
      s.Covers ((x - vma.start) / pageSize) := by
  have hpage := VmArea.pageSize_pos vma
  rw [Within, VmArea.address_add, Span.Covers, Span.stop, Nat.le_div_iff_mul_le hpage,
    Nat.div_lt_iff_lt_mul hpage]
  simp only [VmArea.address]
  omega

theorem dumped_spans (hdumps : Dumps vma) (runs : List Span) {x : Nat} (hx : vma.start ≤ x) :
    dumped (runs.map (spanCall vma)) x = covering runs ((x - vma.start) / pageSize) := by
  rw [dumped, List.countP_map, covering]
  congr 1
  funext s
  simp only [Function.comp_apply, spanCall, if_pos hdumps, decide_eq_decide]
  exact within_spanCall_iff hx

theorem dumped_before (hdumps : Dumps vma) (runs : List Span) {x : Nat} (hx : x < vma.start) :
    dumped (runs.map (spanCall vma)) x = 0 := by
  rw [dumped, List.countP_map, List.countP_eq_zero]
  intro s _
  simp only [Function.comp_apply, spanCall, if_pos hdumps, decide_eq_true_eq]
  intro hin
  have hlow := hin.1
  simp only [VmArea.address] at hlow
  omega

theorem lt_stop_iff {x : Nat} (hx : vma.start ≤ x) :
    x < vma.stop ↔ (x - vma.start) / pageSize < vma.nrpages := by
  rw [Nat.div_lt_iff_lt_mul (VmArea.pageSize_pos vma), ← vma.address_nrpages]
  simp only [VmArea.address]
  omega

theorem dumped_iff_covering (rssFile : Bool) (hdumps : Dumps vma) (runs : List Span) :
    (∀ x, dumped (runs.map (spanCall vma)) x =
        if vma.start ≤ x ∧ x < vma.stop ∧ seen.selected ((x - vma.start) / pageSize) = true
        then 1 else 0) ↔
      ∀ p, covering runs p = due vma.nrpages (seen.mark rssFile vma) 0 p := by
  have hpage := VmArea.pageSize_pos vma
  constructor
  · intro h p
    have hstart : vma.start ≤ vma.address p := Nat.le_add_right _ _
    have hindex : (vma.address p - vma.start) / pageSize = p := by
      simp only [VmArea.address, Nat.add_sub_cancel_left]
      exact Nat.mul_div_cancel p hpage
    have hx := h (vma.address p)
    rw [dumped_spans hdumps runs hstart] at hx
    simp only [lt_stop_iff hstart, hindex, hstart, true_and] at hx
    rw [hx]
    simp only [due, mark_take_iff hdumps, true_and, Nat.zero_le]
  · intro h x
    by_cases hx : vma.start ≤ x
    · rw [dumped_spans hdumps runs hx, h]
      simp only [due, mark_take_iff hdumps, lt_stop_iff hx, hx, true_and, Nat.zero_le]
    · rw [dumped_before hdumps runs (not_le.mp hx), if_neg fun hin => hx hin.1]

end Selection

end Loop

/-- `get_vma_pages` from its loop on, for any sequence of answers to its reads. -/
def seenVmaPages (cfg : Config) (env : CheckpointEnv) (seen : Seen) (vma : VmArea cfg.pageSize)
    (d : Download) : Outcome (Int × Download) :=
  pageLoop (regionOps cfg env) (seen.visit env.rssFile vma) vma.nrpages 0 0 0 d

theorem getVmaPages_eq_seenVmaPages (cfg : Config) (env : CheckpointEnv)
    (vma : VmArea cfg.pageSize) (d : Download) (hopens : env.pagemapOpens = true)
    (hseeks : env.fails d.calls = false) :
    getVmaPages cfg env vma d =
      seenVmaPages cfg env (Seen.ofTable env.table env.pagemapReads vma) vma
        { d with calls := d.calls + 1 } := by
  simp only [getVmaPages, vmaPages, hopens, hseeks, if_true, Bool.false_eq_true, if_false,
    seenVmaPages, visit_ofTable]

theorem getVmRegion_ne_zero {cfg : Config} {env : CheckpointEnv} {addr len : Nat}
    {d d' : Download} (hpos : 0 < len) : getVmRegion cfg env addr len d ≠ .returns (0, d') := by
  intro hget
  rcases fetchVmRegion_cases hget with hneg | ⟨hle, count, outstanding, calls, -, hwrite⟩
  · omega
  · obtain ⟨⟨ret, w⟩, hregion, hnext⟩ := Outcome.andThen_eq_returns.mp hwrite
    cases hnext
    have hsmall : len < 2 ^ 31 := by
      simp only [maxVmRegionSize] at hle
      omega
    have hlen : (BitVec.ofNat 64 len).toNat = len := ofNat_toNat_of_lt (by omega)
    rcases writeVmRegion_ret hregion with hneg | hvalue
    · omega
    · rw [regionAt, hlen, ByteWords.toInt32_of_lt hsmall] at hvalue
      omega

theorem vmaCalls_eq {cfg : Config} {env : CheckpointEnv} {seen : Seen}
    {vma : VmArea cfg.pageSize} {d d' : Download}
    (hret : seenVmaPages cfg env seen vma d = .returns (0, d')) :
    vmaCalls (regionOps cfg env) env.rssFile seen vma d =
      (spans (pageLimit vma) (seen.mark env.rssFile vma) vma.nrpages 0 none).map
        (spanCall vma) :=
  @regionCalls_eq _ _ _ _ _ _ _ _ none _ _ (Nat.zero_add _) (behind_none 0)
    (fun _ _ _ _ hpos => getVmRegion_ne_zero hpos) hret

/-- The selection is exact unless an unevictable page is met with a run open and
the page behind it, or behind the unevictable pages next to it, is selected or
not there: the run then goes on with its length one page behind its pages, or is
dropped at the end of the mapping. -/
theorem selection_exact_iff (cfg : Config) (env : CheckpointEnv) (seen : Seen)
    (vma : VmArea cfg.pageSize) (hdumps : Dumps vma) (d d' : Download)
    (hret : seenVmaPages cfg env seen vma d = .returns (0, d')) :
    (∀ x, dumped (vmaCalls (regionOps cfg env) env.rssFile seen vma d) x =
        if vma.start ≤ x ∧ x < vma.stop ∧
          seen.selected ((x - vma.start) / cfg.pageSize) = true then 1 else 0) ↔
      Separated (pagesPerRegion cfg.pageSize) vma.nrpages (seen.mark env.rssFile vma) 0 := by
  rw [vmaCalls_eq hret, dumped_iff_covering env.rssFile hdumps, pageLimit, if_pos hdumps,
    ← covering_iff (pagesPerRegion_pos (VmArea.pageSize_pos vma)) (Nat.zero_add _)
      (Tight.none fun _ => rfl)]
  simp

theorem getVmRegion_quiet (addr len : Nat) (hvalid : vmRegionValid 4096
      { addr := BitVec.ofNat 64 addr, len := BitVec.ofNat 64 len } = true)
    (hpos : 0 < len) (hle : len ≤ maxVmRegionSize) (d : Download) :
    ∃ d', getVmRegion (DumpRestore.plainConfig false) tinyEnv addr len d =
      .returns (len, d') := by
  have hsmall : len < 2 ^ 31 := by
    simp only [maxVmRegionSize] at hle
    omega
  have hlen : (BitVec.ofNat 64 len).toNat = len := ofNat_toNat_of_lt (by omega)
  have hheader (vmr : VmRegion) : vmr.bytes ≠ [] := by
    apply List.ne_nil_of_length_pos
    rw [VmRegion.bytes_length]
    decide
  have hdata (mem : Memory) : slice mem (BitVec.ofNat 64 addr).toNat len ≠ [] := by
    apply List.ne_nil_of_length_pos
    rw [slice_length]
    exact hpos
  have hret : ByteWords.toInt32 len = len := ByteWords.toInt32_of_lt hsmall
  have hnonneg : ¬ (len : Int) < 0 := by omega
  simp only [getVmRegion, fetchVmRegion, tinyEnv, if_true, Bool.false_eq_true, if_false,
    not_lt.mpr hle, writeDownload, writeVmRegion, DumpRestore.plainConfig, regionAt, hvalid,
    Bool.not_true, dumpWrite, hheader, Outcome.returns_andThen, compressWrite, plainWrite, hlen,
    hdata, slice_length, hret, hnonneg, Bool.false_and]
  exact ⟨_, rfl⟩

/-- A present page, an unevictable one, and one that is `resident` or not. -/
def lockedMiddle (resident : Bool) : Seen where
  entry idx := some (if idx < 2 || resident then 0x8000000000000000#64 else 0#64)
  kpageflags idx := some (if idx = 1 then 0x40000#64 else 0#64)

def noDownload : Download := ⟨fun _ => 0, [], DumpRestore.Writer.start, 0⟩

theorem threePages_dumps : Dumps threePages := by decide

theorem lockedMiddle_returns (resident : Bool) (len : Nat)
    (hlast : (lockedMiddle resident).visit true threePages 2 4096 4096 = .dump 4096 len)
    (hvalid : vmRegionValid 4096 { addr := 4096, len := BitVec.ofNat 64 len } = true)
    (hpos : 0 < len) (hle : len ≤ maxVmRegionSize) :
    ∃ d', seenVmaPages (DumpRestore.plainConfig false) tinyEnv (lockedMiddle resident) threePages
      noDownload = .returns (0, d') := by
  have hfirst : (lockedMiddle resident).visit true threePages 0 0 0 = .goOn 4096 4096 := by
    rcases resident with _ | _ <;> decide
  have hmiddle : (lockedMiddle resident).visit true threePages 1 4096 4096 =
      .goOn 4096 4096 := by
    rcases resident with _ | _ <;> decide
  obtain ⟨d', hget⟩ := getVmRegion_quiet 4096 len hvalid hpos hle noDownload
  refine ⟨d', ?_⟩
  change pageLoop _ ((lockedMiddle resident).visit true threePages) 3 0 0 0 noDownload = _
  simp only [pageLoop, hfirst, hmiddle, hlast, regionOps, hget, Outcome.returns_andThen]
  exact if_neg (by omega)

theorem selection_exact_lockedMiddle :
    (lockedMiddle false).mark true threePages 1 = .pass ∧
    ∀ x, dumped (vmaCalls (regionOps (DumpRestore.plainConfig false) tinyEnv) true
        (lockedMiddle false) threePages noDownload) x =
      if 4096 ≤ x ∧ x < 16384 ∧ (lockedMiddle false).selected ((x - 4096) / 4096) = true
      then 1 else 0 := by
  obtain ⟨d', hret⟩ := lockedMiddle_returns false 4096 (by decide) (by decide) (by decide)
    (by decide)
  refine ⟨by decide, ?_⟩
  apply (selection_exact_iff (DumpRestore.plainConfig false) tinyEnv (lockedMiddle false)
    threePages threePages_dumps noDownload d' hret).mpr
  rintro i - hi hpass -
  have hfirst : (lockedMiddle false).mark true threePages 0 ≠ .pass := by decide
  have hlast : (lockedMiddle false).mark true threePages 2 ≠ .pass := by decide
  have hthree : i = 0 ∨ i = 1 ∨ i = 2 := by
    have : i < 3 := hi
    omega
  rcases hthree with rfl | rfl | rfl
  · exact absurd hpass hfirst
  · exact ⟨2, le_rfl, by decide, by decide, fun k hlow hhigh => by omega⟩
  · exact absurd hpass hlast

theorem lockedMiddle_selection_shifted :
    ∃ d', seenVmaPages (DumpRestore.plainConfig false) tinyEnv (lockedMiddle true) threePages
        noDownload = .returns (0, d') ∧
      (lockedMiddle true).selected 1 = false ∧ (lockedMiddle true).selected 2 = true ∧
      vmaCalls (regionOps (DumpRestore.plainConfig false) tinyEnv) true (lockedMiddle true)
        threePages noDownload = [.getVmRegion 4096 8192] ∧
      dumped [.getVmRegion 4096 8192] 8192 = 1 ∧ dumped [.getVmRegion 4096 8192] 12288 = 0 := by
  obtain ⟨d', hret⟩ := lockedMiddle_returns true 8192 (by decide) (by decide) (by decide)
    (by decide)
  refine ⟨d', hret, by decide, by decide, ?_, by decide, by decide⟩
  exact (vmaCalls_eq hret).trans (by decide)

end Memcr.PageRegions
