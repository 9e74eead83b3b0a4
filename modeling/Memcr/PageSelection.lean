import Memcr.DumpFormat

/-!
The page loop of `get_vma_pages`: which runs of pages of one mapping are dumped
and dropped, and which are only dropped. What is done with a run is left to the
caller, so that the loop is understood once for every way of reading memory.
-/

namespace Memcr.PageSelection

open Memcr.ByteMemory
open Memcr.CallOutcome
open Memcr.CallOutcome.Outcome
open Memcr.DumpFormat

/-- `struct vm_area` for a mapping that the kernel can report: whole pages,
not empty, not at address 0. -/
structure VmArea (pageSize : Nat) where
  start : Nat
  stop : Nat
  flags : Nat
  start_pos : 0 < start
  start_lt_stop : start < stop
  stop_lt : stop < 2 ^ 64
  start_aligned : pageSize ∣ start
  stop_aligned : pageSize ∣ stop

theorem fourKib_pos : 0 < 4096 := by decide

theorem fourKib_dvd_self : 4096 ∣ 4096 := by decide

def flagStack : Nat := 0x1
def flagHeap : Nat := 0x2
def flagAnon : Nat := 0x3
def flagFile : Nat := 0x4

def pmPageFileOrSharedAnon : Nat := 61

/-- `PM_PAGE_SWAPPED` -/
def pmPageSwapped : Nat := 62

/-- `PM_PAGE_PRESENT` -/
def pmPagePresent : Nat := 63

def pmPageFrameNumberMask : BitVec 64 := 0x007fffffffffffff#64

def kpfUnevictable : Nat := 18

/-- What `/proc/<pid>/pagemap` and `/proc/kpageflags` tell. -/
structure PageTable where
  /-- The pagemap entry of a page number. -/
  entry : Nat → BitVec 64
  /-- The `kpageflags` of a frame, unless reading them fails. -/
  kpageflags : BitVec 64 → Option (BitVec 64)

/-- `page_unevictable` -/
def pageUnevictable (table : PageTable) (pfn : BitVec 64) : Bool :=
  match table.kpageflags pfn with
  | none => false
  | some flags => flags.getLsbD kpfUnevictable

/-- What one round of the loop decides about the run of pages it has collected. -/
inductive Visit where
  | goOn (regionStart regionLength : Nat)
  | dump (regionStart regionLength : Nat)
  | free (regionStart regionLength : Nat)
  deriving DecidableEq, Repr

section Loop

variable {pageSize : Nat}

def VmArea.address (vma : VmArea pageSize) (idx : Nat) : Nat :=
  vma.start + idx * pageSize

/-- `nrpages` of `get_vma_pages` -/
def VmArea.nrpages (vma : VmArea pageSize) : Nat :=
  (vma.stop - vma.start) / pageSize

/-- The end of a run: nothing is done when no page has been collected. -/
def endRun (act : Nat → Nat → Visit) (regionStart regionLength : Nat) : Visit :=
  if regionStart = 0 then .goOn regionStart regionLength else act regionStart regionLength

/-- The branch of the loop for mappings that are not of a file: pages that are present
or swapped are dumped, unless they are unevictable. -/
def visitAnon (table : PageTable) (vma : VmArea pageSize) (map : BitVec 64)
    (idx regionStart regionLength : Nat) : Visit :=
  if map.getLsbD pmPagePresent || map.getLsbD pmPageSwapped then
    if map.getLsbD pmPagePresent && pageUnevictable table (map &&& pmPageFrameNumberMask) then
      .goOn regionStart regionLength
    else
      let regionStart := if regionStart = 0 then vma.address idx else regionStart
      let regionLength := regionLength + pageSize
      if idx + 1 < vma.nrpages ∧ regionLength < maxVmRegionSize then
        .goOn regionStart regionLength
      else endRun .dump regionStart regionLength
  else endRun .dump regionStart regionLength

/-- The branch of the loop for file mappings: pages that the file still has are dropped. -/
def visitFile (vma : VmArea pageSize) (map : BitVec 64)
    (idx regionStart regionLength : Nat) : Visit :=
  if map.getLsbD pmPageFileOrSharedAnon then
    let regionStart := if regionStart = 0 then vma.address idx else regionStart
    let regionLength := regionLength + pageSize
    if idx + 1 < vma.nrpages then .goOn regionStart regionLength
    else endRun .free regionStart regionLength
  else endRun .free regionStart regionLength

/-- One round of the loop; a failed read of the pagemap skips the page. -/
def visitPage (rssFile : Bool) (table : PageTable) (reads : Nat → Bool)
    (vma : VmArea pageSize) (idx regionStart regionLength : Nat) : Visit :=
  let page := vma.start / pageSize + idx
  if !reads page then .goOn regionStart regionLength
  else if vma.flags &&& (flagAnon ||| flagHeap ||| flagStack) ≠ 0 then
    visitAnon table vma (table.entry page) idx regionStart regionLength
  else if rssFile && decide (vma.flags &&& flagFile ≠ 0) then
    visitFile vma (table.entry page) idx regionStart regionLength
  else .goOn regionStart regionLength

/-- `get_vm_region` and `free_vm_region` as the loop calls them. -/
structure RegionOps (State : Type) where
  getVmRegion : Nat → Nat → State → Outcome (Int × State)
  freeVmRegion : Nat → Nat → State → Outcome (Int × State)

/-- The loop of `get_vma_pages` over the given number of remaining pages. -/
def pageLoop {State : Type} (ops : RegionOps State) (visit : Nat → Nat → Nat → Visit) :
    Nat → Nat → Nat → Nat → State → Outcome (Int × State)
  | 0, _, _, _, s => .returns (0, s)
  | left + 1, idx, regionStart, regionLength, s =>
      match visit idx regionStart regionLength with
      | .goOn start length => pageLoop ops visit left (idx + 1) start length s
      | .dump start length =>
          (ops.getVmRegion start length s).andThen fun (ret, s) =>
            if ret ≤ 0 then .returns (ret, s) else pageLoop ops visit left (idx + 1) 0 0 s
      | .free start length =>
          (ops.freeVmRegion start length s).andThen fun (ret, s) =>
            if ret ≠ 0 then .returns (ret, s) else pageLoop ops visit left (idx + 1) 0 0 s

/-- The invariant rule of the loop: `Inv` holds of the index, of the run under
construction and of the caller's state. -/
theorem pageLoop_invariant {State : Type} {ops : RegionOps State}
    {visit : Nat → Nat → Nat → Visit} {count : Nat} (Inv : Nat → Nat → Nat → State → Prop)
    (hgoOn : ∀ {idx a l a' l' s}, idx < count → Inv idx a l s → visit idx a l = .goOn a' l' →
      Inv (idx + 1) a' l' s)
    (hdump : ∀ {idx a l a' l' s ret s'}, idx < count → Inv idx a l s →
      visit idx a l = .dump a' l' → ops.getVmRegion a' l' s = .returns (ret, s') →
      ret ≠ 0 ∧ (0 < ret → Inv (idx + 1) 0 0 s'))
    (hfree : ∀ {idx a l a' l' s s'}, idx < count → Inv idx a l s →
      visit idx a l = .free a' l' → ops.freeVmRegion a' l' s = .returns (0, s') →
      Inv (idx + 1) 0 0 s')
    {left idx a l : Nat} {s s' : State} (hcount : idx + left = count) (hinit : Inv idx a l s)
    (hloop : pageLoop ops visit left idx a l s = .returns (0, s')) :
    ∃ a' l', Inv count a' l' s' := by
  induction left generalizing idx a l s with
  | zero =>
      cases hloop
      obtain rfl : idx = count := by omega
      exact ⟨a, l, hinit⟩
  | succ left ih =>
      simp only [pageLoop] at hloop
      split at hloop
      · rename_i a' l' hvisit
        exact ih (by omega) (hgoOn (by omega) hinit hvisit) hloop
      · rename_i a' l' hvisit
        obtain ⟨⟨ret, t⟩, hget, hnext⟩ := Outcome.andThen_eq_returns.mp hloop
        obtain ⟨hne, hpos⟩ := hdump (by omega) hinit hvisit hget
        simp only at hnext
        split at hnext
        · cases hnext
          exact absurd rfl hne
        · exact ih (by omega) (hpos (by omega)) hnext
      · rename_i a' l' hvisit
        obtain ⟨⟨ret, t⟩, hfreed, hnext⟩ := Outcome.andThen_eq_returns.mp hloop
        simp only at hnext
        split at hnext
        · rename_i hne
          cases hnext
          exact absurd rfl hne
        · rename_i hzero
          obtain rfl : ret = 0 := by simpa using hzero
          exact ih (by omega) (hfree (by omega) hinit hvisit hfreed) hnext

/-- The loop over one kind of state mirrors the loop over another when the
operations do. -/
theorem pageLoop_mirrors {State State' : Type} {ops : RegionOps State} {ops' : RegionOps State'}
    {visit : Nat → Nat → Nat → Visit} {count : Nat} (view : State → State')
    (Inv : Nat → Nat → Nat → State → Prop)
    (hgoOn : ∀ {idx a l a' l' s}, idx < count → Inv idx a l s → visit idx a l = .goOn a' l' →
      Inv (idx + 1) a' l' s)
    (hdump : ∀ {idx a l a' l' s}, idx < count → Inv idx a l s → visit idx a l = .dump a' l' →
      Mirrors view (fun _ s' => Inv (idx + 1) 0 0 s') (ops.getVmRegion a' l' s)
        (ops'.getVmRegion a' l' (view s)))
    (hfree : ∀ {idx a l a' l' s}, idx < count → Inv idx a l s → visit idx a l = .free a' l' →
      Mirrors view (fun _ s' => Inv (idx + 1) 0 0 s') (ops.freeVmRegion a' l' s)
        (ops'.freeVmRegion a' l' (view s)))
    {left idx a l : Nat} {s : State} (hcount : idx + left = count) (hinit : Inv idx a l s) :
    Mirrors view (fun _ s' => ∃ idx a l, Inv idx a l s') (pageLoop ops visit left idx a l s)
      (pageLoop ops' visit left idx a l (view s)) := by
  induction left generalizing idx a l s with
  | zero => exact mirrors_returns ⟨idx, a, l, hinit⟩
  | succ left ih =>
      simp only [pageLoop]
      split
      · rename_i a' l' hvisit
        exact ih (by omega) (hgoOn (by omega) hinit hvisit)
      · rename_i a' l' hvisit
        refine (hdump (by omega) hinit hvisit).andThen fun ret s' hs' => ?_
        simp only
        split
        · exact mirrors_returns ⟨_, _, _, hs'⟩
        · exact ih (by omega) hs'
      · rename_i a' l' hvisit
        refine (hfree (by omega) hinit hvisit).andThen fun ret s' hs' => ?_
        simp only
        split
        · exact mirrors_returns ⟨_, _, _, hs'⟩
        · exact ih (by omega) hs'

theorem pageLoop_congr {State : Type} {ops : RegionOps State}
    {visit visit' : Nat → Nat → Nat → Visit} {left idx a l : Nat} {s : State}
    (h : ∀ i, idx ≤ i → i < idx + left → visit i = visit' i) :
    pageLoop ops visit left idx a l s = pageLoop ops visit' left idx a l s := by
  induction left generalizing idx a l s with
  | zero => rfl
  | succ left ih =>
      have hrest : ∀ {a l s}, pageLoop ops visit left (idx + 1) a l s =
          pageLoop ops visit' left (idx + 1) a l s :=
        ih fun i hlow hhigh => h i (by omega) (by omega)
      simp only [pageLoop, h idx le_rfl (by omega), hrest]

theorem VmArea.address_succ (vma : VmArea pageSize) (idx : Nat) :
    vma.address (idx + 1) = vma.address idx + pageSize := by
  simp only [address]
  ring

theorem VmArea.address_mono (vma : VmArea pageSize) {idx idx' : Nat} (h : idx ≤ idx') :
    vma.address idx ≤ vma.address idx' :=
  Nat.add_le_add_left (Nat.mul_le_mul_right _ h) _

theorem VmArea.address_nrpages (vma : VmArea pageSize) : vma.address vma.nrpages = vma.stop := by
  have hlt := vma.start_lt_stop
  have hdvd : pageSize ∣ vma.stop - vma.start := Nat.dvd_sub vma.stop_aligned vma.start_aligned
  rw [address, nrpages, Nat.div_mul_cancel hdvd]
  omega

theorem VmArea.address_aligned (vma : VmArea pageSize) (idx : Nat) :
    pageSize ∣ vma.address idx :=
  Nat.dvd_add vma.start_aligned (Nat.dvd_mul_left _ _)

theorem VmArea.page_of_within (vma : VmArea pageSize) {idx x : Nat}
    (hlow : vma.address idx ≤ x) (hhigh : x < vma.address idx + pageSize) :
    x / pageSize = vma.start / pageSize + idx := by
  obtain ⟨k, hk⟩ := vma.start_aligned
  have hpos : 0 < pageSize := by omega
  have haddress : vma.address idx = pageSize * (k + idx) := by
    rw [address, hk]
    ring
  rw [hk, Nat.mul_div_cancel_left k hpos]
  rw [haddress] at hlow hhigh
  apply Nat.div_eq_of_lt_le
  · rw [Nat.mul_comm]
    exact hlow
  · rw [Nat.succ_mul, Nat.mul_comm]
    exact hhigh

/-- A run of `l` bytes at `a` has been collected: whole pages behind everything
already handled and before the page with the given index. -/
structure Collected (vma : VmArea pageSize) (next idx a l : Nat) : Prop where
  next_le : next ≤ a
  aligned : pageSize ∣ a
  whole : pageSize ∣ l
  pos : 0 < l
  le : a + l ≤ vma.address idx

theorem Collected.mono {vma : VmArea pageSize} {next idx idx' a l : Nat}
    (h : Collected vma next idx a l) (hidx : idx ≤ idx') : Collected vma next idx' a l :=
  { h with le := h.le.trans (vma.address_mono hidx) }

theorem Collected.extend {vma : VmArea pageSize} {next idx a l : Nat} (hpage : 0 < pageSize)
    (h : Collected vma next idx a l) : Collected vma next (idx + 1) a (l + pageSize) where
  next_le := h.next_le
  aligned := h.aligned
  whole := Nat.dvd_add h.whole dvd_rfl
  pos := by omega
  le := by
    have := h.le
    rw [vma.address_succ]
    omega

theorem Collected.first {vma : VmArea pageSize} {next idx : Nat} (hpage : 0 < pageSize)
    (hnext : next ≤ vma.address idx) :
    Collected vma next (idx + 1) (vma.address idx) pageSize where
  next_le := hnext
  aligned := vma.address_aligned idx
  whole := dvd_rfl
  pos := hpage
  le := by rw [vma.address_succ]

theorem VmArea.address_ne_zero (vma : VmArea pageSize) (idx : Nat) : vma.address idx ≠ 0 := by
  have := vma.start_pos
  simp only [address]
  omega

/-- What the loop for anonymous memory has collected: nothing, or a run that is
still below the size limit. Unevictable pages leave the run as it is, so it may
be shorter than the pages seen since its start. -/
def AnonRun (vma : VmArea pageSize) (next idx a l : Nat) : Prop :=
  (a = 0 ∧ l = 0) ∨ (a ≠ 0 ∧ Collected vma next idx a l ∧ l < maxVmRegionSize)

theorem visitAnon_spec {table : PageTable} {vma : VmArea pageSize} {map : BitVec 64}
    {next idx a l : Nat} (hpage : 0 < pageSize) (hdvd : pageSize ∣ maxVmRegionSize)
    (hnext : next ≤ vma.address idx) (hrun : AnonRun vma next idx a l) :
    (∃ a' l', visitAnon table vma map idx a l = .goOn a' l' ∧
      AnonRun vma next (idx + 1) a' l') ∨
    ∃ a' l', visitAnon table vma map idx a l = .dump a' l' ∧
      Collected vma next (idx + 1) a' l' ∧ l' ≤ maxVmRegionSize := by
  have hsame : AnonRun vma next (idx + 1) a l := by
    rcases hrun with hnone | ⟨hne, hcollected, hlt⟩
    · exact Or.inl hnone
    · exact Or.inr ⟨hne, hcollected.mono (by omega), hlt⟩
  have hend : (∃ a' l', endRun .dump a l = .goOn a' l' ∧ AnonRun vma next (idx + 1) a' l') ∨
      ∃ a' l', endRun .dump a l = .dump a' l' ∧
        Collected vma next (idx + 1) a' l' ∧ l' ≤ maxVmRegionSize := by
    rcases hrun with ⟨rfl, rfl⟩ | ⟨hne, hcollected, hlt⟩
    · exact Or.inl ⟨0, 0, by simp [endRun], Or.inl ⟨rfl, rfl⟩⟩
    · exact Or.inr ⟨a, l, by simp [endRun, hne], hcollected.mono (by omega), hlt.le⟩
  -- the run including the current page
  obtain ⟨a', ha', hne', hcollected', hle'⟩ : ∃ a', (if a = 0 then vma.address idx else a) = a' ∧
      a' ≠ 0 ∧ Collected vma next (idx + 1) a' (l + pageSize) ∧
      l + pageSize ≤ maxVmRegionSize := by
    rcases hrun with ⟨rfl, rfl⟩ | ⟨hne, hcollected, hlt⟩
    · refine ⟨vma.address idx, by simp, vma.address_ne_zero idx, ?_, ?_⟩
      · simpa using Collected.first hpage hnext
      · simpa using Nat.le_of_dvd (by decide) hdvd
    · refine ⟨a, by simp [hne], hne, hcollected.extend hpage, ?_⟩
      obtain ⟨m, hm⟩ := hdvd
      obtain ⟨k, rfl⟩ := hcollected.whole
      rw [hm] at hlt ⊢
      have hkm : k < m := Nat.lt_of_mul_lt_mul_left hlt
      calc pageSize * k + pageSize = pageSize * (k + 1) := by ring
        _ ≤ pageSize * m := Nat.mul_le_mul_left _ hkm
  simp only [visitAnon, ha']
  split
  · split
    · exact Or.inl ⟨a, l, rfl, hsame⟩
    · split
      · rename_i hmore
        exact Or.inl ⟨a', _, rfl, Or.inr ⟨hne', hcollected', hmore.2⟩⟩
      · exact Or.inr ⟨a', _, by simp [endRun, hne'], hcollected', hle'⟩
  · exact hend

/-- Every page touched by the range is backed by a file or shared memory. -/
def FilePages (pageSize : Nat) (table : PageTable) (a l : Nat) : Prop :=
  ∀ x, Within a l x → (table.entry (x / pageSize)).getLsbD pmPageFileOrSharedAnon = true

/-- What the loop for file mappings has collected: nothing, or exactly the
file-backed pages up to the current one. -/
def FileRun (table : PageTable) (vma : VmArea pageSize) (next idx a l : Nat) : Prop :=
  (a = 0 ∧ l = 0) ∨ (a ≠ 0 ∧ Collected vma next idx a l ∧ a + l = vma.address idx ∧
    FilePages pageSize table a l)

theorem FilePages.extend {table : PageTable} {vma : VmArea pageSize} {idx a l : Nat}
    (hrun : FilePages pageSize table a l) (hend : a + l = vma.address idx)
    (hbit : (table.entry (vma.start / pageSize + idx)).getLsbD pmPageFileOrSharedAnon = true) :
    FilePages pageSize table a (l + pageSize) := by
  rintro x ⟨hlow, hhigh⟩
  by_cases hold : x < a + l
  · exact hrun x ⟨hlow, hold⟩
  · have hpage : x / pageSize = vma.start / pageSize + idx :=
      vma.page_of_within (by omega) (by omega)
    rw [hpage]
    exact hbit

theorem visitFile_spec {table : PageTable} {vma : VmArea pageSize} {next idx a l : Nat}
    (hpage : 0 < pageSize) (hnext : next ≤ vma.address idx)
    (hrun : FileRun table vma next idx a l) :
    (∃ a' l', visitFile vma (table.entry (vma.start / pageSize + idx)) idx a l = .goOn a' l' ∧
      FileRun table vma next (idx + 1) a' l') ∨
    ∃ a' l', visitFile vma (table.entry (vma.start / pageSize + idx)) idx a l = .free a' l' ∧
      Collected vma next (idx + 1) a' l' ∧ FilePages pageSize table a' l' := by
  by_cases hbit :
    (table.entry (vma.start / pageSize + idx)).getLsbD pmPageFileOrSharedAnon = true
  · obtain ⟨a', ha', hne', hcollected', hend', hpages'⟩ :
        ∃ a', (if a = 0 then vma.address idx else a) = a' ∧ a' ≠ 0 ∧
          Collected vma next (idx + 1) a' (l + pageSize) ∧
          a' + (l + pageSize) = vma.address (idx + 1) ∧
          FilePages pageSize table a' (l + pageSize) := by
      rcases hrun with ⟨rfl, rfl⟩ | ⟨hne, hcollected, hend, hpages⟩
      · refine ⟨vma.address idx, by simp, vma.address_ne_zero idx, ?_, ?_, ?_⟩
        · simpa using Collected.first hpage hnext
        · rw [vma.address_succ, Nat.zero_add]
        · have hnone : FilePages pageSize table (vma.address idx) 0 := by
            rintro x ⟨hlow, hhigh⟩
            omega
          exact hnone.extend rfl hbit
      · refine ⟨a, by simp [hne], hne, hcollected.extend hpage, ?_, hpages.extend hend hbit⟩
        rw [vma.address_succ]
        omega
    simp only [visitFile, hbit, if_true, ha']
    split
    · exact Or.inl ⟨a', _, rfl, Or.inr ⟨hne', hcollected', hend', hpages'⟩⟩
    · exact Or.inr ⟨a', _, by simp [endRun, hne'], hcollected', hpages'⟩
  · simp only [visitFile, hbit]
    rcases hrun with ⟨rfl, rfl⟩ | ⟨hne, hcollected, hend, hpages⟩
    · exact Or.inl ⟨0, 0, by simp [endRun], Or.inl ⟨rfl, rfl⟩⟩
    · exact Or.inr ⟨a, l, by simp [endRun, hne], hcollected.mono (by omega), hpages⟩

/-- What the loop has collected, by the kind of the mapping. -/
def RunOf (rssFile : Bool) (table : PageTable) (vma : VmArea pageSize)
    (next idx a l : Nat) : Prop :=
  if vma.flags &&& (flagAnon ||| flagHeap ||| flagStack) ≠ 0 then AnonRun vma next idx a l
  else if rssFile && decide (vma.flags &&& flagFile ≠ 0) then FileRun table vma next idx a l
  else a = 0 ∧ l = 0

theorem runOf_none (rssFile : Bool) (table : PageTable) (vma : VmArea pageSize)
    (next idx : Nat) : RunOf rssFile table vma next idx 0 0 := by
  simp [RunOf, AnonRun, FileRun]

theorem visitPage_spec {rssFile : Bool} {table : PageTable} {reads : Nat → Bool}
    (hreads : ∀ page, reads page = true) {vma : VmArea pageSize} (hpage : 0 < pageSize)
    (hdvd : pageSize ∣ maxVmRegionSize) {next idx a l : Nat} (hnext : next ≤ vma.address idx)
    (hrun : RunOf rssFile table vma next idx a l) :
    match visitPage rssFile table reads vma idx a l with
    | .goOn a' l' => RunOf rssFile table vma next (idx + 1) a' l'
    | .dump a' l' => Collected vma next (idx + 1) a' l' ∧ l' ≤ maxVmRegionSize
    | .free a' l' => Collected vma next (idx + 1) a' l' ∧ FilePages pageSize table a' l' := by
  simp only [visitPage, hreads, Bool.not_true, Bool.false_eq_true, if_false]
  simp only [RunOf] at hrun ⊢
  by_cases hanon : vma.flags &&& (flagAnon ||| flagHeap ||| flagStack) ≠ 0
  · simp only [if_pos hanon] at hrun ⊢
    rcases visitAnon_spec hpage hdvd hnext hrun with ⟨a', l', hvisit, h⟩ | ⟨a', l', hvisit, h⟩ <;>
      rw [hvisit] <;> exact h
  · simp only [if_neg hanon] at hrun ⊢
    by_cases hfile : (rssFile && decide (vma.flags &&& flagFile ≠ 0)) = true
    · simp only [if_pos hfile] at hrun ⊢
      rcases visitFile_spec hpage hnext hrun with ⟨a', l', hvisit, h⟩ | ⟨a', l', hvisit, h⟩ <;>
        rw [hvisit] <;> exact h
    · simp only [if_neg hfile] at hrun ⊢
      exact hrun

/-- The rule for the whole loop: runs come in increasing order, inside the
mapping and without overlap; dumped ones fit the region buffer and dropped ones
are backed by a file. -/
theorem pageLoop_visitPage_spec {State : Type} {ops : RegionOps State} {rssFile : Bool}
    {table : PageTable} {reads : Nat → Bool} (hreads : ∀ page, reads page = true)
    {vma : VmArea pageSize} (hdvd : pageSize ∣ maxVmRegionSize) (I : Nat → State → Prop)
    (hdump : ∀ {next a l s ret s'}, I next s → Collected vma next vma.nrpages a l →
      l ≤ maxVmRegionSize → ops.getVmRegion a l s = .returns (ret, s') →
      ret ≠ 0 ∧ (0 < ret → I (a + l) s'))
    (hfree : ∀ {next a l s s'}, I next s → Collected vma next vma.nrpages a l →
      FilePages pageSize table a l → ops.freeVmRegion a l s = .returns (0, s') → I (a + l) s')
    {s s' : State} (hinit : I vma.start s)
    (hloop : pageLoop ops (visitPage rssFile table reads vma) vma.nrpages 0 0 0 s =
      .returns (0, s')) :
    ∃ next ≤ vma.stop, I next s' := by
  have hpage : 0 < pageSize := Nat.pos_of_dvd_of_pos hdvd (by decide)
  have hstart : vma.start ≤ vma.address 0 := by simp [VmArea.address]
  obtain ⟨a, l, next, hnext, -, hI⟩ := pageLoop_invariant
    (fun idx a l s => ∃ next, next ≤ vma.address idx ∧
      RunOf rssFile table vma next idx a l ∧ I next s)
    (fun {idx a l a' l' s} hidx hinv hvisit => by
      obtain ⟨next, hnext, hrun, hI⟩ := hinv
      have hspec := visitPage_spec hreads hpage hdvd hnext hrun
      rw [hvisit] at hspec
      exact ⟨next, by rw [vma.address_succ]; omega, hspec, hI⟩)
    (fun {idx a l a' l' s ret s'} hidx hinv hvisit hget => by
      obtain ⟨next, hnext, hrun, hI⟩ := hinv
      have hspec := visitPage_spec hreads hpage hdvd hnext hrun
      rw [hvisit] at hspec
      obtain ⟨hne, hpos⟩ := hdump hI (hspec.1.mono hidx) hspec.2 hget
      exact ⟨hne, fun hret => ⟨a' + l', hspec.1.le, runOf_none _ _ _ _ _, hpos hret⟩⟩)
    (fun {idx a l a' l' s s'} hidx hinv hvisit hfreed => by
      obtain ⟨next, hnext, hrun, hI⟩ := hinv
      have hspec := visitPage_spec hreads hpage hdvd hnext hrun
      rw [hvisit] at hspec
      exact ⟨a' + l', hspec.1.le, runOf_none _ _ _ _ _,
        hfree hI (hspec.1.mono hidx) hspec.2 hfreed⟩)
    (Nat.zero_add _) ⟨vma.start, hstart, runOf_none _ _ _ _ _, hinit⟩ hloop
  exact ⟨next, hnext.trans vma.address_nrpages.le, hI⟩

/-- Nothing has been collected, or a run behind everything already handled and
before the page with the given index. -/
def Gathered (vma : VmArea pageSize) (next idx a l : Nat) : Prop :=
  (a = 0 ∧ l = 0) ∨ (a ≠ 0 ∧ next ≤ a ∧ a + l ≤ vma.address idx)

/-- A visit leaves or hands out a run of that kind. -/
def Visit.Bounded (vma : VmArea pageSize) (next idx : Nat) : Visit → Prop
  | .goOn a l => Gathered vma next idx a l
  | .dump a l | .free a l => next ≤ a ∧ a + l ≤ vma.address idx

theorem Gathered.succ {vma : VmArea pageSize} {next idx a l : Nat}
    (h : Gathered vma next idx a l) : Gathered vma next (idx + 1) a l :=
  h.imp id fun ⟨hne, hnext, hle⟩ => ⟨hne, hnext, hle.trans (vma.address_mono (Nat.le_succ idx))⟩

theorem Gathered.extend {vma : VmArea pageSize} {next idx a l : Nat}
    (h : Gathered vma next idx a l) (hnext : next ≤ vma.address idx) :
    ∃ a', (if a = 0 then vma.address idx else a) = a' ∧ a' ≠ 0 ∧ next ≤ a' ∧
      a' + (l + pageSize) ≤ vma.address (idx + 1) := by
  refine ⟨_, rfl, ?_⟩
  rw [vma.address_succ]
  rcases h with ⟨rfl, rfl⟩ | ⟨hne, hbehind, hle⟩
  · simp [vma.address_ne_zero, hnext]
  · simp only [if_neg hne]
    exact ⟨hne, hbehind, by omega⟩

theorem Gathered.endRun {vma : VmArea pageSize} {next idx a l : Nat} {act : Nat → Nat → Visit}
    (h : Gathered vma next idx a l)
    (hact : next ≤ a → a + l ≤ vma.address idx → (act a l).Bounded vma next idx) :
    (endRun act a l).Bounded vma next idx := by
  unfold PageSelection.endRun
  split
  · exact h
  · rename_i hne
    rcases h with ⟨hzero, -⟩ | ⟨-, hnext, hle⟩
    · exact absurd hzero hne
    · exact hact hnext hle

theorem visitPage_bounded {rssFile : Bool} {table : PageTable} {reads : Nat → Bool}
    {vma : VmArea pageSize} {next idx a l : Nat} {visit : Visit}
    (h : Gathered vma next idx a l) (hnext : next ≤ vma.address idx)
    (hvisit : visitPage rssFile table reads vma idx a l = visit) :
    visit.Bounded vma next (idx + 1) := by
  obtain ⟨a', ha', hne', hnext', hle'⟩ := h.extend hnext
  have hmore : Gathered vma next (idx + 1) a' (l + pageSize) := Or.inr ⟨hne', hnext', hle'⟩
  subst hvisit
  unfold visitPage visitAnon visitFile
  simp only [ha']
  split
  · exact h.succ
  · split
    · split
      · split
        · exact h.succ
        · split
          · exact hmore
          · exact hmore.endRun fun hlow hhigh => ⟨hlow, hhigh⟩
      · exact h.succ.endRun fun hlow hhigh => ⟨hlow, hhigh⟩
    · split
      · split
        · split
          · exact hmore
          · exact hmore.endRun fun hlow hhigh => ⟨hlow, hhigh⟩
        · exact h.succ.endRun fun hlow hhigh => ⟨hlow, hhigh⟩
      · exact h.succ

theorem visitPage_congr {rssFile : Bool} {table table' : PageTable} {reads reads' : Nat → Bool}
    {vma : VmArea pageSize} {idx : Nat}
    (hreads : reads (vma.start / pageSize + idx) = reads' (vma.start / pageSize + idx))
    (hentry : table.entry (vma.start / pageSize + idx) = table'.entry (vma.start / pageSize + idx))
    (hflags : table.kpageflags = table'.kpageflags) :
    visitPage rssFile table reads vma idx = visitPage rssFile table' reads' vma idx := by
  have hunevictable : pageUnevictable table = pageUnevictable table' := by
    funext pfn
    rw [pageUnevictable, pageUnevictable, hflags]
  funext a l
  simp only [visitPage, visitAnon, hreads, hentry, hunevictable]

end Loop

end Memcr.PageSelection
