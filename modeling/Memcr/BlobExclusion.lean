import Memcr.ScannedAreas

namespace Memcr.BlobExclusion

open Memcr.ByteMemory
open Memcr.ByteWords
open Memcr.CallOutcome
open Memcr.CheckpointMemory
open Memcr.MapsScan
open Memcr.PageRegions
open Memcr.PageSelection
open Memcr.Protections
open Memcr.RegionRequests
open Memcr.ScannedAreas
open Memcr.WrappingRanges

/-- What is sent to the parasite for the areas, whatever becomes of the connections,
whatever the pagemap holds and whatever is to be dumped, is about no address of the
blob. -/
structure Spared (pageSize blob len : Nat) (vmas : List ScannedVma) : Prop where
  off : ∀ cd, ∀ req ∈ protectionCalls widen cd vmas, ∀ a, Within blob len a →
    ¬ Names pageSize req.addr.toNat req.len.toNat a
  on : ∀ cd, ∀ req ∈ protectionCalls id cd vmas, ∀ a, Within blob len a →
    ¬ Names pageSize req.addr.toNat req.len.toNat a
  regions : ∀ vma ∈ vmas, ∀ (State : Type) (ops : RegionOps State) rssFile seen st,
    ∀ call ∈ areaCalls pageSize ops rssFile seen vma st, ∀ a, Within blob len a →
      ¬ Names pageSize call.addr call.len a

/-- No request for the area is about an address of the blob. -/
def Clear (pageSize blob len : Nat) (vma : ScannedVma) : Prop :=
  ∀ a, Within blob len a → ¬ Reaches pageSize vma a

/-- `cmd_checkpoint` sends nothing unless the scan has returned 0. -/
def RequestsSpareBlob (maps : Maps) (pageSize blob len : Nat) (opened : Bool) : Prop :=
  ∀ vmas, scanTargetVmas blob pageSize opened maps.text = .returns (0, vmas) →
    Spared pageSize blob len vmas

variable {pageSize : Nat}

section Requests

variable {blob len : Nat} {vmas : List ScannedVma}

theorem protections_spare {change : BitVec 64 → BitVec 64} {cd : Connection} {req : VmMprotect}
    (h : ∀ vma ∈ vmas, Clear pageSize blob len vma) (hreq : req ∈ protectionCalls change cd vmas)
    {a : Nat} (ha : Within blob len a) : ¬ Names pageSize req.addr.toNat req.len.toNat a := by
  intro hnames
  obtain ⟨vma, hvma, hnarrow, rfl⟩ := protectionCalls_mem hreq
  exact h vma hvma a ha (Or.inr (Or.inr ⟨hnarrow, names_protectionRequest.mp hnames⟩))

theorem spared_of_clear (hpos : 0 < pageSize) (hpage : pageSize ∣ 2 ^ 64)
    (h : ∀ vma ∈ vmas, Clear pageSize blob len vma) : Spared pageSize blob len vmas where
  off _ _ hreq _ ha := protections_spare h hreq ha
  on _ _ hreq _ ha := protections_spare h hreq ha
  regions vma hvma _ _ _ _ _ _ hcall a ha hnames :=
    h vma hvma a ha (reaches_of_inside hpos hpage (areaCalls_inside hpos hcall) hnames)

/-- Among the addresses above the first page, those that an area reaches are those
that some request for it is about. -/
theorem spared_iff_clear (hpos : 0 < pageSize) (hpage : pageSize ∣ 2 ^ 64)
    (hflags : ∀ vma ∈ vmas, vma.flags ∈ [flagFile, flagAnon, flagStack, flagHeap])
    (hlow : pageSize ≤ blob) (hhigh : blob + len ≤ 2 ^ 64) :
    Spared pageSize blob len vmas ↔ ∀ vma ∈ vmas, Clear pageSize blob len vma := by
  refine ⟨?_, spared_of_clear hpos hpage⟩
  intro h vma hvma a ha hreaches
  have hpages : ¬ (distance vma.start a < nrpages pageSize vma * pageSize ∨
      (MeetsZero pageSize vma ∧
        distance vma.start a < (nrpages pageSize vma + 1) * pageSize)) := by
    intro hpages
    obtain ⟨seen, call, hcall, hnames⟩ := exists_areaCall hpos (hflags vma hvma)
      (ha.2.trans_le hhigh) (hlow.trans ha.1) hpages
    exact h.regions vma hvma Unit obligingOps true seen () call hcall a ha hnames
  rcases hreaches with hwhole | hextra | ⟨hnarrow, hbegun⟩
  · exact hpages (Or.inl hwhole)
  · exact hpages (Or.inr hextra)
  · exact h.off wholeConnection _ (mem_protectionCalls hvma hnarrow) a ha
      (names_protectionRequest.mpr hbegun)

end Requests

/-- Mappings that share no address. -/
def LinesApart (line line' : MapsLine) : Prop :=
  line.stop ≤ line'.start ∨ line'.stop ≤ line.start

instance : Std.Symm LinesApart where
  symm _ _ := Or.symm

theorem eq_of_common {maps : Maps} {line line' : MapsLine} {a : Nat} (hline : line ∈ maps.lines)
    (hline' : line' ∈ maps.lines) (h : line.start ≤ a ∧ a < line.stop)
    (h' : line'.start ≤ a ∧ a < line'.stop) : line = line' := by
  by_contra hne
  have hapart : maps.lines.Pairwise LinesApart := maps.ordered.imp Or.inl
  rcases hapart.forall hline hline' hne with hle | hle
  · omega
  · omega

/-- The mappings of a process consist of whole pages, and none begins at 0. -/
def PageAligned (pageSize : Nat) (maps : Maps) : Prop :=
  ∀ line ∈ maps.lines, 0 < line.start ∧ pageSize ∣ line.start ∧ pageSize ∣ line.stop

instance (pageSize : Nat) (maps : Maps) : Decidable (PageAligned pageSize maps) :=
  inferInstanceAs (Decidable (∀ line ∈ maps.lines, _))

section Scans

variable {maps : Maps} {blob len : Nat} {line : MapsLine} {vma : ScannedVma}

theorem exists_line (h : vma ∈ fromLines (stored maps blob pageSize)) :
    ∃ line ∈ maps.lines, candidate blob pageSize line = some vma := by
  have hmem : vma ∈ maps.candidates blob pageSize := by
    rw [candidates_eq]
    exact List.mem_append_left _ h
  exact List.mem_filterMap.mp hmem

theorem mem_stored_iff :
    vma ∈ (stored maps blob pageSize).map Prod.snd ↔
      vma ∈ fromLines (stored maps blob pageSize) ∨ vma ∈ strays (stored maps blob pageSize) := by
  simp only [fromLines, strays, List.mem_map, List.mem_filter, beq_iff_eq]
  constructor
  · rintro ⟨⟨_ | _, vma⟩, hmem, rfl⟩
    · exact Or.inl ⟨_, ⟨hmem, rfl⟩, rfl⟩
    · exact Or.inr ⟨_, ⟨hmem, rfl⟩, rfl⟩
  · rintro (⟨area, ⟨hmem, -⟩, rfl⟩ | ⟨area, ⟨hmem, -⟩, rfl⟩)
    · exact ⟨area, hmem, rfl⟩
    · exact ⟨area, hmem, rfl⟩

theorem candidate_eq_none (hstart : line.start ≤ blob) (hblob : blob < line.stop)
    (hend : line.stop + pageSize < 2 ^ 64) : candidate blob pageSize line = none := by
  have hskipped : shouldSkipRange blob line.start ((line.stop + pageSize) % 2 ^ 64) = true := by
    rw [Nat.mod_eq_of_lt hend]
    simp only [shouldSkipRange, Bool.and_eq_true, decide_eq_true_eq]
    omega
  rw [candidate, hskipped, Bool.true_or, if_pos rfl]

theorem proper_of_line (haligned : PageAligned pageSize maps)
    (h : vma ∈ fromLines (stored maps blob pageSize)) :
    Proper pageSize vma ∧ ∃ line ∈ maps.lines, candidate blob pageSize line = some vma ∧
      vma.start = line.start ∧ vma.stop = line.stop := by
  obtain ⟨line, hline, hcandidate⟩ := exists_line h
  obtain ⟨hstart, hstop⟩ := candidate_eq_some hcandidate
  obtain ⟨hpos, hdvd, hdvd'⟩ := haligned line hline
  refine ⟨⟨?_, ?_, ?_, ?_, ?_⟩, line, hline, hcandidate, hstart, hstop⟩
  · rwa [hstart]
  · rw [hstart, hstop]
    exact line.start_lt_stop
  · rw [hstop]
    exact line.stop_lt
  · rwa [hstart]
  · rwa [hstop]

theorem fromLines_clear_iff (haligned : PageAligned pageSize maps) (hline : line ∈ maps.lines)
    (hstart : line.start ≤ blob) (hstop : blob + len ≤ line.stop) (hlen : 0 < len) :
    (∀ vma ∈ fromLines (stored maps blob pageSize), Clear pageSize blob len vma) ↔
      (2 ^ 64 ≤ line.stop + pageSize →
        ∀ vma ∈ fromLines (stored maps blob pageSize), vma.start ≠ line.start) := by
  have hend := line.stop_lt
  constructor
  · intro h _ vma hvma hsame
    obtain ⟨hproper, line', hline', -, hstart', hstop'⟩ := proper_of_line haligned hvma
    have hlt := line'.start_lt_stop
    have hlt' := line.start_lt_stop
    have hone : line = line' := eq_of_common hline hline' (a := line.start) ⟨le_rfl, hlt'⟩
      ⟨by omega, by omega⟩
    subst hone
    exact h vma hvma blob ⟨le_rfl, by omega⟩
      ((hproper.reaches_iff (by omega)).mpr ⟨by omega, by omega⟩)
  · rintro h vma hvma a ⟨hblob, hblobEnd⟩ hreaches
    obtain ⟨hproper, line', hline', hcandidate, hstart', hstop'⟩ := proper_of_line haligned hvma
    obtain ⟨hlow, hhigh⟩ := (hproper.reaches_iff (by omega)).mp hreaches
    obtain rfl : line = line' := eq_of_common hline hline' (a := a) ⟨by omega, by omega⟩
      ⟨by omega, by omega⟩
    rcases Nat.lt_or_ge (line.stop + pageSize) (2 ^ 64) with hfits | hwraps
    · rw [candidate_eq_none hstart (by omega) hfits] at hcandidate
      cases hcandidate
    · exact h hwraps vma hvma hstart'

end Scans

/-- Nothing is sent about the memory of the blob exactly when no area from inside of a line
reaches an address of it, and the mapping that holds it is not one whose end, a page on,
wraps around; if the scan returns 0 at all. -/
theorem requests_spare_blob_iff (maps : Maps) {blob len : Nat} {opened : Bool} {line : MapsLine}
    (hpage : pageSize ∣ 2 ^ 64) (haligned : PageAligned pageSize maps) (hline : line ∈ maps.lines)
    (hstart : line.start ≤ blob) (hstop : blob + len ≤ line.stop) (hlen : 0 < len) :
    RequestsSpareBlob maps pageSize blob len opened ↔
      (opened = true → Silent maps blob pageSize →
        (∀ vma ∈ strays (stored maps blob pageSize), Clear pageSize blob len vma) ∧
        (2 ^ 64 ≤ line.stop + pageSize →
          ∀ vma ∈ fromLines (stored maps blob pageSize), vma.start ≠ line.start)) := by
  rcases opened with _ | _
  · refine iff_of_true (fun vmas hscan => ?_) (fun hopened => ?_)
    · cases hscan
    · cases hopened
  · obtain ⟨hpos, hdvd, -⟩ := haligned line hline
    have hlow : pageSize ≤ blob := (Nat.le_of_dvd hpos hdvd).trans hstart
    have hhigh : blob + len ≤ 2 ^ 64 := hstop.trans line.stop_lt.le
    have hspared := @spared_iff_clear pageSize blob len
      ((stored maps blob pageSize).map Prod.snd) (Nat.pos_of_dvd_of_pos hdvd hpos) hpage
      (fun vma hvma => flags_of_mem_stored hvma) hlow hhigh
    simp only [mem_stored_iff, or_imp, forall_and,
      fromLines_clear_iff haligned hline hstart hstop hlen] at hspared
    constructor
    · intro h _ hsilent
      exact (hspared.mp (h _ (scanTargetVmas_eq_zero.mpr ⟨hsilent, rfl⟩))).symm
    · intro h vmas hscan
      obtain ⟨hsilent, rfl⟩ := scanTargetVmas_eq_zero.mp hscan
      exact hspared.mpr (h rfl hsilent).symm

theorem fourKib_dvd_addresses : 4096 ∣ 2 ^ 64 := by decide

/-- A mapping and, three pages on, the one of the blob. -/
def twoPagesLines : List MapsLine :=
  [mappingOf 1 0 [] plainName_nil, mappingOf 4 0 [] plainName_nil]

theorem twoPagesLines_ordered : twoPagesLines.Pairwise fun a b => a.stop ≤ b.start := by
  decide

def twoPages : Maps := ⟨twoPagesLines, twoPagesLines_ordered⟩

theorem twoPages_scanned :
    scanTargetVmas 16384 4096 true twoPages.text =
      .returns (0, [⟨4096, 8192, 1, flagAnon⟩]) := by
  decide +kernel

theorem twoPages_strays : strays (stored twoPages 16384 4096) = [] := by decide +kernel

theorem requests_spare_blob_twoPages :
    scanTargetVmas 16384 4096 true twoPages.text = .returns (0, [⟨4096, 8192, 1, flagAnon⟩]) ∧
      RequestsSpareBlob twoPages 4096 16384 4096 true := by
  refine ⟨twoPages_scanned, ?_⟩
  have hline : mappingOf 4 0 [] plainName_nil ∈ twoPages.lines :=
    List.mem_cons_of_mem _ List.mem_cons_self
  refine (requests_spare_blob_iff twoPages fourKib_dvd_addresses (by decide) hline (by decide)
    (by decide) fourKib_pos).mpr fun _ _ => ⟨?_, ?_⟩
  · rw [twoPages_strays]
    intro vma hvma
    cases hvma
  · intro hwraps
    exact absurd hwraps (by decide)

/-- The end of a long path that reads like a line of the maps. -/
def strayName : List Char := fullPath ++ "5000-6000 r--p 0 0:0 0".toList

theorem strayName_plain : plainName strayName = true := by decide +kernel

def strayLines : List MapsLine :=
  [mappingOf 1 0 strayName strayName_plain, mappingOf 4 1 [] plainName_nil]

theorem strayLines_ordered : strayLines.Pairwise fun a b => a.stop ≤ b.start := by
  decide

/-- The blob has two pages here. -/
def strayMaps : Maps := ⟨strayLines, strayLines_ordered⟩

def pathArea : ScannedVma := ⟨4096, 8192, 1, flagFile⟩

def strayArea : ScannedVma := ⟨20480, 24576, 1, flagAnon⟩

theorem strayMaps_not_spared :
    scanTargetVmas 16384 4096 true strayMaps.text = .returns (0, [pathArea, strayArea]) ∧
      (∃ line ∈ strayMaps.lines, line.start ≤ 16384 ∧ 16384 + 8192 ≤ line.stop) ∧
      PageAligned 4096 strayMaps ∧
      protectionCalls widen wholeConnection [pathArea, strayArea] =
        [⟨4096, 4096, 3⟩, ⟨20480, 4096, 3⟩] ∧
      Within 16384 8192 20480 ∧ Names 4096 20480 4096 20480 := by
  refine ⟨?_, ?_, ?_, ?_, ?_, ?_⟩
  · decide +kernel
  · exact ⟨_, List.mem_cons_of_mem _ List.mem_cons_self, le_rfl, le_rfl⟩
  · decide
  · decide +kernel
  · decide
  · decide +kernel

end Memcr.BlobExclusion
