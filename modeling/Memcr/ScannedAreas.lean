import Memcr.MapsScan
import Memcr.PageRegions
import Memcr.Protections
import Memcr.WrappingRanges

namespace Memcr.ScannedAreas

open Memcr.ByteMemory
open Memcr.CallOutcome
open Memcr.DumpFormat
open Memcr.MapsScan
open Memcr.PageRegions
open Memcr.PageSelection
open Memcr.Protections
open Memcr.RegionRequests
open Memcr.WrappingRanges

/-- `vma->end - vma->start` -/
def areaSize (vma : ScannedVma) : Nat := distance vma.start vma.stop

/-- The addresses that a request for `len` bytes is about, in whole pages. -/
def Names (pageSize addr len a : Nat) : Prop :=
  distance addr a < (len + pageSize - 1) / pageSize * pageSize

instance (pageSize addr len a : Nat) : Decidable (Names pageSize addr len a) :=
  inferInstanceAs (Decidable (_ < _))

/-- The request of `target_mprotect_off` or `target_mprotect_on` for an area of any two
numbers; the length wraps around. -/
def protectionRequest (change : BitVec 64 → BitVec 64) (vma : ScannedVma) : VmMprotect where
  addr := BitVec.ofNat 64 vma.start
  len := BitVec.ofNat 64 (areaSize vma)
  prot := change (BitVec.ofNat 64 vma.prot)

def isReadWrite (vma : ScannedVma) : Bool := readWrite (BitVec.ofNat 64 vma.prot)

/-- The requests that the loop of `target_mprotect_off` and `target_mprotect_on`
passes to `parasite_write`, up to the first that fails. -/
def protectionLoop (change : BitVec 64 → BitVec 64) (io : Nat → Option Nat) :
    Nat → List ScannedVma → List VmMprotect
  | _, [] => []
  | writes, vma :: rest =>
      if isReadWrite vma then protectionLoop change io writes rest
      else
        protectionRequest change vma ::
          if io writes = none then protectionLoop change io (writes + 1) rest else []

/-- The requests that go through the connection. -/
def protectionCalls (change : BitVec 64 → BitVec 64) (cd : Connection)
    (vmas : List ScannedVma) : List VmMprotect :=
  if !cd.connects then []
  else if !cd.commandSent then []
  else protectionLoop change cd.io 0 vmas

section Loop

variable (pageSize : Nat)

/-- `nrpages` of `get_vma_pages` -/
def nrpages (vma : ScannedVma) : Nat := areaSize vma / pageSize

/-- The address of a page of the area, which wraps around. -/
def pageAddress (vma : ScannedVma) (idx : Nat) : Nat := (vma.start + idx * pageSize) % 2 ^ 64

/-- A page is added to the region, which is handed over behind the last page or
when it has as much as is wanted. -/
def takePage (act : Nat → Nat → Visit) (limit : Option Nat) (vma : ScannedVma)
    (idx regionStart regionLength : Nat) : Visit :=
  let regionStart := if regionStart = 0 then pageAddress pageSize vma idx else regionStart
  let regionLength := regionLength + pageSize
  if idx + 1 < nrpages pageSize vma ∧ limit.all (regionLength < ·) then
    .goOn regionStart regionLength
  else endRun act regionStart regionLength

/-- One round of the loop of `get_vma_pages`. -/
def visitArea (rssFile : Bool) (seen : Seen) (vma : ScannedVma)
    (idx regionStart regionLength : Nat) : Visit :=
  match seen.entry idx with
  | none => .goOn regionStart regionLength
  | some map =>
      if vma.flags &&& (flagAnon ||| flagHeap ||| flagStack) ≠ 0 then
        if map.getLsbD pmPagePresent || map.getLsbD pmPageSwapped then
          if seen.unevictable idx map then .goOn regionStart regionLength
          else takePage pageSize .dump (some maxVmRegionSize) vma idx regionStart regionLength
        else endRun .dump regionStart regionLength
      else if rssFile && decide (vma.flags &&& flagFile ≠ 0) then
        if map.getLsbD pmPageFileOrSharedAnon then
          takePage pageSize .free none vma idx regionStart regionLength
        else endRun .free regionStart regionLength
      else .goOn regionStart regionLength

/-- The calls of `get_vm_region` and `free_vm_region` for an area. -/
def areaCalls {State : Type} (ops : RegionOps State) (rssFile : Bool) (seen : Seen)
    (vma : ScannedVma) (s : State) : List Call :=
  regionCalls ops (visitArea pageSize rssFile seen vma) (nrpages pageSize vma) 0 0 0 s

/-- A page of the area, not the last one, is at address 0. -/
def MeetsZero (vma : ScannedVma) : Prop :=
  ∃ idx, idx + 1 < nrpages pageSize vma ∧ pageAddress pageSize vma idx = 0

/-- The addresses that requests for an area can be about: its whole pages; one
page more if there is one at address 0; and every page that it begins, if its
protection has to be changed. -/
def Reaches (vma : ScannedVma) (a : Nat) : Prop :=
  distance vma.start a < nrpages pageSize vma * pageSize ∨
    (MeetsZero pageSize vma ∧
      distance vma.start a < (nrpages pageSize vma + 1) * pageSize) ∨
    (isReadWrite vma = false ∧
      distance vma.start a < (areaSize vma + pageSize - 1) / pageSize * pageSize)

end Loop

section Protecting

variable {pageSize : Nat} {change : BitVec 64 → BitVec 64} {vmas : List ScannedVma}
  {vma : ScannedVma} {a : Nat}

theorem names_protectionRequest :
    Names pageSize (protectionRequest change vma).addr.toNat
        (protectionRequest change vma).len.toNat a ↔
      distance vma.start a < (areaSize vma + pageSize - 1) / pageSize * pageSize := by
  have hlen : areaSize vma % 2 ^ 64 = areaSize vma := Nat.mod_eq_of_lt (distance_lt _ _)
  simp only [Names, protectionRequest, BitVec.toNat_ofNat, hlen, distance, Nat.mod_mod]

theorem protectionLoop_mem {io : Nat → Option Nat} {writes : Nat} {req : VmMprotect}
    (h : req ∈ protectionLoop change io writes vmas) :
    ∃ vma ∈ vmas, isReadWrite vma = false ∧ req = protectionRequest change vma := by
  induction vmas generalizing writes with
  | nil => cases h
  | cons vma rest ih =>
      rw [protectionLoop] at h
      split_ifs at h with hskip hio
      · obtain ⟨vma', hvma', hreq⟩ := ih h
        exact ⟨vma', List.mem_cons_of_mem _ hvma', hreq⟩
      · rcases List.mem_cons.mp h with rfl | hmore
        · exact ⟨vma, List.mem_cons_self, by simpa using hskip, rfl⟩
        · obtain ⟨vma', hvma', hreq⟩ := ih hmore
          exact ⟨vma', List.mem_cons_of_mem _ hvma', hreq⟩
      · obtain rfl := List.mem_singleton.mp h
        exact ⟨vma, List.mem_cons_self, by simpa using hskip, rfl⟩

theorem protectionCalls_mem {cd : Connection} {req : VmMprotect}
    (h : req ∈ protectionCalls change cd vmas) :
    ∃ vma ∈ vmas, isReadWrite vma = false ∧ req = protectionRequest change vma := by
  rw [protectionCalls] at h
  split_ifs at h
  · cases h
  · cases h
  · exact protectionLoop_mem h

theorem mem_protectionCalls (hvma : vma ∈ vmas) (hnarrow : isReadWrite vma = false) :
    protectionRequest change vma ∈ protectionCalls change wholeConnection vmas := by
  have hloop : ∀ writes, protectionRequest change vma ∈
      protectionLoop change wholeConnection.io writes vmas := by
    induction vmas with
    | nil => cases hvma
    | cons vma' rest ih =>
        intro writes
        rw [protectionLoop]
        rcases List.mem_cons.mp hvma with rfl | hmore
        · rw [if_neg (by simp [hnarrow])]
          exact List.mem_cons_self
        · split_ifs with hskip hio
          · exact ih hmore writes
          · exact List.mem_cons_of_mem _ (ih hmore (writes + 1))
          · exact absurd rfl hio
  exact hloop 0

end Protecting

section Visits

variable {pageSize : Nat} {rssFile : Bool} {seen : Seen} {vma : ScannedVma} {idx a l : Nat}

theorem visitArea_cases (pageSize : Nat) (rssFile : Bool) (seen : Seen) (vma : ScannedVma)
    (idx a l : Nat) :
    visitArea pageSize rssFile seen vma idx a l = .goOn a l ∨
      ∃ act ∈ [Visit.dump, Visit.free],
        visitArea pageSize rssFile seen vma idx a l = endRun act a l ∨
          ∃ limit, visitArea pageSize rssFile seen vma idx a l =
            takePage pageSize act limit vma idx a l := by
  rw [visitArea]
  split
  · exact Or.inl rfl
  · split_ifs
    · exact Or.inl rfl
    · exact Or.inr ⟨.dump, List.mem_cons_self, Or.inr ⟨_, rfl⟩⟩
    · exact Or.inr ⟨.dump, List.mem_cons_self, Or.inl rfl⟩
    · exact Or.inr ⟨.free, List.mem_cons_of_mem _ List.mem_cons_self, Or.inr ⟨_, rfl⟩⟩
    · exact Or.inr ⟨.free, List.mem_cons_of_mem _ List.mem_cons_self, Or.inl rfl⟩
    · exact Or.inl rfl

theorem nrpages_mul_le (pageSize : Nat) (vma : ScannedVma) :
    nrpages pageSize vma * pageSize ≤ areaSize vma :=
  Nat.div_mul_le_self _ _

theorem nrpages_mul_lt (pageSize : Nat) (vma : ScannedVma) :
    nrpages pageSize vma * pageSize < 2 ^ 64 :=
  (nrpages_mul_le pageSize vma).trans_lt (distance_lt _ _)

theorem succ_nrpages_mul_le (hpage : pageSize ∣ 2 ^ 64) (vma : ScannedVma) :
    (nrpages pageSize vma + 1) * pageSize ≤ 2 ^ 64 := by
  obtain ⟨count, hcount⟩ := hpage
  have hlt := nrpages_mul_lt pageSize vma
  rw [hcount, Nat.mul_comm pageSize count] at hlt ⊢
  exact Nat.mul_le_mul_right _ (Nat.lt_of_mul_lt_mul_right hlt)

theorem pageAddress_ne (hpos : 0 < pageSize) {idx' : Nat} (hlt : idx < idx')
    (hlast : idx' < nrpages pageSize vma) :
    pageAddress pageSize vma idx ≠ pageAddress pageSize vma idx' :=
  add_mod_ne (Nat.mul_lt_mul_of_pos_right hlt hpos)
    ((Nat.mul_le_mul_right _ hlast.le).trans_lt (nrpages_mul_lt pageSize vma))

/-- The region that is being collected: `count` pages, from the page `first` on.
Before the first page that is not at address 0 there is no start, but there may
be a length. -/
def Collected (pageSize : Nat) (vma : ScannedVma) (idx a l : Nat) : Prop :=
  ∃ count, l = count * pageSize ∧
    ((a = 0 ∧ (count = 0 ∨ count = 1 ∧ ∃ origin < idx, pageAddress pageSize vma origin = 0)) ∨
      ∃ first < idx, a ≠ 0 ∧ a = pageAddress pageSize vma first ∧
        (first + count ≤ idx ∨
          first + count ≤ idx + 1 ∧ ∃ origin < first, pageAddress pageSize vma origin = 0))

/-- A call for pages of the area, or one page further. -/
def Inside (pageSize : Nat) (vma : ScannedVma) (call : Call) : Prop :=
  ∃ first count, call.addr = pageAddress pageSize vma first ∧ call.len = count * pageSize ∧
    (first + count ≤ nrpages pageSize vma ∨
      first + count ≤ nrpages pageSize vma + 1 ∧ MeetsZero pageSize vma)

theorem Collected.fresh (idx : Nat) : Collected pageSize vma idx 0 0 :=
  ⟨0, (Nat.zero_mul _).symm, Or.inl ⟨rfl, Or.inl rfl⟩⟩

theorem Collected.pass (h : Collected pageSize vma idx a l) :
    Collected pageSize vma (idx + 1) a l := by
  obtain ⟨count, rfl, ⟨rfl, hcount⟩ | ⟨first, hfirst, hne, ha, hcount⟩⟩ := h
  · refine ⟨count, rfl, Or.inl ⟨rfl, hcount.imp_right ?_⟩⟩
    rintro ⟨hone, origin, hzero, haddr⟩
    exact ⟨hone, origin, by omega, haddr⟩
  · refine ⟨count, rfl, Or.inr ⟨first, by omega, hne, ha, ?_⟩⟩
    exact hcount.imp (by omega) (And.imp_left (by omega))

theorem Collected.take (hpos : 0 < pageSize) (hidx : idx < nrpages pageSize vma)
    (h : Collected pageSize vma idx a l) :
    Collected pageSize vma (idx + 1) (if a = 0 then pageAddress pageSize vma idx else a)
      (l + pageSize) := by
  obtain ⟨count, rfl, ⟨rfl, hcount⟩ | ⟨first, hfirst, hne, ha, hcount⟩⟩ := h
  · refine ⟨count + 1, (Nat.succ_mul _ _).symm, ?_⟩
    rw [if_pos rfl]
    by_cases hzero : pageAddress pageSize vma idx = 0
    · -- the page at address 0 is met only once
      refine Or.inl ⟨hzero, Or.inr ⟨?_, idx, Nat.lt_succ_self _, hzero⟩⟩
      rcases hcount with rfl | ⟨-, origin, hlt, haddr⟩
      · rfl
      · exact absurd (haddr.trans hzero.symm) (pageAddress_ne hpos hlt hidx)
    · refine Or.inr ⟨idx, Nat.lt_succ_self _, hzero, rfl, ?_⟩
      rcases hcount with rfl | ⟨rfl, hmet⟩
      · exact Or.inl (by omega)
      · exact Or.inr ⟨by omega, hmet⟩
  · refine ⟨count + 1, (Nat.succ_mul _ _).symm, Or.inr ⟨first, by omega, ?_⟩⟩
    rw [if_neg hne]
    exact ⟨hne, ha, hcount.imp (by omega) (And.imp_left (by omega))⟩

theorem Collected.inside (h : Collected pageSize vma idx a l) (hne : a ≠ 0)
    (hidx : idx ≤ nrpages pageSize vma) {call : Call} (haddr : call.addr = a)
    (hlen : call.len = l) : Inside pageSize vma call := by
  obtain ⟨count, rfl, ⟨rfl, -⟩ | ⟨first, hfirst, -, rfl, hcount⟩⟩ := h
  · exact absurd rfl hne
  · refine ⟨first, count, haddr, hlen, ?_⟩
    rcases hcount with hle | ⟨hle, origin, hzero, hmet⟩
    · exact Or.inl (by omega)
    · exact Or.inr ⟨by omega, origin, by omega, hmet⟩

/-- Every call of the loop has a property, if the calls of single rounds have it
under an invariant that the rounds keep. -/
theorem regionCalls_forall {State : Type} {ops : RegionOps State}
    {visit : Nat → Nat → Nat → Visit} {count : Nat} (Inv : Nat → Nat → Nat → Prop)
    (P : Call → Prop)
    (hgoOn : ∀ {idx a l a' l'}, idx < count → Inv idx a l → visit idx a l = .goOn a' l' →
      Inv (idx + 1) a' l')
    (hdump : ∀ {idx a l a' l'}, idx < count → Inv idx a l → visit idx a l = .dump a' l' →
      P (.getVmRegion a' l'))
    (hfree : ∀ {idx a l a' l'}, idx < count → Inv idx a l → visit idx a l = .free a' l' →
      P (.freeVmRegion a' l'))
    (hfresh : ∀ idx, Inv idx 0 0) {left idx a l : Nat} {s : State}
    (hcount : idx + left = count) (hinit : Inv idx a l) {call : Call}
    (hcall : call ∈ regionCalls ops visit left idx a l s) : P call := by
  induction left generalizing idx a l s with
  | zero => cases hcall
  | succ left ih =>
      have hafter {fails : Int → Bool} {outcome : Outcome (Int × State)}
          (h : call ∈ callsAfter fails outcome fun s =>
            regionCalls ops visit left (idx + 1) 0 0 s) : P call := by
        simp only [callsAfter] at h
        split at h
        · split_ifs at h
          · cases h
          · exact ih (by omega) (hfresh _) h
        · cases h
      rw [regionCalls] at hcall
      split at hcall
      · rename_i hvisit
        exact ih (by omega) (hgoOn (by omega) hinit hvisit) hcall
      · rename_i hvisit
        rcases List.mem_cons.mp hcall with rfl | hmore
        · exact hdump (by omega) hinit hvisit
        · exact hafter hmore
      · rename_i hvisit
        rcases List.mem_cons.mp hcall with rfl | hmore
        · exact hfree (by omega) hinit hvisit
        · exact hafter hmore

/-- What a round leads to, for a region with the given start and length. -/
def Follows (pageSize : Nat) (vma : ScannedVma) (idx : Nat) : Visit → Prop
  | .goOn a l => Collected pageSize vma (idx + 1) a l
  | .dump a l => Inside pageSize vma (.getVmRegion a l)
  | .free a l => Inside pageSize vma (.freeVmRegion a l)

theorem follows_endRun {act : Nat → Nat → Visit} (hact : act ∈ [Visit.dump, Visit.free])
    (hidx : idx < nrpages pageSize vma) (h : Collected pageSize vma (idx + 1) a l) :
    Follows pageSize vma idx (endRun act a l) := by
  rw [endRun]
  split_ifs with hzero
  · exact h
  · simp only [List.mem_cons, List.not_mem_nil, or_false] at hact
    rcases hact with rfl | rfl
    · exact h.inside hzero hidx rfl rfl
    · exact h.inside hzero hidx rfl rfl

theorem follows_visitArea (hpos : 0 < pageSize) (hidx : idx < nrpages pageSize vma)
    (h : Collected pageSize vma idx a l) :
    Follows pageSize vma idx (visitArea pageSize rssFile seen vma idx a l) := by
  obtain hgoes | ⟨act, hact, hends | ⟨limit, htakes⟩⟩ :=
    visitArea_cases pageSize rssFile seen vma idx a l
  · rw [hgoes]
    exact h.pass
  · rw [hends]
    exact follows_endRun hact hidx h.pass
  · have htaken := h.take hpos hidx
    rw [htakes]
    dsimp only [takePage]
    generalize (if a = 0 then pageAddress pageSize vma idx else a) = a' at htaken ⊢
    split_ifs
    · exact htaken
    · exact follows_endRun hact hidx htaken

theorem areaCalls_inside (hpos : 0 < pageSize) {State : Type} {ops : RegionOps State} {s : State}
    {call : Call} (h : call ∈ areaCalls pageSize ops rssFile seen vma s) :
    Inside pageSize vma call := by
  have hfollows : ∀ {idx a l visit}, idx < nrpages pageSize vma → Collected pageSize vma idx a l →
      visitArea pageSize rssFile seen vma idx a l = visit → Follows pageSize vma idx visit := by
    rintro idx a l visit hidx hcollected rfl
    exact follows_visitArea hpos hidx hcollected
  exact regionCalls_forall (Collected pageSize vma) (Inside pageSize vma) hfollows hfollows
    hfollows Collected.fresh (Nat.zero_add _) (Collected.fresh 0) h

theorem roundUp_mul (hpos : 0 < pageSize) (count : Nat) :
    (count * pageSize + pageSize - 1) / pageSize = count := by
  rw [Nat.add_sub_assoc hpos, Nat.mul_comm, Nat.mul_add_div hpos,
    Nat.div_eq_of_lt (Nat.sub_one_lt hpos.ne'), Nat.add_zero]

theorem reaches_of_inside (hpos : 0 < pageSize) (hpage : pageSize ∣ 2 ^ 64) {call : Call}
    (h : Inside pageSize vma call) (hnames : Names pageSize call.addr call.len a) :
    Reaches pageSize vma a := by
  obtain ⟨first, count, haddr, hlen, hcount⟩ := h
  rw [Names, haddr, hlen, roundUp_mul hpos, pageAddress] at hnames
  have hroom := succ_nrpages_mul_le hpage vma
  have hreach : distance vma.start a < (first + count) * pageSize := by
    rw [Nat.add_mul]
    apply distance_lt_add _ hnames
    rw [← Nat.add_mul]
    refine le_trans (Nat.mul_le_mul_right _ ?_) hroom
    rcases hcount with hle | ⟨hle, -⟩ <;> omega
  rcases hcount with hle | ⟨hle, hzero⟩
  · exact Or.inl (hreach.trans_le (Nat.mul_le_mul_right _ hle))
  · exact Or.inr (Or.inl ⟨hzero, hreach.trans_le (Nat.mul_le_mul_right _ hle)⟩)

end Visits

section Runs

variable {pageSize : Nat} {vma : ScannedVma} {State : Type} {ops : RegionOps State} {s : State}
  {visit visit' : Nat → Nat → Nat → Visit} {left idx a l : Nat}

theorem regionCalls_skip (count : Nat)
    (h : ∀ k, idx ≤ k → k < idx + count → visit k a l = .goOn a l) :
    regionCalls ops visit (left + count) idx a l s =
      regionCalls ops visit left (idx + count) a l s := by
  induction count generalizing idx with
  | zero => rfl
  | succ count ih =>
      rw [← Nat.add_assoc, regionCalls_goOn (h idx le_rfl (by omega)),
        ih fun k hlow hhigh => h k (by omega) (by omega)]
      congr 1
      omega

theorem regionCalls_congr (h : ∀ k, idx ≤ k → k < idx + left → visit k = visit' k) :
    regionCalls ops visit left idx a l s = regionCalls ops visit' left idx a l s := by
  induction left generalizing idx a l s with
  | zero => rfl
  | succ left ih =>
      have hrest {a l : Nat} {s : State} : regionCalls ops visit left (idx + 1) a l s =
          regionCalls ops visit' left (idx + 1) a l s :=
        ih fun k hlow hhigh => h k (by omega) (by omega)
      simp only [regionCalls, h idx le_rfl (by omega), hrest]

/-- The call that a round makes. -/
def callOf : Visit → Option Call
  | .goOn _ _ => none
  | .dump a l => some (.getVmRegion a l)
  | .free a l => some (.freeVmRegion a l)

theorem callOf_mem {call : Call} (h : callOf (visit idx a l) = some call) :
    call ∈ regionCalls ops visit (left + 1) idx a l s := by
  rw [regionCalls]
  split
  · rename_i hvisit
    rw [hvisit] at h
    cases h
  · rename_i hvisit
    rw [hvisit] at h
    cases h
    exact List.mem_cons_self
  · rename_i hvisit
    rw [hvisit] at h
    cases h
    exact List.mem_cons_self

theorem callOf_act {act : Nat → Nat → Visit} (hact : act ∈ [Visit.dump, Visit.free]) (a l : Nat) :
    ∃ call, callOf (act a l) = some call ∧ call.addr = a ∧ call.len = l := by
  simp only [List.mem_cons, List.not_mem_nil, or_false] at hact
  rcases hact with rfl | rfl
  · exact ⟨_, rfl, rfl, rfl⟩
  · exact ⟨_, rfl, rfl, rfl⟩

/-- The pagemap with some pages to handle, be it that they are dumped or dropped. -/
def pagesAt (pages : Nat → Bool) : Seen where
  entry idx := some (if pages idx then 0xa000000000000000#64 else 0)
  kpageflags _ := none

theorem visitArea_pagesAt (hflags : vma.flags ∈ [flagFile, flagAnon, flagStack, flagHeap])
    (pages : Nat → Bool) :
    ∃ act ∈ [Visit.dump, Visit.free], ∃ limit, ∀ idx a l,
      visitArea pageSize true (pagesAt pages) vma idx a l =
        if pages idx then takePage pageSize act limit vma idx a l else endRun act a l := by
  have hhandled : vma.flags &&& (flagAnon ||| flagHeap ||| flagStack) ≠ 0 ∨
      ¬ vma.flags &&& (flagAnon ||| flagHeap ||| flagStack) ≠ 0 ∧ vma.flags &&& flagFile ≠ 0 := by
    simp only [List.mem_cons, List.not_mem_nil, or_false] at hflags
    rcases hflags with h | h | h | h
    all_goals
      rw [h]
      decide
  rcases hhandled with hdumps | ⟨hdumps, hfile⟩
  · refine ⟨.dump, List.mem_cons_self, some maxVmRegionSize, fun idx a l => ?_⟩
    rcases hpage : pages idx with _ | _
    · simp [visitArea, pagesAt, hdumps, hpage]
    · simp [visitArea, pagesAt, hdumps, hpage, Seen.unevictable, pmPagePresent]
  · refine ⟨.free, List.mem_cons_of_mem _ List.mem_cons_self, none, fun idx a l => ?_⟩
    rcases hpage : pages idx with _ | _
    · simp [visitArea, pagesAt, hdumps, hfile, hpage]
    · simp [visitArea, pagesAt, hdumps, hfile, hpage, pmPageFileOrSharedAnon]

theorem takePage_last {act : Nat → Nat → Visit} {limit : Option Nat}
    (hlast : idx + 1 = nrpages pageSize vma) (haddr : pageAddress pageSize vma idx ≠ 0) (l : Nat) :
    takePage pageSize act limit vma idx 0 l =
      act (pageAddress pageSize vma idx) (l + pageSize) := by
  simp [takePage, hlast, endRun, haddr]

theorem onePage_call (hflags : vma.flags ∈ [flagFile, flagAnon, flagStack, flagHeap])
    {p : Nat} (hp : p < nrpages pageSize vma) (haddr : pageAddress pageSize vma p ≠ 0) :
    ∃ call ∈ areaCalls pageSize ops true (pagesAt (· == p)) vma s,
      call.addr = pageAddress pageSize vma p ∧ call.len = 1 * pageSize := by
  rw [Nat.one_mul]
  obtain ⟨act, hact, limit, hvisit⟩ := @visitArea_pagesAt pageSize vma hflags (· == p)
  obtain ⟨call, hcall, hfields⟩ := callOf_act hact (pageAddress pageSize vma p) pageSize
  have hidle : ∀ k, 0 ≤ k → k < 0 + p →
      visitArea pageSize true (pagesAt (· == p)) vma k 0 0 = .goOn 0 0 := by
    intro k _ hk
    rw [hvisit, if_neg (by simpa using (show k ≠ p by omega)), endRun, if_pos rfl]
  have htakes : visitArea pageSize true (pagesAt (· == p)) vma p 0 0 =
      takePage pageSize act limit vma p 0 0 := by
    rw [hvisit, if_pos (by simp)]
  obtain ⟨left, hleft⟩ : ∃ left, nrpages pageSize vma = left + 1 + p :=
    ⟨nrpages pageSize vma - 1 - p, by omega⟩
  refine ⟨call, ?_, hfields⟩
  rw [areaCalls, hleft, regionCalls_skip p hidle, Nat.zero_add]
  by_cases hmore : p + 1 < nrpages pageSize vma ∧ limit.all (0 + pageSize < ·)
  · -- the region is open, and ends at the next page
    have hopen : visitArea pageSize true (pagesAt (· == p)) vma p 0 0 =
        .goOn (pageAddress pageSize vma p) (0 + pageSize) := by
      rw [htakes, takePage, if_pos rfl, if_pos hmore]
    obtain ⟨left, rfl⟩ : ∃ left', left = left' + 1 := ⟨left - 1, by omega⟩
    rw [regionCalls_goOn hopen, Nat.zero_add]
    apply callOf_mem
    rw [hvisit, if_neg (by simp), endRun, if_neg haddr]
    exact hcall
  · apply callOf_mem
    rw [htakes, takePage, if_pos rfl, if_neg hmore, endRun, if_neg haddr, Nat.zero_add]
    exact hcall

theorem originPage_call (hpos : 0 < pageSize)
    (hflags : vma.flags ∈ [flagFile, flagAnon, flagStack, flagHeap])
    (hzero : MeetsZero pageSize vma) :
    ∃ seen, ∃ call ∈ areaCalls pageSize ops true seen vma s,
      call.addr = pageAddress pageSize vma (nrpages pageSize vma - 1) ∧
        call.len = 2 * pageSize := by
  obtain ⟨z, hz, horigin⟩ := hzero
  generalize hlast : nrpages pageSize vma - 1 = last
  have haddr : pageAddress pageSize vma last ≠ 0 := by
    rw [← horigin]
    exact (pageAddress_ne hpos (by omega) (by omega)).symm
  obtain ⟨act, hact, limit, hvisit⟩ :=
    @visitArea_pagesAt pageSize vma hflags fun idx => idx == z || idx == last
  obtain ⟨call, hcall, hfields⟩ := callOf_act hact (pageAddress pageSize vma last) (2 * pageSize)
  have hidle {l : Nat} : ∀ k, k ≠ z → k ≠ last →
      visitArea pageSize true (pagesAt fun idx => idx == z || idx == last) vma k 0 l =
        .goOn 0 l := by
    intro k hz hlast
    rw [hvisit, if_neg (by simp [hz, hlast]), endRun, if_pos rfl]
  have htaken : visitArea pageSize true (pagesAt fun idx => idx == z || idx == last) vma z 0 0 =
      .goOn 0 pageSize := by
    rw [hvisit, if_pos (by simp), takePage, if_pos rfl, horigin, Nat.zero_add]
    simp [endRun]
  refine ⟨pagesAt fun idx => idx == z || idx == last, call, ?_, hfields⟩
  have hcount : nrpages pageSize vma = 0 + 1 + (last - (z + 1)) + 1 + z := by omega
  rw [areaCalls, hcount, regionCalls_skip z fun k _ hk => hidle k (by omega) (by omega),
    Nat.zero_add z, regionCalls_goOn htaken,
    regionCalls_skip _ fun k hlow hhigh => hidle k (by omega) (by omega),
    show z + 1 + (last - (z + 1)) = last by omega]
  apply callOf_mem
  rw [hvisit, if_pos (by simp), takePage_last (by omega) haddr, ← Nat.two_mul]
  exact hcall

/-- Every address of the pages of an area, above the first page of the address
space, is asked for with some pagemap. -/
theorem exists_areaCall (hpos : 0 < pageSize)
    (hflags : vma.flags ∈ [flagFile, flagAnon, flagStack, flagHeap]) (ha : a < 2 ^ 64)
    (hlow : pageSize ≤ a)
    (h : distance vma.start a < nrpages pageSize vma * pageSize ∨
      (MeetsZero pageSize vma ∧
        distance vma.start a < (nrpages pageSize vma + 1) * pageSize)) :
    ∃ seen, ∃ call ∈ areaCalls pageSize obligingOps true seen vma (),
      Names pageSize call.addr call.len a := by
  have hend : distance vma.start a < distance vma.start a / pageSize * pageSize + pageSize := by
    have hmod := Nat.mod_lt (distance vma.start a) hpos
    have hdiv := Nat.div_add_mod' (distance vma.start a) pageSize
    omega
  rcases Nat.lt_or_ge (distance vma.start a) (nrpages pageSize vma * pageSize) with hin | hbehind
  · have hnear : distance
        (pageAddress pageSize vma (distance vma.start a / pageSize)) a < pageSize :=
      distance_add_lt (Nat.div_mul_le_self _ _) hend
    have haddr : pageAddress pageSize vma (distance vma.start a / pageSize) ≠ 0 := by
      intro hzero
      rw [hzero, distance_of_le (Nat.zero_le a) ha] at hnear
      omega
    obtain ⟨call, hcall, hstart, hlen⟩ := @onePage_call pageSize vma Unit obligingOps () hflags _
      ((Nat.div_lt_iff_lt_mul hpos).mpr hin) haddr
    refine ⟨_, call, hcall, ?_⟩
    rw [Names, hstart, hlen, roundUp_mul hpos, Nat.one_mul]
    exact hnear
  · obtain ⟨hzero, hextra⟩ := h.resolve_left (not_lt.mpr hbehind)
    obtain ⟨seen, call, hcall, hstart, hlen⟩ :=
      @originPage_call pageSize vma Unit obligingOps () hpos hflags hzero
    refine ⟨seen, call, hcall, ?_⟩
    rw [Names, hstart, hlen, roundUp_mul hpos]
    obtain ⟨last, hlast⟩ : ∃ last, nrpages pageSize vma = last + 1 := by
      obtain ⟨z, hz, -⟩ := hzero
      exact ⟨nrpages pageSize vma - 1, by omega⟩
    simp only [hlast, Nat.add_sub_cancel, Nat.add_mul, Nat.one_mul] at hbehind hextra ⊢
    exact distance_add_lt (by omega) (by omega)

end Runs

section Mappings

variable {pageSize : Nat} {vma : ScannedVma} {a : Nat}

/-- An area as a mapping has it: whole pages, above the first one of the address
space. -/
structure Proper (pageSize : Nat) (vma : ScannedVma) : Prop where
  start_pos : 0 < vma.start
  start_lt_stop : vma.start < vma.stop
  stop_lt : vma.stop < 2 ^ 64
  start_aligned : pageSize ∣ vma.start
  stop_aligned : pageSize ∣ vma.stop

theorem Proper.areaSize_eq (h : Proper pageSize vma) : areaSize vma = vma.stop - vma.start :=
  distance_of_le h.start_lt_stop.le h.stop_lt

theorem Proper.pageSize_pos (h : Proper pageSize vma) : 0 < pageSize :=
  Nat.pos_of_dvd_of_pos h.start_aligned h.start_pos

theorem Proper.nrpages_mul (h : Proper pageSize vma) :
    nrpages pageSize vma * pageSize = vma.stop - vma.start := by
  rw [nrpages, h.areaSize_eq]
  exact Nat.div_mul_cancel (Nat.dvd_sub h.stop_aligned h.start_aligned)

theorem Proper.pageAddress_eq (h : Proper pageSize vma) {idx : Nat}
    (hidx : idx < nrpages pageSize vma) :
    pageAddress pageSize vma idx = vma.start + idx * pageSize := by
  have hle : idx * pageSize ≤ nrpages pageSize vma * pageSize := Nat.mul_le_mul_right _ hidx.le
  have hstop := h.stop_lt
  have hlt := h.start_lt_stop
  rw [h.nrpages_mul] at hle
  exact Nat.mod_eq_of_lt (by omega)

theorem Proper.not_meetsZero (h : Proper pageSize vma) : ¬ MeetsZero pageSize vma := by
  rintro ⟨idx, hidx, hzero⟩
  have hpos := h.start_pos
  rw [h.pageAddress_eq (by omega)] at hzero
  omega

theorem Proper.reaches_iff (h : Proper pageSize vma) (ha : a < 2 ^ 64) :
    Reaches pageSize vma a ↔ vma.start ≤ a ∧ a < vma.stop := by
  have hround : (areaSize vma + pageSize - 1) / pageSize * pageSize = vma.stop - vma.start := by
    rw [h.areaSize_eq, ← h.nrpages_mul, roundUp_mul h.pageSize_pos]
  rw [Reaches, hround, h.nrpages_mul]
  simp only [h.not_meetsZero, false_and, false_or]
  rw [← distance_lt_sub_iff h.start_lt_stop.le h.stop_lt ha]
  constructor
  · rintro (hreach | ⟨-, hreach⟩)
    · exact hreach
    · exact hreach
  · exact Or.inl

/-- What the scan stores of a mapping. -/
def scanned (vma : ProtectedArea pageSize) : ScannedVma :=
  ⟨vma.start, vma.stop, vma.prot.toNat, vma.flags⟩

theorem proper_scanned (vma : ProtectedArea pageSize) : Proper pageSize (scanned vma) :=
  ⟨vma.start_pos, vma.start_lt_stop, vma.stop_lt, vma.start_aligned, vma.stop_aligned⟩

theorem nrpages_scanned (vma : ProtectedArea pageSize) :
    nrpages pageSize (scanned vma) = vma.nrpages := by
  rw [nrpages, (proper_scanned vma).areaSize_eq]
  rfl

theorem visitArea_scanned (rssFile : Bool) (seen : Seen) {vma : ProtectedArea pageSize} {idx : Nat}
    (hidx : idx < vma.nrpages) :
    visitArea pageSize rssFile seen (scanned vma) idx = seen.visit rssFile vma.toVmArea idx := by
  have haddr : pageAddress pageSize (scanned vma) idx = vma.address idx :=
    (proper_scanned vma).pageAddress_eq (hidx.trans_eq (nrpages_scanned vma).symm)
  have hflags : (scanned vma).flags = vma.flags := rfl
  funext a l
  rcases hentry : seen.entry idx with _ | map
  · simp [visitArea, Seen.visit, visitPage, hentry]
  · simp only [visitArea, takePage, Seen.visit, visitPage, visitAnon, visitFile, hentry,
      pageUnevictable_seen, Seen.unevictable, nrpages_scanned, haddr, hflags, Option.isSome_some,
      Option.getD_some, Bool.not_true, Bool.false_eq_true, if_false, Option.all_some,
      Option.all_none, decide_eq_true_eq, and_true]

theorem areaCalls_scanned {State : Type} (ops : RegionOps State) (rssFile : Bool) (seen : Seen)
    (vma : ProtectedArea pageSize) (s : State) :
    areaCalls pageSize ops rssFile seen (scanned vma) s =
      vmaCalls ops rssFile seen vma.toVmArea s := by
  rw [areaCalls, nrpages_scanned]
  refine regionCalls_congr fun k _ hk => visitArea_scanned rssFile seen ?_
  omega

theorem protectionRequest_scanned (change : BitVec 64 → BitVec 64) (vma : ProtectedArea pageSize) :
    protectionRequest change (scanned vma) = request change vma := by
  rw [protectionRequest, (proper_scanned vma).areaSize_eq]
  simp [scanned, request]

theorem delivered_isPrefix (change : BitVec 64 → BitVec 64) (io : Nat → Option Nat) (i : Nat)
    (vmas : List (ProtectedArea pageSize)) :
    delivered io i ((narrow vmas).map (request change)) <+:
      (protectionLoop change io i (vmas.map scanned)).flatMap VmMprotect.bytes := by
  induction vmas generalizing i with
  | nil => exact List.nil_prefix
  | cons vma rest ih =>
      have hskip : isReadWrite (scanned vma) = readWrite vma.prot := by
        simp [isReadWrite, scanned]
      rw [List.map_cons, protectionLoop, hskip, protectionRequest_scanned]
      rcases hprot : readWrite vma.prot with _ | _
      · rw [narrow, List.filter_cons_of_pos (by simp [hprot]), List.map_cons, delivered]
        rcases hio : io i with _ | n
        · simp only [if_true, Bool.false_eq_true, if_false, List.flatMap_cons]
          exact (List.prefix_append_right_inj _).mpr (ih (i + 1))
        · simp only [Bool.false_eq_true, if_false, reduceCtorEq, List.flatMap_cons,
            List.flatMap_nil, List.append_nil]
          exact List.take_prefix _ _
      · rw [narrow, List.filter_cons_of_neg (by simp [hprot]), if_pos rfl]
        exact ih i

theorem sendProtections_scanned (change : BitVec 64 → BitVec 64) (cd : Connection)
    (vmas : List (ProtectedArea pageSize)) :
    (sendProtections change cd vmas).2 <+:
      (protectionCalls change cd (vmas.map scanned)).flatMap VmMprotect.bytes := by
  rw [sendProtections, protectionCalls]
  split_ifs
  · exact List.nil_prefix
  · exact List.nil_prefix
  · have hbytes := @mprotectLoop_bytes pageSize cd.io change vmas 1 ⟨[], 0⟩
    rw [List.nil_append] at hbytes
    simp only [hbytes]
    exact delivered_isPrefix change cd.io 0 vmas

end Mappings

end Memcr.ScannedAreas
