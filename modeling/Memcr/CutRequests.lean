import Memcr.ParasiteCommands
import Memcr.Protections

namespace Memcr.CutRequests

open Memcr.ByteMemory
open Memcr.ByteWords
open Memcr.CallLogs
open Memcr.CallLogs.Logged
open Memcr.CallOutcome
open Memcr.DumpFormat
open Memcr.HeaderStreams
open Memcr.ParasiteCommands
open Memcr.RegionRequests

/-- The actions of the complete requests at the front of what follows the command.
The contents of a region may be cut. -/
def wholeActions (input : List Byte) : MemcrCmd → List Action
  | .cmdMprotect => actionsOf mprotected (records vmMprotectSize bare input)
  | .cmdGetPages => actionsOf advised (records vmRegionReqSize bare input)
  | .cmdSetPages => actionsOf uploaded (records vmRegionReqSize regionLength input)
  | .cmdEnd => []

/-- The parasite carries out the complete requests and nothing else, as far as it
lives. -/
def OnlyWhole (kernel : Kernel) (stack : Memory) (input : List Byte) (cmd : MemcrCmd) : Prop :=
  Ends (fun log _ => log = wholeActions input cmd) (fun log => Begins log (wholeActions input cmd))
    (handleConnection kernel stack ⟨cmd.byte :: input, 0⟩)

/-- The type of the request that a part of one is taken for: what has arrived of it,
and for the rest the request in front of it or, if there is none, the stack. -/
def cutType (stack : Memory) (input : List Byte) : Nat :=
  let whole := input.length / vmRegionReqSize * vmRegionReqSize
  let part := input.drop whole
  let before := ((slice stack 0 vmRegionReqSize ++ input).drop whole).take vmRegionReqSize
  ByteWords.ofBytes ((part ++ before.drop part.length).drop 24)

/-- The connection ends so that nothing comes of it, and no region is longer than
`read` can be told. -/
def Harmless (stack : Memory) (input : List Byte) : MemcrCmd → Prop
  | .cmdMprotect => vmMprotectSize ∣ input.length
  | .cmdGetPages => vmRegionReqSize ∣ input.length ∨ cutType stack input = regionReqPagemap
  | .cmdSetPages => ∀ r ∈ records vmRegionReqSize regionLength input,
      r.body.length ≤ payloadSize r.header
  | .cmdEnd => True

instance (stack : Memory) (input : List Byte) : (cmd : MemcrCmd) →
    Decidable (Harmless stack input cmd)
  | .cmdMprotect => inferInstanceAs (Decidable (_ ∣ _))
  | .cmdGetPages => inferInstanceAs (Decidable (_ ∨ _))
  | .cmdSetPages => inferInstanceAs (Decidable (∀ r ∈ records _ _ _, _))
  | .cmdEnd => inferInstanceAs (Decidable True)

section Strays

variable {stack : Memory} {input req : List Byte}

theorem mprotect_stray_iff :
    mprotectHandler.stray req input = [] ↔ vmMprotectSize ∣ input.length := by
  have hacts : mprotectHandler.acts (mprotectHandler.mixed req input) [] ≠ [] :=
    List.cons_ne_nil _ _
  rw [Handler.stray_eq_nil_iff, or_iff_left hacts]
  exact leftover_bare_eq_nil_iff vmMprotectSize_pos

theorem advised_eq_nil_iff (header body : List Byte) :
    advised header body = [] ↔ ByteWords.ofBytes (header.drop 24) = regionReqPagemap := by
  simp only [advised, VmRegionReq.ofBytes]
  by_cases htype : ByteWords.ofBytes (header.drop 24) = regionReqPagemap
  · simp [htype]
  · simp [htype]

theorem pagesServed_drop {header : List Byte} (h : header.length = vmRegionReqSize) :
    (pagesServed header).drop 16 = header.drop 16 := by
  rw [pagesServed]
  split
  · rw [lenCleared, ← List.append_assoc, List.drop_left']
    simp [h, vmRegionReqSize]
  · rfl

theorem held_drop (hreq : req.length = vmRegionReqSize) :
    (getPagesHandler.held req input).drop 16 =
      (((req ++ input).drop (input.length / vmRegionReqSize * vmRegionReqSize)).take
        vmRegionReqSize).drop 16 := by
  rw [← last_header_bare vmRegionReqSize_pos hreq]
  have hheaders : ∀ r ∈ records vmRegionReqSize bare input, r.header.length = vmRegionReqSize :=
    fun r hr => header_length vmRegionReqSize_pos hr
  simp only [Handler.held, getPagesHandler]
  generalize records vmRegionReqSize bare input = rs at hheaders
  rcases List.eq_nil_or_concat rs with rfl | ⟨rs, r, rfl⟩
  · rfl
  · rw [List.concat_eq_append, List.foldl_concat, List.foldl_concat]
    exact pagesServed_drop (hheaders r (by simp))

theorem drop_completed {part before before' : List Byte} (h : before.drop 16 = before'.drop 16) :
    (part ++ before.drop part.length).drop 24 = (part ++ before'.drop part.length).drop 24 := by
  have hshift : ∀ l : List Byte, (l.drop part.length).drop (24 - part.length) =
      (l.drop 16).drop (part.length + (24 - part.length) - 16) := by
    intro l
    rw [List.drop_drop, List.drop_drop]
    congr 1
    omega
  rw [List.drop_append, List.drop_append, hshift, hshift, h]

theorem getPages_stray_iff :
    getPagesHandler.stray (slice stack 0 vmRegionReqSize) input = [] ↔
      vmRegionReqSize ∣ input.length ∨ cutType stack input = regionReqPagemap := by
  have hpart : leftover getPagesHandler.size getPagesHandler.bodyLength input =
      input.drop (input.length / vmRegionReqSize * vmRegionReqSize) :=
    leftover_bare vmRegionReqSize_pos input
  have htype : ByteWords.ofBytes
      ((getPagesHandler.mixed (slice stack 0 vmRegionReqSize) input).drop 24) =
        cutType stack input := by
    simp only [Handler.mixed, hpart, cutType]
    rw [drop_completed (held_drop (slice_length ..))]
  rw [Handler.stray_eq_nil_iff, ← leftover_bare_eq_nil_iff vmRegionReqSize_pos, ← htype]
  exact or_congr_right (advised_eq_nil_iff _ [])

theorem setPages_stray : setPagesHandler.stray req input = [] := by
  rw [Handler.stray_eq_nil_iff]
  exact Or.inr rfl

end Strays

section Lengths

variable {header rest : List Byte}

theorem payloadSize_le (header : List Byte) : payloadSize header ≤ regionLength header := by
  have := toInt32_le (regionLength header)
  rw [payloadSize_eq]
  omega

theorem payloadSize_lt (header : List Byte) : payloadSize header < 2 ^ 31 := by
  have := toInt32_lt (regionLength header)
  rw [payloadSize_eq]
  omega

theorem le_regionLength_of_lt (h : payloadSize header < regionLength header) :
    2 ^ 31 ≤ regionLength header := by
  by_contra hlt
  rw [payloadSize_eq, toInt32_of_lt (by omega)] at h
  omega

theorem take_payloadSize (h : (rest.take (regionLength header)).length ≤ payloadSize header) :
    rest.take (payloadSize header) = rest.take (regionLength header) ∧
      rest.drop (payloadSize header) = rest.drop (regionLength header) := by
  have hle := payloadSize_le header
  rw [List.length_take] at h
  rcases Nat.le_total (regionLength header) rest.length with hlong | hshort
  · rw [show payloadSize header = regionLength header by omega]
    exact ⟨rfl, rfl⟩
  · rw [List.take_of_length_le (by omega), List.take_of_length_le hshort,
      List.drop_of_length_le (by omega), List.drop_of_length_le hshort]
    exact ⟨rfl, rfl⟩

theorem exists_record_of_store {rs : List (Record Byte)} {addr : Nat} {data : List Byte}
    (h : .store addr data ∈ actionsOf uploaded rs) : ∃ r ∈ rs, r.body = data := by
  obtain ⟨r, hr, hstore⟩ := List.mem_flatMap.mp h
  simp only [uploaded, stored] at hstore
  split at hstore
  · simp at hstore
  · simp only [List.mem_singleton, Action.store.injEq] at hstore
    exact ⟨r, hr, hstore.2.symm⟩

theorem uploaded_ne (h : payloadSize header < (rest.take (regionLength header)).length)
    (more : List Action) :
    uploaded header (rest.take (payloadSize header)) ++
        actionsOf uploaded
          (records vmRegionReqSize payloadSize (rest.drop (payloadSize header))) ≠
      uploaded header (rest.take (regionLength header)) ++ more := by
  have hlength := List.length_take (i := regionLength header) (l := rest)
  have hne : rest.take (regionLength header) ≠ [] :=
    List.ne_nil_of_length_pos (Nat.zero_lt_of_lt h)
  have hhuge : 2 ^ 31 ≤ regionLength header := le_regionLength_of_lt (by omega)
  intro heq
  rcases Nat.eq_zero_or_pos (payloadSize header) with hzero | hpos
  · rw [hzero] at heq
    have hmem : .store (VmRegion.ofBytes header).addr.toNat (rest.take (regionLength header)) ∈
        actionsOf uploaded (records vmRegionReqSize payloadSize (rest.drop 0)) := by
      have hnothing : uploaded header (rest.take 0) = [] := rfl
      rw [hnothing, List.nil_append] at heq
      rw [heq, uploaded, stored, if_neg hne]
      simp
    obtain ⟨r, hr, hbody⟩ := exists_record_of_store hmem
    obtain ⟨hfits, hasked⟩ := body_length_le vmRegionReqSize_pos hr
    have hint := payloadSize_lt r.header
    rw [hbody, List.drop_zero] at hfits
    rw [hbody] at hasked
    simp only [vmRegionReqSize] at hfits
    omega
  · have hshort := List.length_take_of_le (show payloadSize header ≤ rest.length by omega)
    have hne' : rest.take (payloadSize header) ≠ [] :=
      List.ne_nil_of_length_pos (by omega)
    simp only [uploaded, stored, if_neg hne, if_neg hne', List.cons_append, List.nil_append,
      List.cons.injEq, Action.store.injEq, true_and] at heq
    rw [heq.1] at hshort
    omega

theorem setPages_requests_iff (input : List Byte) :
    actionsOf uploaded (records vmRegionReqSize payloadSize input) =
        actionsOf uploaded (records vmRegionReqSize regionLength input) ↔
      ∀ r ∈ records vmRegionReqSize regionLength input,
        r.body.length ≤ payloadSize r.header := by
  induction input using stream_induction regionLength vmRegionReqSize_pos with
  | short input hshort => simp [records_of_short hshort]
  | record input hlong ih =>
      rw [records_cons vmRegionReqSize_pos hlong, records_cons vmRegionReqSize_pos hlong,
        List.forall_mem_cons]
      simp only [actionsOf, List.flatMap_cons] at ih ⊢
      by_cases hfits : ((input.drop vmRegionReqSize).take
          (regionLength (input.take vmRegionReqSize))).length ≤
            payloadSize (input.take vmRegionReqSize)
      · obtain ⟨hbody, hbehind⟩ := take_payloadSize hfits
        have hsame : behindFirst vmRegionReqSize payloadSize input =
            behindFirst vmRegionReqSize regionLength input := hbehind
        rw [hbody, hsame, List.append_cancel_left_eq, ih]
        exact (and_iff_right hfits).symm
      · exact iff_of_false (uploaded_ne (Nat.lt_of_not_le hfits) _) fun h => hfits h.1

end Lengths

section Completeness

theorem performed_eq_iff (stack : Memory) (input : List Byte) (cmd : MemcrCmd) :
    performed stack input cmd = wholeActions input cmd ↔ Harmless stack input cmd := by
  rcases cmd with _ | _ | _ | _
  · exact List.append_right_eq_self.trans mprotect_stray_iff
  · exact List.append_right_eq_self.trans getPages_stray_iff
  · rw [performed, Handler.carriedOut, setPages_stray, List.append_nil]
    exact setPages_requests_iff input
  · exact iff_of_true rfl trivial

variable {kernel : Kernel} {stack : Memory} {input : List Byte} {cmd : MemcrCmd}

theorem onlyWhole_of_harmless (kernel : Kernel) (h : Harmless stack input cmd) :
    OnlyWhole kernel stack input cmd := by
  have hrun := handleConnection_carriesOut kernel stack input cmd
  rw [(performed_eq_iff stack input cmd).mpr h] at hrun
  exact hrun.mono (fun _ _ hlog => hlog) fun _ hcut => hcut.2

theorem harmless_of_onlyWhole (hkernel : kernel.Succeeds) (h : OnlyWhole kernel stack input cmd) :
    Harmless stack input cmd := by
  obtain ⟨value, hrun⟩ := (handleConnection_carriesOut kernel stack input cmd).eq_returns hkernel
  rw [OnlyWhole, hrun] at h
  rcases h with hwhole | _
  exact (performed_eq_iff stack input cmd).mp hwhole

/-- Every call succeeds, and a page goes through at a time. -/
def obliging : Kernel where
  received _ := some 4096
  sent _ := some 4096
  mprotect _ := 0
  madvise _ := 0
  fpage := 3
  lseek _ seek := seek
  readPagemap _ len := len

theorem obliging_succeeds : obliging.Succeeds where
  received _ := Option.some_ne_none _
  sent _ := Option.some_ne_none _
  mprotect _ := le_rfl
  madvise _ := le_rfl
  fpage := by decide
  lseek _ _ := rfl
  readPagemap _ _ := rfl

/-- Nothing but complete requests is carried out, whatever the kernel does, just
where the connection is harmless. Elsewhere it fails under every kernel that lets the
parasite live. -/
theorem only_whole_requests_iff (stack : Memory) (input : List Byte) (cmd : MemcrCmd) :
    ((∀ kernel, OnlyWhole kernel stack input cmd) ↔ Harmless stack input cmd) ∧
      ∀ kernel : Kernel, kernel.Succeeds →
        (OnlyWhole kernel stack input cmd ↔ Harmless stack input cmd) := by
  refine ⟨⟨?_, ?_⟩, ?_⟩
  · intro h
    exact harmless_of_onlyWhole obliging_succeeds (h obliging)
  · intro h kernel
    exact onlyWhole_of_harmless kernel h
  · intro kernel hkernel
    exact ⟨harmless_of_onlyWhole hkernel, onlyWhole_of_harmless kernel⟩

/-- Two of the four bytes of a region arrive. -/
def cutContents : List Byte := (VmRegionReq.mem ⟨0x1000, 4⟩ false 0).bytes ++ [1, 2]

theorem only_whole_requests_cutContents :
    wholeActions cutContents .cmdSetPages = [.store 0x1000 [1, 2]] ∧
      obliging.Succeeds ∧ OnlyWhole obliging (fun _ => 0) cutContents .cmdSetPages :=
  ⟨by decide, obliging_succeeds,
    ((only_whole_requests_iff (fun _ => 0) cutContents .cmdSetPages).2 obliging
      obliging_succeeds).mpr (by decide)⟩

def onePage : VmMprotect := ⟨0x1000, 0x1000, 1⟩

/-- A request for one page, and the address of another one. -/
def cutMprotect : List Byte := onePage.bytes ++ toBytes 8 0x5000

def cutGetPages : List Byte :=
  (VmRegionReq.mem ⟨0x1000, 0x1000⟩ false 0).bytes ++ toBytes 8 0x5000

/-- A region of 2 ^ 31 bytes, of which one arrives. -/
def hugeRegion : List Byte := (VmRegionReq.mem ⟨0x1000, 0x80000000⟩ false 0).bytes ++ [7]

theorem cut_requests_carried_out :
    handleConnection obliging (fun _ => 0) ⟨MemcrCmd.cmdMprotect.byte :: cutMprotect, 0⟩ =
        ⟨[.mprotect onePage, .mprotect ⟨0x5000, 0x1000, 1⟩], .returns 0⟩ ∧
      handleConnection obliging (fun _ => 0) ⟨MemcrCmd.cmdGetPages.byte :: cutGetPages, 0⟩ =
        ⟨[.madvise ⟨0x1000, 0x1000⟩, .madvise ⟨0x5000, 0x1000⟩], .returns 0⟩ ∧
      handleConnection obliging (fun _ => 0) ⟨MemcrCmd.cmdSetPages.byte :: hugeRegion, 0⟩ =
        ⟨[], .returns 0⟩ ∧
      ¬ OnlyWhole obliging (fun _ => 0) cutMprotect .cmdMprotect ∧
      ¬ OnlyWhole obliging (fun _ => 0) cutGetPages .cmdGetPages ∧
      ¬ OnlyWhole obliging (fun _ => 0) hugeRegion .cmdSetPages := by
  refine ⟨by decide, by decide, by decide, ?_, ?_, ?_⟩
  · intro h
    exact absurd (harmless_of_onlyWhole obliging_succeeds h) (by decide)
  · intro h
    exact absurd (harmless_of_onlyWhole obliging_succeeds h) (by decide)
  · intro h
    exact absurd (harmless_of_onlyWhole obliging_succeeds h) (by decide)

end Completeness

section Protections

open Memcr.Protections (Protection)

variable {pageSize rounds : Nat} {req input : List Byte} {prot : Protection}

/-- What an action does to the protections. -/
def protect (pageSize : Nat) (prot : Protection) : Action → Protection
  | .mprotect req => Protections.sysMprotect pageSize prot req
  | _ => prot

theorem protections_cmdMprotect (hreq : req.length = vmMprotectSize)
    (hrounds : input.length < rounds) :
    Protections.cmdMprotect pageSize rounds req input prot =
      .returns ((mprotectHandler.carriedOut req input).foldl (protect pageSize) prot) := by
  induction input using stream_induction bare vmMprotectSize_pos
    generalizing req rounds prot with
  | short input hshort =>
      obtain ⟨rounds, rfl⟩ := Nat.exists_eq_succ_of_ne_zero (Nat.ne_zero_of_lt hrounds)
      rcases eq_or_ne input [] with rfl | hne
      · rw [Handler.carriedOut_nil]
        exact Protections.cmdMprotect_nil prot
      · have hpos := List.length_pos_iff.mpr hne
        obtain ⟨rounds, rfl⟩ := Nat.exists_eq_succ_of_ne_zero (by omega : rounds ≠ 0)
        have hshort' : input.length < mprotectHandler.size := hshort
        rw [Handler.carriedOut_of_short hshort' hne, Protections.cmdMprotect]
        simp only [List.take_of_length_le hshort.le, List.drop_of_length_le hshort.le, hpos.ne',
          if_false, Protections.cmdMprotect_nil]
        rfl
  | record input hlong ih =>
      obtain ⟨rounds, rfl⟩ := Nat.exists_eq_succ_of_ne_zero (Nat.ne_zero_of_lt hrounds)
      have hless := @behindFirst_length_lt _ _ bare _ vmMprotectSize_pos hlong
      have hlength : (input.take vmMprotectSize).length = vmMprotectSize :=
        List.length_take_of_le hlong
      have hlong' : mprotectHandler.size ≤ input.length := hlong
      rw [Handler.carriedOut_record hlong', List.foldl_append, Protections.cmdMprotect]
      simp only [hlength, vmMprotectSize_pos.ne', if_false, List.drop_of_length_le hreq.le,
        List.append_nil]
      exact ih hlength (by omega)

/-- The protections that a restore and a checkpoint are left with are those of the
actions here. -/
theorem cmdMprotect_protections {kernel : Kernel} (hkernel : kernel.Succeeds) (stack : Memory) :
    Protections.cmdMprotect pageSize (input.length + 1) (slice stack 0 vmMprotectSize) input prot =
      .returns ((handleConnection kernel stack
        ⟨MemcrCmd.cmdMprotect.byte :: input, 0⟩).log.foldl (protect pageSize) prot) := by
  obtain ⟨value, hrun⟩ :=
    (handleConnection_carriesOut kernel stack input .cmdMprotect).eq_returns hkernel
  rw [hrun]
  exact protections_cmdMprotect (slice_length ..) (Nat.lt_succ_self _)

end Protections

end Memcr.CutRequests
