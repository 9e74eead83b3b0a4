import Mathlib.Data.List.Infix
import Memcr.CutRequests
import Memcr.DumpReaders

namespace Memcr.UploadStream

open Memcr.ByteMemory
open Memcr.ByteWords
open Memcr.CallLogs
open Memcr.CallOutcome
open Memcr.CheckpointMemory
open Memcr.CutRequests
open Memcr.DumpFormat
open Memcr.DumpRestore
open Memcr.HeaderStreams
open Memcr.PageSelection
open Memcr.ParasiteCommands (Action Begins handleConnection setPagesHandler payloadSize uploaded
  actionsOf stored performed)
open Memcr.Protections (Sent parasiteWrite)
open Memcr.RegionRequests

/-- The loop of `target_set_pages` with the bytes that it sends. An entry `some n` of `io`
makes a `parasite_write` fail after `n` bytes. -/
def sendLoop (cfg : Config) (env : RestoreEnv) (io : Nat → Option Nat) (slack : Nat → BitVec 56) :
    Nat → Upload → Sent → Outcome (Int × Upload × Sent)
  | 0, _, _ => .hangs
  | rounds + 1, st, s =>
      (readVmRegion cfg env.readFails (env.stale st.sends) st.reader).andThen
        fun (ret, vmr, buf, reader) =>
          if ret ≤ 0 then .returns (ret, { st with reader := reader }, s)
          else
            let (ret, s) := parasiteWrite io (VmRegionReq.mem vmr false (slack st.sends)).bytes s
            if ret ≠ vmRegionReqSize then
              .returns (-1, { st with reader := reader, sends := st.sends + 1 }, s)
            else if maxVmRegionSize < vmr.len.toNat then .overruns
            else
              let data := slice buf 0 vmr.len.toNat
              let (ret, s) := parasiteWrite io data s
              if ret ≠ toInt32 vmr.len.toNat then
                .returns (-1, { st with reader := reader, sends := st.sends + 2 }, s)
              else
                sendLoop cfg env io slack rounds
                  { reader := reader
                    uploaded := st.uploaded ++ [⟨vmr, data, DumpReaders.slice_len_length buf vmr⟩]
                    sends := st.sends + 2 } s

/-- `target_set_pages` with all that goes through its connection. -/
def targetSetPages (cfg : Config) (env : RestoreEnv) (io : Nat → Option Nat)
    (slack : Nat → BitVec 56) (file : List Byte) (dumpedVmSize : Nat) :
    Outcome (Int × Upload × List Byte) :=
  let st := Upload.start file dumpedVmSize
  if !env.dumpOpens then .returns (-1, st, [])
  else if !env.parasiteConnects then .returns (-1, st, [])
  else if !env.commandSent then .returns (-1, st, [])
  else
    (sendLoop cfg env io slack (file.length + 1) st ⟨[], 0⟩).andThen fun (ret, st, s) =>
      .returns (ret, st, MemcrCmd.cmdSetPages.byte :: s.bytes)

/-- What an action does to the memory. -/
def act (mem : Memory) : Action → Memory
  | .store addr data => store mem addr data
  | _ => mem

/-- The memory behind the actions of the parasite. -/
def land (mem : Memory) (log : List Action) : Memory := log.foldl act mem

section Sending

variable {cfg : Config} {env : RestoreEnv} {io : Nat → Option Nat} {slack : Nat → BitVec 56}

theorem parasiteWrite_cases (io : Nat → Option Nat) (buf : List Byte) (s : Sent) :
    (io s.writes = none ∧
      parasiteWrite io buf s = ((buf.length : Int), ⟨s.bytes ++ buf, s.writes + 1⟩)) ∨
    ((io s.writes).isSome = true ∧ ∃ part, part <+: buf ∧
      parasiteWrite io buf s = ((-1 : Int), ⟨s.bytes ++ part, s.writes + 1⟩)) := by
  rw [parasiteWrite]
  rcases hio : io s.writes with _ | n
  · exact Or.inl ⟨rfl, rfl⟩
  · exact Or.inr ⟨rfl, _, List.take_prefix _ _, rfl⟩

theorem toInt32_of_le {len : Nat} (h : len ≤ maxVmRegionSize) : toInt32 len = len :=
  toInt32_of_lt (Nat.lt_of_le_of_lt h (by decide))

theorem sendLoop_erases (slack : Nat → BitVec 56)
    (hsends : ∀ i, env.sendFails i = (io i).isSome) (rounds : Nat) (st : Upload) (s : Sent)
    (hwrites : s.writes = st.sends) :
    ((sendLoop cfg env io slack rounds st s).andThen fun r => .returns (r.1, r.2.1)) =
      uploadLoop cfg env rounds st := by
  induction rounds generalizing st s with
  | zero => rfl
  | succ rounds ih =>
      rw [sendLoop, uploadLoop, Outcome.andThen_andThen]
      refine Outcome.andThen_congr ?_
      rintro ⟨ret, vmr, buf, reader⟩ -
      dsimp only
      split
      · rfl
      · rw [hsends, hsends]
        rcases parasiteWrite_cases io (VmRegionReq.mem vmr false (slack st.sends)).bytes s with
          ⟨hio, hwrite⟩ | ⟨hio, part, -, hwrite⟩
        · rw [hwrite, ← hwrites, hio]
          simp only [VmRegionReq.bytes_length, ne_eq, not_true_eq_false, if_false,
            Option.isSome_none, Bool.false_eq_true]
          split
          · rfl
          · rename_i hfits
            have hlen := toInt32_of_le (Nat.le_of_not_lt hfits)
            rcases parasiteWrite_cases io (slice buf 0 vmr.len.toNat)
                ⟨s.bytes ++ (VmRegionReq.mem vmr false (slack s.writes)).bytes, s.writes + 1⟩ with
              ⟨hio', hwrite'⟩ | ⟨hio', part, -, hwrite'⟩
            · rw [hwrite', hio']
              simp only [slice_length, hlen, not_true_eq_false, if_false, Option.isSome_none,
                Bool.false_eq_true]
              exact ih _ _ (by simp [hwrites])
            · have hfails : (-1 : Int) ≠ toInt32 vmr.len.toNat := by omega
              rw [hwrite', hio', if_pos hfails, if_pos rfl]
              rfl
        · have hfails : (-1 : Int) ≠ vmRegionReqSize := by decide
          rw [hwrite, ← hwrites, hio]
          simp only [if_pos hfails, if_true]
          rfl

/-- The bytes that a region becomes on the connection. -/
def requestBytes (slack : BitVec 56) (region : Region) : List Byte :=
  (VmRegionReq.mem region.vmr false slack).bytes ++ region.data

theorem sendLoop_frame {region : Region} (hregion : Stored cfg region) {tail : List Byte}
    (rounds : Nat) (st : Upload) (s : Sent) (hrest : st.reader.rest = region.frame cfg ++ tail)
    (hsize : region.vmr.len.toNat ≤ st.reader.dumpedVmSize) :
    (∃ ret st' s' part, sendLoop cfg env io slack (rounds + 1) st s = .returns (ret, st', s') ∧
      ret < 0 ∧ s'.bytes = s.bytes ++ part ∧ part <+: requestBytes (slack st.sends) region) ∨
    ∃ st' s', sendLoop cfg env io slack (rounds + 1) st s =
        sendLoop cfg env io slack rounds st' s' ∧
      st'.reader.rest = tail ∧ st'.sends = st.sends + 2 ∧
      st'.reader.dumpedVmSize = st.reader.dumpedVmSize - region.vmr.len.toNat ∧
      s'.bytes = s.bytes ++ requestBytes (slack st.sends) region := by
  have hpos := hregion.len_pos
  have hfits := hregion.len_le
  have hlen := toInt32_of_le hfits
  obtain ⟨ret, vmr, buf, reader, hread, hcases⟩ := readVmRegion_frame
    env.readFails (env.stale st.sends) hregion hrest hsize
  rw [sendLoop, hread, Outcome.returns_andThen]
  dsimp only
  rcases hcases with ⟨hneg, -⟩ | ⟨rfl, rfl, hslice, reads, rfl⟩
  · rw [if_pos (by omega)]
    exact Or.inl ⟨_, _, s, [], rfl, hneg, (List.append_nil _).symm, List.nil_prefix⟩
  · rw [if_neg (show ¬ (region.vmr.len.toNat : Int) ≤ 0 by omega)]
    rcases parasiteWrite_cases io (VmRegionReq.mem region.vmr false (slack st.sends)).bytes s
      with ⟨-, hwrite⟩ | ⟨-, part, hpart, hwrite⟩
    · simp only [hwrite, VmRegionReq.bytes_length, ne_eq, not_true_eq_false, if_false,
        if_neg (Nat.not_lt.mpr hfits)]
      rcases parasiteWrite_cases io (slice buf 0 region.vmr.len.toNat)
          ⟨s.bytes ++ (VmRegionReq.mem region.vmr false (slack st.sends)).bytes, s.writes + 1⟩
        with ⟨-, hwrite'⟩ | ⟨-, part, hpart, hwrite'⟩
      · simp only [hwrite', slice_length, hlen, not_true_eq_false, if_false]
        refine Or.inr ⟨_, _, rfl, rfl, rfl, rfl, ?_⟩
        rw [hslice, requestBytes, List.append_assoc]
      · have hfails : ¬ (-1 : Int) = toInt32 region.vmr.len.toNat := by omega
        simp only [hwrite', hfails, not_false_eq_true, if_true]
        refine Or.inl ⟨_, _, _, _, rfl, by decide, List.append_assoc _ _ _, ?_⟩
        exact (List.prefix_append_right_inj _).mpr (hslice ▸ hpart)
    · have hfails : ¬ (-1 : Int) = vmRegionReqSize := by decide
      simp only [hwrite, ne_eq, hfails, not_false_eq_true, if_true]
      exact Or.inl ⟨_, _, _, part, rfl, by decide, rfl, hpart.trans (List.prefix_append _ _)⟩

/-- The bytes of the requests for some regions; `k` calls have been made before. -/
def streamOf (slack : Nat → BitVec 56) : Nat → List Region → List Byte
  | _, [] => []
  | k, region :: rest => requestBytes (slack k) region ++ streamOf slack (k + 2) rest

/-- On a complete dump, what has been sent is a beginning of the requests for its regions,
and all of them if the loop succeeds. -/
theorem sendLoop_frames {regions : List Region} (hstored : ∀ region ∈ regions, Stored cfg region)
    (more : Nat) (st : Upload) (s : Sent)
    (hrest : st.reader.rest = regions.flatMap (Region.frame cfg))
    (hsize : (regions.map fun r => r.vmr.len.toNat).sum ≤ st.reader.dumpedVmSize) :
    ∃ ret st' s' part,
      sendLoop cfg env io slack (regions.length + (more + 1)) st s = .returns (ret, st', s') ∧
      s'.bytes = s.bytes ++ part ∧ part <+: streamOf slack st.sends regions ∧
      (ret = 0 → part = streamOf slack st.sends regions) := by
  induction regions generalizing st s with
  | nil =>
      obtain ⟨ret, vmr, buf, reader, hread, hcases⟩ := readVmRegion_cut_header
        cfg env.readFails (env.stale st.sends)
        (show st.reader.rest.length < vmRegionSize by rw [hrest]; exact Nat.zero_lt_succ 15)
      have hret : ret ≤ 0 := by
        rcases hcases with ⟨hneg, -⟩ | ⟨hzero, -⟩ <;> omega
      refine ⟨ret, { st with reader := reader }, s, [], ?_, (List.append_nil _).symm,
        List.nil_prefix, fun _ => rfl⟩
      rw [List.length_nil, Nat.zero_add, sendLoop, hread, Outcome.returns_andThen]
      exact if_pos hret
  | cons region rest ih =>
      rw [List.map_cons, List.sum_cons] at hsize
      rw [List.flatMap_cons] at hrest
      rw [List.length_cons, Nat.add_right_comm]
      rcases sendLoop_frame (hstored region List.mem_cons_self) (rest.length + (more + 1)) st s
          hrest (by omega) with
        ⟨ret, st', s', part, hloop, hneg, hbytes, hpart⟩ |
        ⟨st₁, s₁, hround, hrest₁, hsends₁, hsize₁, hbytes₁⟩
      · exact ⟨ret, st', s', part, hloop, hbytes, hpart.trans (List.prefix_append _ _), by omega⟩
      · obtain ⟨ret, st', s', part, hloop, hbytes, hlead, hall⟩ :=
          ih (fun r hr => hstored r (List.mem_cons_of_mem _ hr)) st₁ s₁ hrest₁ (by omega)
        rw [hsends₁] at hlead hall
        refine ⟨ret, st', s', requestBytes (slack st.sends) region ++ part, ?_, ?_, ?_, ?_⟩
        · rw [hround, hloop]
        · rw [hbytes, hbytes₁, List.append_assoc]
        · exact (List.prefix_append_right_inj _).mpr hlead
        · intro hret
          rw [hall hret]
          rfl

end Sending

section Receiving

variable {slack : Nat → BitVec 56} {regions : List Region} {input : List Byte}

/-- A store of bytes of the dump at the place they came from. -/
def Genuine (regions : List Region) : Action → Prop
  | .store addr data => ∃ region ∈ regions, addr = region.vmr.addr.toNat ∧ data <+: region.data
  | _ => False

def storeRegion (region : Region) : Action := .store region.vmr.addr.toNat region.data

theorem payloadSize_request {region : Region} (hfits : region.vmr.len.toNat ≤ maxVmRegionSize)
    (slack : BitVec 56) :
    payloadSize (VmRegionReq.mem region.vmr false slack).bytes = region.data.length := by
  rw [payloadSize, readSize, VmRegionReq.vmr_ofBytes, toInt32_of_le hfits,
    Int.toNat_natCast, region.length_eq]

theorem uploaded_request (region : Region) (slack : BitVec 56) (body : List Byte) :
    uploaded (VmRegionReq.mem region.vmr false slack).bytes body =
      stored region.vmr.addr.toNat body := by
  rw [uploaded, VmRegionReq.vmr_ofBytes]

/-- A beginning of the requests is cut into the first request, or a part of it, and a
beginning of the others. -/
theorem requests_of_prefix {region : Region} (hfits : region.vmr.len.toNat ≤ maxVmRegionSize)
    {slack : BitVec 56} {rest : List Byte} (hlong : vmRegionReqSize ≤ input.length)
    (hlead : input <+: requestBytes slack region ++ rest) :
    ∃ body behind, body <+: region.data ∧ behind <+: rest ∧
      actionsOf uploaded (records vmRegionReqSize payloadSize input) =
        stored region.vmr.addr.toNat body ++
          actionsOf uploaded (records vmRegionReqSize payloadSize behind) := by
  have hsize := VmRegionReq.bytes_length (VmRegionReq.mem region.vmr false slack)
  rw [requestBytes, List.append_assoc] at hlead
  obtain ⟨more, rfl⟩ := List.prefix_of_prefix_length_le (List.prefix_append _ _) hlead
    (hsize.trans_le hlong)
  have hmore : more <+: region.data ++ rest := (List.prefix_append_right_inj _).mp hlead
  have hbody := hmore.take region.data.length
  have hbehind := hmore.drop region.data.length
  rw [List.take_left] at hbody
  rw [List.drop_left] at hbehind
  refine ⟨more.take region.data.length, more.drop region.data.length, hbody, hbehind, ?_⟩
  rw [records_cons vmRegionReqSize_pos hlong, behindFirst,
    List.take_left' hsize, List.drop_left' hsize, payloadSize_request hfits, actionsOf,
    List.flatMap_cons, uploaded_request, actionsOf]

theorem genuine_of_prefix (hfits : ∀ region ∈ regions, region.vmr.len.toNat ≤ maxVmRegionSize)
    {k : Nat} (hlead : input <+: streamOf slack k regions) :
    ∀ action ∈ actionsOf uploaded (records vmRegionReqSize payloadSize input),
      Genuine regions action := by
  induction regions generalizing input k with
  | nil =>
      rw [List.prefix_nil.mp hlead]
      exact fun _ hmem => absurd hmem List.not_mem_nil
  | cons region rest ih =>
      intro action hmem
      by_cases hlong : vmRegionReqSize ≤ input.length
      · obtain ⟨body, behind, hbody, hbehind, heq⟩ :=
          requests_of_prefix (hfits region List.mem_cons_self) hlong hlead
        rw [heq] at hmem
        rcases List.mem_append.mp hmem with hfirst | hlater
        · rw [stored] at hfirst
          split at hfirst
          · cases hfirst
          · rw [List.mem_singleton.mp hfirst]
            exact ⟨region, List.mem_cons_self, rfl, hbody⟩
        · have hgenuine :=
            ih (fun r hr => hfits r (List.mem_cons_of_mem _ hr)) hbehind action hlater
          rcases action with _ | _ | ⟨addr, data⟩
          · exact hgenuine
          · exact hgenuine
          · obtain ⟨r, hr, haddr, hdata⟩ := hgenuine
            exact ⟨r, List.mem_cons_of_mem _ hr, haddr, hdata⟩
      · rw [records_of_short (Nat.lt_of_not_le hlong)] at hmem
        cases hmem

theorem actions_of_stream (hstored : ∀ region ∈ regions,
      0 < region.vmr.len.toNat ∧ region.vmr.len.toNat ≤ maxVmRegionSize) (k : Nat) :
    actionsOf uploaded (records vmRegionReqSize payloadSize (streamOf slack k regions)) =
      regions.map storeRegion := by
  induction regions generalizing k with
  | nil => rfl
  | cons region rest ih =>
      obtain ⟨hpos, hfits⟩ := hstored region List.mem_cons_self
      have hne : region.data ≠ [] := List.ne_nil_of_length_pos (region.length_eq ▸ hpos)
      have hsize := VmRegionReq.bytes_length (VmRegionReq.mem region.vmr false (slack k))
      have hlong : vmRegionReqSize ≤ (streamOf slack k (region :: rest)).length := by
        simp only [streamOf, requestBytes, List.length_append, hsize]
        omega
      rw [records_cons vmRegionReqSize_pos hlong, behindFirst, streamOf,
        requestBytes, List.append_assoc, List.take_left' hsize, List.drop_left' hsize,
        payloadSize_request hfits, List.take_left, List.drop_left, actionsOf, List.flatMap_cons,
        uploaded_request, stored, if_neg hne]
      exact congrArg _ (ih (fun r hr => hstored r (List.mem_cons_of_mem _ hr)) (k + 2))

theorem genuine_of_begins {log whole : List Action} (h : Begins log whole)
    (hwhole : ∀ action ∈ whole, Genuine regions action) :
    ∀ action ∈ log, Genuine regions action := by
  induction h with
  | nil => exact fun _ hmem => absurd hmem List.not_mem_nil
  | cons action _ ih =>
      intro action' hmem
      rcases List.mem_cons.mp hmem with rfl | hmem
      · exact hwhole _ List.mem_cons_self
      · exact ih (fun a ha => hwhole a (List.mem_cons_of_mem _ ha)) action' hmem
  | cut hpart whole =>
      intro action hmem
      obtain ⟨region, hregion, haddr, hdata⟩ := hwhole _ List.mem_cons_self
      rw [List.mem_singleton.mp hmem]
      exact ⟨region, hregion, haddr, hpart.trans hdata⟩

variable {mem mem₀ : Memory}

theorem act_genuine (horiginal : ∀ region ∈ regions, region = regionAt mem₀ region.vmr)
    {action : Action} (h : Genuine regions action) (mem : Memory) (a : Nat) :
    act mem action a = mem a ∨ act mem action a = mem₀ a := by
  rcases action with _ | _ | ⟨addr, data⟩
  · exact Or.inl rfl
  · exact Or.inl rfl
  · obtain ⟨region, hregion, rfl, hdata⟩ := h
    have hslice : region.data = slice mem₀ region.vmr.addr.toNat region.vmr.len.toNat :=
      congrArg Region.data (horiginal region hregion)
    by_cases hwithin : Within region.vmr.addr.toNat data.length a
    · have hle : data.length ≤ region.vmr.len.toNat := region.length_eq ▸ hdata.length_le
      obtain ⟨more, hmore⟩ := hdata
      rw [hslice] at hmore
      right
      rw [act, store_of_within hwithin, ← List.getD_append _ more _ _ (by grind [Within]), hmore]
      exact slice_getD ⟨hwithin.1, by grind [Within]⟩
    · exact Or.inl (store_of_not_within hwithin)

theorem land_genuine (horiginal : ∀ region ∈ regions, region = regionAt mem₀ region.vmr)
    {log : List Action} (hlog : ∀ action ∈ log, Genuine regions action) (mem : Memory) (a : Nat) :
    land mem log a = mem a ∨ land mem log a = mem₀ a := by
  induction log generalizing mem with
  | nil => exact Or.inl rfl
  | cons action rest ih =>
      have hfirst := act_genuine horiginal (hlog action List.mem_cons_self) mem a
      rcases ih (fun x hx => hlog x (List.mem_cons_of_mem _ hx)) (act mem action) with h | h
      · rw [land, List.foldl_cons]
        rw [land] at h
        rw [h]
        exact hfirst
      · exact Or.inr h

theorem land_regions (mem : Memory) (regions : List Region) :
    land mem (regions.map storeRegion) = cmdSetPages mem regions := by
  rw [land, List.foldl_map]
  rfl

end Receiving

section Upload

variable {kernel : ParasiteCommands.Kernel} {stack : Memory} {input : List Byte}

theorem performed_setPages (stack : Memory) (input : List Byte) :
    performed stack input .cmdSetPages =
      actionsOf uploaded (records vmRegionReqSize payloadSize input) := by
  rw [performed, ParasiteCommands.Handler.carriedOut, setPages_stray, List.append_nil]
  rfl

theorem handleConnection_nil (kernel : ParasiteCommands.Kernel) (stack : Memory) :
    (handleConnection kernel stack ⟨[], 0⟩).log = [] := by
  rw [handleConnection, ParasiteCommands.sysRead]
  rcases kernel.received 0 with _ | n
  · rfl
  · simp [Logged.abort]

theorem handleConnection_genuine {slack : Nat → BitVec 56} {regions : List Region} {k : Nat}
    (hfits : ∀ region ∈ regions, region.vmr.len.toNat ≤ maxVmRegionSize)
    (hlead : input <+: streamOf slack k regions) (kernel : ParasiteCommands.Kernel)
    (stack : Memory) :
    ∀ action ∈ (handleConnection kernel stack ⟨MemcrCmd.cmdSetPages.byte :: input, 0⟩).log,
      Genuine regions action := by
  have hgenuine := genuine_of_prefix hfits hlead
  rw [← performed_setPages stack] at hgenuine
  have hends := ParasiteCommands.handleConnection_carriesOut kernel stack input .cmdSetPages
  generalize handleConnection kernel stack ⟨MemcrCmd.cmdSetPages.byte :: input, 0⟩ = run at hends
  rcases hends with hlog | ⟨-, hbegins⟩
  · rw [hlog]
    exact hgenuine
  · exact genuine_of_begins hbegins hgenuine

theorem handleConnection_stream (slack : Nat → BitVec 56) {regions : List Region}
    (hstored : ∀ region ∈ regions,
      0 < region.vmr.len.toNat ∧ region.vmr.len.toNat ≤ maxVmRegionSize) (k : Nat)
    (hkernel : kernel.Succeeds) (stack : Memory) :
    (handleConnection kernel stack
      ⟨MemcrCmd.cmdSetPages.byte :: streamOf slack k regions, 0⟩).log =
        regions.map storeRegion := by
  obtain ⟨value, heq⟩ := (ParasiteCommands.handleConnection_carriesOut kernel stack
    (streamOf slack k regions) .cmdSetPages).eq_returns hkernel
  rw [heq, performed_setPages, actions_of_stream hstored]

theorem targetSetPages_sends {cfg : Config} {env : RestoreEnv} {io : Nat → Option Nat}
    {slack : Nat → BitVec 56} {regions : List Region}
    (hstored : ∀ region ∈ regions, Stored cfg region) {file : List Byte} {dumpedVmSize : Nat}
    (hfile : file = regions.flatMap (Region.frame cfg))
    (hsize : dumpedVmSize = (regions.map fun r => r.vmr.len.toNat).sum) {ret : Int}
    {st : DumpRestore.Upload} {sent : List Byte}
    (h : targetSetPages cfg env io slack file dumpedVmSize = .returns (ret, st, sent)) :
    (ret ≠ 0 ∧ sent = []) ∨
      ∃ part, sent = MemcrCmd.cmdSetPages.byte :: part ∧ part <+: streamOf slack 0 regions ∧
        (ret = 0 → part = streamOf slack 0 regions) := by
  obtain ⟨more, hmore⟩ : ∃ more, file.length + 1 = regions.length + (more + 1) :=
    ⟨file.length - regions.length, by
      have hcount : regions.length ≤ file.length := hfile ▸ length_le_flatMap_frame cfg regions
      omega⟩
  obtain ⟨ret', st', s', part, hloop, hbytes, hlead, hall⟩ :
      ∃ ret' st' s' part, sendLoop cfg env io slack (file.length + 1)
        (Upload.start file dumpedVmSize) ⟨[], 0⟩ = .returns (ret', st', s') ∧ _ := by
    rw [hmore]
    exact sendLoop_frames hstored more (Upload.start file dumpedVmSize) ⟨[], 0⟩ hfile hsize.ge
  simp only [targetSetPages, hloop, Outcome.returns_andThen] at h
  split_ifs at h
  · cases h
    exact Or.inl ⟨by decide, rfl⟩
  · cases h
    exact Or.inl ⟨by decide, rfl⟩
  · cases h
    exact Or.inl ⟨by decide, rfl⟩
  · cases h
    exact Or.inr ⟨part, by rw [hbytes]; rfl, hlead, hall⟩

theorem targetSetPages_erases {cfg : Config} {env : RestoreEnv} {io : Nat → Option Nat}
    {slack : Nat → BitVec 56} (hsends : ∀ i, env.sendFails i = (io i).isSome) {file : List Byte}
    {dumpedVmSize : Nat} {ret : Int} {st : DumpRestore.Upload} {sent : List Byte}
    (h : targetSetPages cfg env io slack file dumpedVmSize = .returns (ret, st, sent)) :
    DumpRestore.targetSetPages cfg env file dumpedVmSize = .returns (ret, st) := by
  simp only [targetSetPages] at h
  simp only [DumpRestore.targetSetPages]
  split_ifs at h ⊢
  · cases h
    rfl
  · cases h
    rfl
  · cases h
    rfl
  · obtain ⟨⟨ret', st', s'⟩, hloop, hlast⟩ := Outcome.andThen_eq_returns.mp h
    cases hlast
    rw [← sendLoop_erases slack hsends (file.length + 1)
      (Upload.start file dumpedVmSize) ⟨[], 0⟩ rfl, hloop]
    rfl

end Upload

/-- The upload of a dump that a checkpoint has written. However the connection breaks and
whatever becomes of the parasite, every byte of the target is as it was before the upload
or as it was before the checkpoint; if both ends succeed, all are as before the
checkpoint. The regions are those of the upload that counts no bytes. -/
theorem upload_lands_genuinely (cfg : Config) (hdvd : cfg.pageSize ∣ maxVmRegionSize)
    (vmas : List (VmArea cfg.pageSize)) (hapart : vmas.Pairwise Apart) (env : CheckpointEnv)
    (hreads : ∀ page, env.pagemapReads page = true) (mem₀ : Memory) (d : Download)
    (hget : getTargetPages cfg env vmas mem₀ = .returns (0, d)) (restoreEnv : RestoreEnv)
    (io : Nat → Option Nat) (slack : Nat → BitVec 56) (ret : Int) (st : DumpRestore.Upload)
    (sent : List Byte)
    (hsend : targetSetPages cfg restoreEnv io slack d.writer.file d.writer.dumpedVmSize =
      .returns (ret, st, sent))
    (kernel : ParasiteCommands.Kernel) (stack : Memory) :
    let dropped := memoryAfter cfg.pageSize env.table d
    let landed := land dropped (handleConnection kernel stack ⟨sent, 0⟩).log
    (∀ a, landed a = dropped a ∨ landed a = mem₀ a) ∧
      (ret = 0 → kernel.Succeeds → landed = mem₀) ∧
      ((∀ i, restoreEnv.sendFails i = (io i).isSome) →
        DumpRestore.targetSetPages cfg restoreEnv d.writer.file d.writer.dumpedVmSize =
          .returns (ret, st)) := by
  intro dropped landed
  obtain ⟨regions, h⟩ := consistent_of_getTargetPages hreads hdvd hapart hget
  have hfits : ∀ region ∈ regions, region.vmr.len.toNat ≤ maxVmRegionSize :=
    fun region hregion => (h.stored region hregion).len_le
  rcases targetSetPages_sends h.stored h.file h.size hsend with
    ⟨hret, rfl⟩ | ⟨part, rfl, hlead, hall⟩
  · have hnothing : landed = dropped := by
      rw [show landed = land dropped _ from rfl, handleConnection_nil]
      rfl
    exact ⟨fun a => Or.inl (congrFun hnothing a), fun hzero => absurd hzero hret,
      fun hsends => targetSetPages_erases hsends hsend⟩
  · refine ⟨fun a => ?_, fun hzero hkernel => ?_, fun hsends => targetSetPages_erases hsends hsend⟩
    · exact land_genuine h.original (handleConnection_genuine hfits hlead kernel stack) dropped a
    · have hlog := handleConnection_stream slack (fun region hregion =>
        ⟨(h.stored region hregion).len_pos, hfits region hregion⟩) 0 hkernel stack
      rw [← hall hzero] at hlog
      rw [show landed = land dropped _ from rfl, hlog, land_regions]
      exact cmdSetPages_eq h.original (h.carryOut d.outstanding.length).mem

theorem upload_lands_tiny :
    ∃ d st sent, getTargetPages tinyConfig tinyEnv [tinyArea] UInt8.ofNat = .returns (0, d) ∧
      targetSetPages tinyConfig quietEnv (fun _ => none) (fun _ => 0) d.writer.file
        d.writer.dumpedVmSize = .returns (0, st, sent) ∧
      land (memoryAfter 4 tinyEnv.table d)
        (handleConnection obliging (fun _ => 0) ⟨sent, 0⟩).log = UInt8.ofNat := by
  refine ⟨_, _, _, rfl, rfl, ?_⟩
  exact (upload_lands_genuinely tinyConfig (by decide) [tinyArea] (List.pairwise_singleton _ _)
    tinyEnv (fun _ => rfl) UInt8.ofNat _ rfl quietEnv (fun _ => none) (fun _ => 0) 0 _ _ rfl
    obliging (fun _ => 0)).2.1 rfl obliging_succeeds

end Memcr.UploadStream
