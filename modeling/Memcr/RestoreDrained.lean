import Memcr.RestoreWrites

namespace Memcr.RestoreDrained

open Memcr.ByteWords
open Memcr.ByteMemory
open Memcr.DumpFormat
open Memcr.FrameStreams
open Memcr.GuardedRuns
open Memcr.RegionRequests
open Memcr.RestoreConnections
open Memcr.RestoreWrites

/-- Where the parasite is on a connection when it has read the given bytes and
done the given things. -/
inductive Serving (job : Job) : ParasitePhase → List Byte → List Effect → Prop
  | command : Serving job .command [] []
  | header {done : List Item} {buf : List Byte} (hcmd : job.cmd ≠ .cmdEnd)
      (hdone : done <+: job.items) (hbuf : buf.length < headerSize job.cmd) :
      Serving job (.header job.cmd buf) (itemStream job done ++ buf) (done.map Item.effect)
  | payload {done : List Item} {u : RegionUpload} {filled : List Byte}
      (hdone : done ++ [.upload u] <+: job.items) (hfilled : filled <+: u.region.data) :
      Serving job (.payload u.region.vmr filled) (itemStream job done ++ (u.req.bytes ++ filled))
        (done.map Item.effect)
  | protecting {done : List Item} {req : VmMprotect}
      (hdone : done ++ [.protect req] <+: job.items) :
      Serving job (.protecting req) (itemStream job (done ++ [.protect req])) (done.map Item.effect)
  | exited (hcmd : job.cmd = .cmdEnd) : Serving job .exited [job.cmd.byte] []

/-- What the parasite may still do when the connection has ended inside an
item. -/
inductive CutPhase (written : List Item) : ParasitePhase → List Effect → Prop
  | header {cmd : MemcrCmd} {cut : List Effect} (hcut : cut.length ≤ 1) :
      CutPhase written (.header cmd []) (written.map Item.effect ++ cut)
  | payload {vmr : VmRegion} : CutPhase written (.payload vmr []) (written.map Item.effect)
  | protecting {req : VmMprotect} : CutPhase written (.protecting req) (written.map Item.effect)

/-- The parasite is at a connection that ends inside an item. -/
structure Cut (job : Job) (c : Conn) (p : ParasiteSide) : Prop where
  cmd : job.cmd ≠ .cmdEnd
  closed : c.closed = true
  all : p.got = c.sent
  broken : c.sent ≠ itemStream job c.written
  phase : CutPhase c.written p.phase p.here

/-- A connection that the parasite is done with: what was written whole has been
applied in order, and at most one more thing when the connection broke off
inside an item. -/
def Drained (c : Conn) (effects : List Effect) : Prop :=
  ∃ job cut, c.job = some job ∧ job.cmd ≠ .cmdEnd ∧ c.closed = true ∧
    effects = c.written.map Item.effect ++ cut ∧ cut.length ≤ 1 ∧
    (c.sent = itemStream job c.written → cut = [])

/-- The memory while a region is being read into it. -/
def midway (phase : ParasitePhase) (mem : Memory) : Memory :=
  match phase with
  | .payload vmr filled => store mem vmr.addr.toNat filled
  | _ => mem

/-- A parasite that lives has applied what it has read: whole connections, and the
connection it is at up to the current item. -/
structure Live (mem₀ : Memory) (s : State) : Prop where
  mem : s.parasite.mem = midway s.parasite.phase (s.parasite.applied.foldl applyEffect mem₀)
  place : (s.parasite.phase = .accepting ∧ s.parasite.here = []) ∨
    s.parasite.past.length < s.opened ∧ ∃ job, s.current.job = some job ∧
      s.parasite.got <+: s.current.sent ∧
      (Serving job s.parasite.phase s.parasite.got s.parasite.here ∨
        Cut job s.current s.parasite)

/-- Connections are taken in the order they are made and read to their end. -/
structure Reader (mem₀ : Memory) (s : State) : Prop where
  past : ∀ i effects, s.parasite.past[i]? = some effects →
    i < s.opened ∧ Drained (s.conns i) effects
  live : s.parasite.phase ≠ .dead → Live mem₀ s

section Items

theorem cmd_of_next {job : Job} {done : List Item} {item : Item}
    (hdone : done ++ [item] <+: job.items) : item.cmd = job.cmd :=
  job.uniform item (hdone.subset (by simp))

theorem readSize_eq (u : RegionUpload) :
    readSize u.region.vmr = u.region.data.length := by
  have hfits := u.fits
  have hsmall : u.region.vmr.len.toNat < 2 ^ 31 := by
    simp only [maxVmRegionSize] at hfits
    omega
  rw [readSize, toInt32_of_lt hsmall, u.region.length_eq]
  rfl

theorem next_header {job : Job} {done : List Item} {buf : List Byte} (hdone : done <+: job.items)
    (hstream : itemStream job done ++ buf <+: itemStream job job.items)
    (hbuf : buf.length = headerSize job.cmd) :
    ∃ item, done ++ [item] <+: job.items ∧ buf = item.header := by
  obtain ⟨rest, hrest⟩ := hdone
  have hbegins : buf <+: rest.flatMap Item.bytes := by
    rw [← hrest] at hstream
    simpa [itemStream, commandStream, List.prefix_append_right_inj] using hstream
  cases rest with
  | nil =>
      obtain rfl : buf = [] := by simpa using hbegins
      exact absurd hbuf (headerSize_pos job.cmd).ne
  | cons item rest =>
      have hnext : done ++ [item] <+: job.items := ⟨rest, by simpa using hrest⟩
      have hheader : item.header <+: (item :: rest).flatMap Item.bytes := by
        rw [List.flatMap_cons, Item.bytes, List.append_assoc]
        exact List.prefix_append _ _
      have hlength : buf.length = item.header.length := by
        rw [hbuf, header_length, cmd_of_next hnext]
      exact ⟨item, hnext,
        (List.prefix_of_prefix_length_le hbegins hheader hlength.le).eq_of_length hlength⟩

theorem payload_begins {job : Job} {done : List Item} {u : RegionUpload} {filled : List Byte}
    (hdone : done ++ [.upload u] <+: job.items)
    (hstream : itemStream job done ++ (u.req.bytes ++ filled) <+: itemStream job job.items)
    (hfit : filled.length ≤ u.region.data.length) : filled <+: u.region.data := by
  obtain ⟨rest, hrest⟩ := hdone
  have hbegins : filled <+: u.region.data ++ rest.flatMap Item.bytes := by
    rw [← hrest] at hstream
    simpa [itemStream, commandStream, Item.bytes, Item.header, Item.payload,
      List.prefix_append_right_inj] using hstream
  exact List.prefix_of_prefix_length_le hbegins (List.prefix_append _ _) hfit

theorem written_of_sent {job : Job} {c : Conn} {done : List Item} {part : List Byte}
    (hsent : Sent job c.sent c.written) (hdone : done <+: job.items)
    (hall : itemStream job done ++ part = c.sent)
    (hshort : ∀ item, done ++ [item] <+: job.items → part.length < item.bytes.length) :
    done = c.written ∧ (part = [] ↔ c.sent = itemStream job c.written) := by
  obtain ⟨sent, closed, job', written⟩ := c
  dsimp only at hsent hall ⊢
  cases hsent with
  | nothing => simp [itemStream, commandStream] at hall
  | part hwritten hbegins hless =>
      rename_i more
      have hsame : done.flatMap Item.bytes ++ part = written.flatMap Item.bytes ++ more := by
        simpa [itemStream, commandStream] using hall
      obtain ⟨rfl, rfl⟩ := cut_unique hdone hwritten hsame hshort hless
      simp

end Items

section Reads

variable {stack : Nat → List Byte} {job : Job} {p p' : ParasiteSide} {piece : List Byte}

/-- A `sys_read` that gets something leads on through the connection. Nothing is
recorded, and only the region being read changes the memory. -/
structure Advances (job : Job) (p p' : ParasiteSide) (piece : List Byte) : Prop where
  past : p'.past = p.past
  here : p'.here = p.here
  got : p'.got = p.got ++ piece
  serving : Serving job p'.phase (p.got ++ piece) p.here
  mem : ∀ base, p.mem = midway p.phase base → p'.mem = midway p'.phase base

theorem advances_command {b : Byte} (hphase : p.phase = .command)
    (h : Serving job .command p.got p.here)
    (hstream : p.got ++ [b] <+: itemStream job job.items)
    (hstep : handleConnection stack { p with got := p.got ++ [b] } b = some p') :
    Advances job p p' [b] := by
  obtain ⟨phase, got, req, past, here, mem⟩ := p
  dsimp only at hphase h hstream hstep ⊢
  subst hphase
  cases h with
  | command =>
      obtain rfl : b = job.cmd.byte := (List.cons_prefix_cons.mp hstream).1
      rw [handleConnection, MemcrCmd.ofByte?_byte] at hstep
      have hheader (hcmd : job.cmd ≠ .cmdEnd) :
          Serving job (.header job.cmd []) (itemStream job [] ++ []) (List.map Item.effect []) := by
        exact Serving.header hcmd List.nil_prefix (headerSize_pos job.cmd)
      cases hcmd : job.cmd with
      | cmdMprotect =>
          rw [hcmd] at hstep hheader
          obtain rfl := Option.some.inj hstep
          refine ⟨rfl, rfl, rfl, ?_, fun _ h => h⟩
          simpa [itemStream, commandStream, hcmd] using hheader (by simp)
      | cmdSetPages =>
          rw [hcmd] at hstep hheader
          obtain rfl := Option.some.inj hstep
          refine ⟨rfl, rfl, rfl, ?_, fun _ h => h⟩
          simpa [itemStream, commandStream, hcmd] using hheader (by simp)
      | cmdEnd =>
          rw [hcmd] at hstep
          obtain rfl := Option.some.inj hstep
          have hexited : Serving job .exited [job.cmd.byte] [] := Serving.exited hcmd
          exact ⟨rfl, rfl, rfl, by simpa [hcmd] using hexited, fun _ h => h⟩
      | cmdGetPages =>
          rw [hcmd] at hstep
          cases hstep

theorem advances_header {cmd : MemcrCmd} {buf : List Byte} (hphase : p.phase = .header cmd buf)
    (h : Serving job p.phase p.got p.here) (hstream : p.got ++ piece <+: itemStream job job.items)
    (hfit : buf.length + piece.length ≤ headerSize cmd) :
    Advances job p (ParasiteSide.headerOn { p with got := p.got ++ piece } cmd (buf ++ piece))
      piece := by
  obtain ⟨phase, got, req, past, here, mem⟩ := p
  dsimp only at hphase h hstream ⊢
  subst hphase
  cases h with
  | header hcmd hdone hbuf =>
      rename_i done
      rw [List.append_assoc] at hstream
      rw [ParasiteSide.headerOn]
      split
      · rename_i hmore
        refine ⟨rfl, rfl, rfl, ?_, fun _ h => h⟩
        rw [List.append_assoc]
        exact Serving.header hcmd hdone hmore
      · rename_i hwhole
        have hlength : (buf ++ piece).length = headerSize job.cmd := by
          rw [List.length_append] at hwhole ⊢
          omega
        obtain ⟨item, hnext, hheader⟩ := next_header hdone hstream hlength
        have hkind := cmd_of_next hnext
        cases item with
        | upload u =>
            have hset : job.cmd = .cmdSetPages := hkind.symm
            have hbytes : buf ++ piece = u.req.bytes := hheader
            have hvmr : VmRegion.ofBytes u.req.bytes = u.region.vmr :=
              VmRegionReq.vmr_ofBytes _ _ _
            have hserving : Serving job (.payload u.region.vmr [])
                (itemStream job done ++ (u.req.bytes ++ [])) (done.map Item.effect) :=
              Serving.payload hnext List.nil_prefix
            refine ⟨rfl, rfl, rfl, ?_, ?_⟩
            · rw [List.append_assoc, hbytes]
              simpa [ParasiteSide.takeRequest, hset, hvmr] using hserving
            · intro base hmem
              simpa [ParasiteSide.takeRequest, hset, midway, store_nil] using hmem
        | protect req' =>
            have hprot : job.cmd = .cmdMprotect := hkind.symm
            have hbytes : buf ++ piece = req'.bytes := hheader
            have hserving : Serving job (.protecting req')
                (itemStream job (done ++ [.protect req'])) (done.map Item.effect) :=
              Serving.protecting hnext
            refine ⟨rfl, rfl, rfl, ?_, ?_⟩
            · rw [List.append_assoc, hbytes]
              rw [itemStream_snoc] at hserving
              simpa [ParasiteSide.takeRequest, hprot, VmMprotect.ofBytes_bytes, Item.bytes,
                Item.header, Item.payload] using hserving
            · intro base hmem
              simpa [ParasiteSide.takeRequest, hprot, midway] using hmem

theorem advances_payload {vmr : VmRegion} {filled : List Byte}
    (hphase : p.phase = .payload vmr filled)
    (h : Serving job p.phase p.got p.here) (hstream : p.got ++ piece <+: itemStream job job.items)
    (hfit : filled.length + piece.length ≤ readSize vmr) :
    Advances job p
      { p with
        got := p.got ++ piece
        phase := .payload vmr (filled ++ piece)
        mem := store p.mem (vmr.addr.toNat + filled.length) piece } piece := by
  obtain ⟨phase, got, req, past, here, mem⟩ := p
  dsimp only at hphase h hstream ⊢
  subst hphase
  cases h with
  | payload hdone hfilled =>
      rename_i done u
      rw [List.append_assoc, List.append_assoc] at hstream
      refine ⟨rfl, rfl, rfl, ?_, ?_⟩
      · rw [List.append_assoc, List.append_assoc]
        refine Serving.payload hdone (payload_begins hdone hstream ?_)
        rw [← readSize_eq, List.length_append]
        exact hfit
      · intro base hmem
        dsimp only [midway] at hmem ⊢
        rw [hmem, store_store]

theorem advances_readPiece (h : Serving job p.phase p.got p.here)
    (hstream : p.got ++ piece <+: itemStream job job.items)
    (hstep : readPiece stack { p with got := p.got ++ piece } piece = some p') :
    Advances job p p' piece := by
  unfold readPiece at hstep
  split at hstep
  · rename_i hphase
    split at hstep
    · rename_i b
      have hphase' : p.phase = .command := hphase
      rw [hphase'] at h
      exact advances_command hphase' h hstream hstep
    · cases hstep
  · rename_i cmd buf hphase
    split at hstep
    · rename_i hfit
      obtain rfl := Option.some.inj hstep
      exact advances_header hphase h hstream hfit
    · cases hstep
  · rename_i vmr filled hphase
    split at hstep
    · rename_i hfit
      obtain rfl := Option.some.inj hstep
      exact advances_payload hphase h hstream hfit
    · cases hstep
  · cases hstep

end Reads

section Ends

variable {job : Job} {c : Conn} {p : ParasiteSide} {cmd : MemcrCmd} {mem₀ : Memory}

theorem drained_of_header (hjob : c.job = some job) (hsent : Sent job c.sent c.written)
    (hclosed : c.closed = true) (hall : p.got = c.sent) (hphase : p.phase = .header cmd [])
    (h : Serving job p.phase p.got p.here ∨ Cut job c p) : Drained c p.here := by
  obtain ⟨phase, got, req, past, here, mem⟩ := p
  dsimp only at hall hphase h ⊢
  subst hphase
  rcases h with h | h
  · cases h with
    | header hcmd hdone hbuf =>
        rename_i done
        obtain ⟨rfl, -⟩ := written_of_sent hsent hdone hall fun item _ =>
          bytes_pos item
        exact ⟨job, [], hjob, hcmd, hclosed, by simp, by simp, fun _ => rfl⟩
  · obtain ⟨hcmd, -, -, hbroken, hphase⟩ := h
    dsimp only at hphase
    cases hphase with
    | header hcut =>
        exact ⟨job, _, hjob, hcmd, hclosed, rfl, hcut, fun hsame => absurd hsame hbroken⟩

theorem cut_of_header {buf req : List Byte} (hsent : Sent job c.sent c.written)
    (hclosed : c.closed = true) (hall : p.got = c.sent) (hphase : p.phase = .header cmd buf)
    (hbuf : buf ≠ []) (h : Serving job p.phase p.got p.here ∨ Cut job c p) :
    Cut job c (p.takeRequest cmd req) := by
  obtain ⟨phase, got, req', past, here, mem⟩ := p
  dsimp only at hall hphase h ⊢
  subst hphase
  rcases h with h | h
  · cases h with
    | header hcmd hdone hlength =>
        rename_i done
        obtain ⟨rfl, hpart⟩ := written_of_sent hsent hdone hall fun item hnext =>
          lt_of_lt_of_le (by rwa [cmd_of_next hnext]) (header_le_bytes item)
        refine ⟨hcmd, hclosed, hall, fun hsame => hbuf (hpart.mpr hsame), ?_⟩
        dsimp only [ParasiteSide.takeRequest]
        split
        · exact CutPhase.protecting
        · exact CutPhase.payload
  · have hphase := h.phase
    dsimp only at hphase
    cases hphase with
    | header => exact absurd rfl hbuf

theorem Cut.record {effect : Effect} (h : Cut job c p)
    (hphase : (∃ vmr filled, p.phase = .payload vmr filled) ∨ ∃ req, p.phase = .protecting req) :
    Cut job c (p.record cmd effect) := by
  obtain ⟨hcmd, hclosed, hall, hbroken, hcut⟩ := h
  have hhere : p.here = c.written.map Item.effect := by
    rcases hphase with ⟨vmr, filled, hphase⟩ | ⟨req, hphase⟩
    · rw [hphase] at hcut
      generalize p.here = here at hcut
      cases hcut with
      | payload => rfl
    · rw [hphase] at hcut
      generalize p.here = here at hcut
      cases hcut with
      | protecting => rfl
  refine ⟨hcmd, hclosed, hall, hbroken, ?_⟩
  dsimp only [ParasiteSide.record]
  rw [hhere]
  exact CutPhase.header (by simp)

theorem cut_of_payload {vmr : VmRegion} {filled : List Byte} {effect : Effect}
    (hsent : Sent job c.sent c.written) (hclosed : c.closed = true) (hall : p.got = c.sent)
    (hphase : p.phase = .payload vmr filled) (hmore : filled.length < readSize vmr)
    (h : Serving job p.phase p.got p.here ∨ Cut job c p) :
    Cut job c (p.record cmd effect) := by
  rcases h with h | h
  · obtain ⟨phase, got, req, past, here, mem⟩ := p
    dsimp only at hall hphase h ⊢
    subst hphase
    cases h with
    | payload hdone hfilled =>
        rename_i done u
        rw [readSize_eq] at hmore
        have hcmd := cmd_of_next hdone
        obtain ⟨rest, hrest⟩ := hdone
        have hitems : job.items = done ++ .upload u :: rest := by simpa using hrest.symm
        obtain ⟨rfl, hpart⟩ := written_of_sent hsent ⟨_, hitems.symm⟩ hall fun item hnext => by
          obtain rfl := Writer.next_item_unique hitems hnext
          simpa [Item.bytes, Item.header, Item.payload] using hmore
        refine ⟨?_, hclosed, hall, fun hsame => ?_, ?_⟩
        · rw [← hcmd]
          exact cmd_ne_cmdEnd _
        · have hempty := congrArg List.length (hpart.mpr hsame)
          simp [vmRegionReqSize] at hempty
        · exact CutPhase.header (by simp)
  · exact h.record (Or.inl ⟨vmr, filled, hphase⟩)

theorem serving_record {item : Item} {done : List Item} (hdone : done ++ [item] <+: job.items) :
    Serving job (.header item.cmd []) (itemStream job (done ++ [item]))
      (done.map Item.effect ++ [item.effect]) := by
  have hcmd := cmd_of_next hdone
  have hheader : Serving job (.header job.cmd []) (itemStream job (done ++ [item]) ++ [])
      ((done ++ [item]).map Item.effect) := by
    refine Serving.header ?_ hdone ?_
    · rw [← hcmd]
      exact cmd_ne_cmdEnd item
    · exact headerSize_pos job.cmd
  rw [hcmd]
  simpa using hheader

theorem serving_upload {vmr : VmRegion} {filled : List Byte}
    (hphase : p.phase = .payload vmr filled) (hwhole : readSize vmr ≤ filled.length)
    (h : Serving job p.phase p.got p.here) :
    Serving job (.header .cmdSetPages []) p.got
      (p.here ++ [.upload vmr.addr.toNat filled]) := by
  rw [hphase] at h
  generalize p.got = got at h
  generalize p.here = here at h
  cases h with
  | payload hdone hfilled =>
      rename_i done u
      rw [readSize_eq] at hwhole
      obtain rfl := hfilled.eq_of_length_le hwhole
      have hnext := serving_record hdone
      rw [itemStream_snoc] at hnext
      exact hnext

theorem serving_protect {req : VmMprotect} (hphase : p.phase = .protecting req)
    (h : Serving job p.phase p.got p.here) :
    Serving job (.header .cmdMprotect []) p.got (p.here ++ [.protect req]) := by
  rw [hphase] at h
  generalize p.got = got at h
  generalize p.here = here at h
  cases h with
  | protecting hdone => exact serving_record hdone

theorem mem_record {effect : Effect}
    (hmem : p.mem = applyEffect (p.applied.foldl applyEffect mem₀) effect) :
    (p.record cmd effect).mem = midway (p.record cmd effect).phase
      ((p.record cmd effect).applied.foldl applyEffect mem₀) := by
  have happlied : (p.record cmd effect).applied = p.applied ++ [effect] := by
    simp [ParasiteSide.record, ParasiteSide.applied]
  rw [happlied, List.foldl_append]
  exact hmem

end Ends

namespace Reader

variable {r : Restore} {stack : Nat → List Byte} {mem₀ : Memory} {s t : State}

theorem start : Reader mem₀ (State.start r mem₀) where
  past i effects h := by simp [State.start] at h
  live _ := ⟨rfl, Or.inl ⟨rfl, rfl⟩⟩

theorem grows (h : Reader mem₀ s) (hgrows : Grows s t) : Reader mem₀ t := by
  refine ⟨?_, ?_⟩
  · intro i effects hi
    rw [hgrows.parasite] at hi
    obtain ⟨hlt, hdrained⟩ := h.past i effects hi
    obtain ⟨-, -, -, -, hclosed, -⟩ := hdrained
    rw [hgrows.closed i hlt hclosed]
    exact ⟨hlt.trans_le hgrows.opened, (h.past i effects hi).2⟩
  · intro hphase
    rw [hgrows.parasite] at hphase
    obtain ⟨hmem, hplace⟩ := h.live hphase
    refine ⟨by rw [hgrows.parasite]; exact hmem, ?_⟩
    rw [State.current, hgrows.parasite]
    rcases hplace with hidle | ⟨hlt, job, hjob, hgot, hserving⟩
    · exact Or.inl hidle
    · refine Or.inr ⟨hlt.trans_le hgrows.opened, job, (hgrows.job _ hlt).trans hjob,
        hgot.trans (hgrows.sent _ hlt), ?_⟩
      rcases hserving with hserving | hcut
      · exact Or.inl hserving
      · rw [hgrows.closed _ hlt hcut.closed]
        exact Or.inr hcut

theorem not_ends_of_past {i : Nat} {effects : List Effect} (h : Reader mem₀ s)
    (hi : s.parasite.past[i]? = some effects) : ¬ Ends (s.conns i) := by
  rintro ⟨job, hjob, hcmd⟩
  obtain ⟨job', -, hjob', hne, -⟩ := (h.past i effects hi).2
  rw [hjob] at hjob'
  exact hne (Option.some.inj hjob' ▸ hcmd)

theorem next_job (h : Reader mem₀ s) (hwriter : Writer r s)
    (hnext : s.parasite.past.length < s.opened) : ∃ job, s.current.job = some job := by
  cases hjob : s.current.job with
  | some job => exact ⟨job, rfl⟩
  | none =>
      obtain ⟨e, he, hends⟩ := hwriter.strangers _ hnext hjob
      exact absurd hends (h.not_ends_of_past (List.getElem?_eq_getElem he))

theorem accept (h : Reader mem₀ s) (hwriter : Writer r s)
    (hstep : RestoreConnections.accept s = some t) : Reader mem₀ t := by
  unfold RestoreConnections.accept at hstep
  split at hstep
  · rename_i hphase
    split at hstep
    · rename_i hnext
      obtain ⟨job, hjob⟩ := h.next_job hwriter hnext
      obtain ⟨hmem, hplace⟩ := h.live (by simp [hphase])
      have hhere : s.parasite.here = [] := by
        rcases hplace with hidle | ⟨-, job', -, -, hserving | hcut⟩
        · exact hidle.2
        · rw [hphase] at hserving
          cases hserving
        · have hcutPhase := hcut.phase
          rw [hphase] at hcutPhase
          cases hcutPhase
      obtain rfl := Option.some.inj hstep
      refine ⟨h.past, fun _ => ⟨?_, Or.inr ⟨hnext, job, hjob, List.nil_prefix, Or.inl ?_⟩⟩⟩
      · rw [hphase] at hmem
        exact hmem
      · rw [hhere]
        exact Serving.command
    · cases hstep
  · cases hstep

theorem move {p : ParasiteSide} {job : Job} (h : Reader mem₀ s) (hpast : p.past = s.parasite.past)
    (hnext : s.parasite.past.length < s.opened) (hjob : s.current.job = some job)
    (hgot : p.got <+: s.current.sent)
    (hmem : p.mem = midway p.phase (p.applied.foldl applyEffect mem₀))
    (hplace : Serving job p.phase p.got p.here ∨ Cut job s.current p) :
    Reader mem₀ { s with parasite := p } := by
  refine ⟨?_, fun _ => ⟨hmem, Or.inr ?_⟩⟩
  · intro i effects hi
    rw [hpast] at hi
    exact h.past i effects hi
  · rw [State.current, hpast]
    exact ⟨hnext, job, hjob, hgot, hplace⟩

theorem read {n : Nat} (h : Reader mem₀ s) (hwriter : Writer r s)
    (hstep : RestoreConnections.read stack s n = some t) : Reader mem₀ t := by
  unfold RestoreConnections.read at hstep
  split at hstep
  · rename_i hguard
    obtain ⟨p, hp, rfl⟩ := Option.map_eq_some_iff.mp hstep
    have hlive : s.parasite.phase ≠ .dead := by
      intro hdead
      simp [readPiece, hdead] at hp
    obtain ⟨hmem, hidle | ⟨hnext, job, hjob, hgot, hserving | hcut⟩⟩ := h.live hlive
    · simp [readPiece, hidle.1] at hp
    · obtain ⟨unread, hunread⟩ := hgot
      have hrest : s.unread = unread := by
        rw [State.unread, ← hunread, List.drop_left]
      have hpiece : s.parasite.got ++ s.unread.take n <+: s.current.sent := by
        rw [← hunread, hrest, List.prefix_append_right_inj]
        exact List.take_prefix n unread
      have hsent := (hwriter.conns _ hnext job hjob).2
      have hadvances := advances_readPiece hserving (hpiece.trans hsent.sent_begins) hp
      refine h.move hadvances.past hnext hjob (hadvances.got ▸ hpiece) ?_ (Or.inl ?_)
      · apply hadvances.mem
        rw [ParasiteSide.applied, hadvances.past, hadvances.here]
        exact hmem
      · rw [hadvances.got, hadvances.here]
        exact hadvances.serving
    · -- nothing is left to be read
      have hnone : s.unread = [] := by rw [State.unread, hcut.all, List.drop_length]
      rw [hnone] at hguard
      simp at hguard
      omega
  · cases hstep

theorem finish (h : Reader mem₀ s) (hnext : s.parasite.past.length < s.opened)
    (hdrained : Drained s.current s.parasite.here)
    (hmem : s.parasite.mem = s.parasite.applied.foldl applyEffect mem₀) :
    Reader mem₀ { s with
      parasite := { s.parasite with
        phase := .accepting, past := s.parasite.past ++ [s.parasite.here], here := [] } } := by
  refine ⟨?_, fun _ => ⟨?_, Or.inl ⟨rfl, rfl⟩⟩⟩
  · intro i effects hi
    have hlength := (List.getElem?_eq_some_iff.mp hi).1
    rw [List.length_append, List.length_singleton] at hlength
    rcases Nat.lt_succ_iff_lt_or_eq.mp hlength with hlt | rfl
    · exact h.past i effects (by simpa [List.getElem?_append_left hlt] using hi)
    · obtain rfl : s.parasite.here = effects := by simpa using hi
      exact ⟨hnext, hdrained⟩
  · simpa [midway, ParasiteSide.applied] using hmem

theorem endOfFile (h : Reader mem₀ s) (hwriter : Writer r s)
    (hstep : RestoreConnections.endOfFile s = some t) : Reader mem₀ t := by
  unfold RestoreConnections.endOfFile at hstep
  split at hstep
  · rename_i hguard
    obtain ⟨hclosed, hunread⟩ := hguard
    obtain ⟨p, hp, rfl⟩ := Option.map_eq_some_iff.mp hstep
    have hlive : s.parasite.phase ≠ .dead := by
      intro hdead
      simp [atEnd, hdead] at hp
    obtain ⟨hmem, hidle | ⟨hnext, job, hjob, hgot, hplace⟩⟩ := h.live hlive
    · simp [atEnd, hidle.1] at hp
    · have hall : s.parasite.got = s.current.sent :=
        hgot.eq_of_length_le (List.drop_eq_nil_iff.mp hunread)
      have hsent := (hwriter.conns _ hnext job hjob).2
      unfold atEnd at hp
      split at hp
      · obtain rfl := Option.some.inj hp
        exact ⟨h.past, fun hdead => absurd rfl hdead⟩
      · rename_i cmd hphase
        have hdrained := drained_of_header hjob hsent hclosed hall hphase hplace
        obtain rfl := Option.some.inj hp
        rw [hphase] at hmem
        exact h.finish hnext hdrained hmem
      · rename_i cmd buf hbuf hphase
        have hcut : Cut job s.current
            (s.parasite.takeRequest cmd (buf ++ s.parasite.req.drop buf.length)) :=
          cut_of_header hsent hclosed hall hphase hbuf hplace
        obtain rfl := Option.some.inj hp
        refine h.move rfl hnext hjob hgot ?_ (Or.inr hcut)
        rw [hphase] at hmem
        dsimp only [ParasiteSide.takeRequest]
        split
        · exact hmem
        · simpa [midway, store_nil, ParasiteSide.applied] using hmem
      · rename_i vmr filled hphase
        split at hp
        · rename_i hmore
          obtain rfl := Option.some.inj hp
          have hcut : Cut job s.current
              (s.parasite.record .cmdSetPages (.upload vmr.addr.toNat filled)) :=
            cut_of_payload hsent hclosed hall hphase hmore hplace
          refine h.move rfl hnext hjob hgot (mem_record ?_) (Or.inr hcut)
          rw [hphase] at hmem
          exact hmem
        · cases hp
      · cases hp
  · cases hstep

theorem proceed (h : Reader mem₀ s) (hstep : RestoreConnections.proceed s = some t) :
    Reader mem₀ t := by
  have hlive : s.parasite.phase ≠ .dead := by
    intro hdead
    simp [RestoreConnections.proceed, hdead] at hstep
  obtain ⟨hmem, hidle | ⟨hnext, job, hjob, hgot, hplace⟩⟩ := h.live hlive
  · simp [RestoreConnections.proceed, hidle.1] at hstep
  · unfold RestoreConnections.proceed at hstep
    split at hstep
    · rename_i vmr filled hphase
      split at hstep
      · rename_i hwhole
        obtain rfl := Option.some.inj hstep
        rw [hphase] at hmem
        refine h.move rfl hnext hjob hgot (mem_record hmem) ?_
        rcases hplace with hserving | hcut
        · exact Or.inl (serving_upload hphase hwhole hserving)
        · exact Or.inr (hcut.record (Or.inl ⟨vmr, filled, hphase⟩))
      · cases hstep
    · rename_i req hphase
      obtain rfl := Option.some.inj hstep
      rw [hphase] at hmem
      refine h.move rfl hnext hjob hgot (mem_record hmem) ?_
      rcases hplace with hserving | hcut
      · exact Or.inl (serving_protect hphase hserving)
      · exact Or.inr (hcut.record (Or.inr ⟨req, hphase⟩))
    · cases hstep

theorem die (h : Reader mem₀ s) (hstep : RestoreConnections.die s = some t) : Reader mem₀ t := by
  unfold RestoreConnections.die at hstep
  split at hstep
  · cases hstep
  · obtain rfl := Option.some.inj hstep
    exact ⟨h.past, fun hdead => absurd rfl hdead⟩

end Reader

/-- The two sides together. -/
structure Ordered (r : Restore) (mem₀ : Memory) (s : State) : Prop where
  writer : Writer r s
  reader : Reader mem₀ s

namespace Ordered

variable {r : Restore} {stack : Nat → List Byte} {mem₀ : Memory} {s t : State}

theorem of_memcr (h : Ordered r mem₀ s) (hstep : Writer r t ∧ Grows s t) : Ordered r mem₀ t :=
  ⟨hstep.1, h.reader.grows hstep.2⟩

theorem of_parasite (h : Ordered r mem₀ s)
    (hsame : t.opened = s.opened ∧ t.conns = s.conns ∧ t.memcr = s.memcr)
    (hreader : Reader mem₀ t) : Ordered r mem₀ t :=
  ⟨h.writer.congr hsame.1 hsame.2.1 hsame.2.2, hreader⟩

theorem parasite_only {c : Choice} (hstep : step stack s c = some t)
    (hc : (∃ n, c = .read n) ∨ c = .accept ∨ c = .endOfFile ∨ c = .proceed ∨ c = .die) :
    t.opened = s.opened ∧ t.conns = s.conns ∧ t.memcr = s.memcr := by
  rcases hc with ⟨n, rfl⟩ | rfl | rfl | rfl | rfl
  · dsimp only [step, RestoreConnections.read] at hstep
    split at hstep
    · obtain ⟨p, -, rfl⟩ := Option.map_eq_some_iff.mp hstep
      exact ⟨rfl, rfl, rfl⟩
    · cases hstep
  · dsimp only [step, RestoreConnections.accept] at hstep
    repeat' split at hstep
    all_goals cases hstep
    exact ⟨rfl, rfl, rfl⟩
  · dsimp only [step, RestoreConnections.endOfFile] at hstep
    split at hstep
    · obtain ⟨p, -, rfl⟩ := Option.map_eq_some_iff.mp hstep
      exact ⟨rfl, rfl, rfl⟩
    · cases hstep
  · dsimp only [step, RestoreConnections.proceed] at hstep
    repeat' split at hstep
    all_goals cases hstep
    all_goals exact ⟨rfl, rfl, rfl⟩
  · dsimp only [step, RestoreConnections.die] at hstep
    repeat' split at hstep
    all_goals cases hstep
    all_goals exact ⟨rfl, rfl, rfl⟩

theorem step {c : Choice} (h : Ordered r mem₀ s)
    (hstep : RestoreConnections.step stack s c = some t) : Ordered r mem₀ t := by
  cases c with
  | connect => exact h.of_memcr (h.writer.connect hstep)
  | connectFails => exact h.of_memcr (h.writer.connectFails hstep)
  | checksumMismatch => exact h.of_memcr (h.writer.checksumMismatch hstep)
  | write n => exact h.of_memcr (h.writer.write hstep)
  | giveUp => exact h.of_memcr (h.writer.giveUp hstep)
  | close => exact h.of_memcr (h.writer.close hstep)
  | stranger bytes => exact h.of_memcr (h.writer.stranger hstep)
  | accept =>
      exact h.of_parasite (parasite_only hstep (by simp)) (h.reader.accept h.writer hstep)
  | read n =>
      exact h.of_parasite (parasite_only hstep (by simp)) (h.reader.read h.writer hstep)
  | endOfFile =>
      exact h.of_parasite (parasite_only hstep (by simp)) (h.reader.endOfFile h.writer hstep)
  | proceed =>
      exact h.of_parasite (parasite_only hstep (by simp)) (h.reader.proceed hstep)
  | die =>
      exact h.of_parasite (parasite_only hstep (by simp)) (h.reader.die hstep)

theorem run {choices : List Choice}
    (hrun : GuardedRuns.run (RestoreConnections.step stack) (State.start r mem₀) choices = some s) :
    Ordered r mem₀ s :=
  invariant_of_run (fun _ _ _ hinv hnext => hinv.step hnext)
    ⟨Writer.start mem₀, Reader.start⟩ hrun

theorem at_exit (h : Ordered r mem₀ s) (hexit : s.parasite.phase = .exited) :
    s.parasite.past.length < s.opened ∧ Ends s.current ∧ s.parasite.here = [] ∧
      s.parasite.mem = s.parasite.applied.foldl applyEffect mem₀ := by
  obtain ⟨hmem, hidle | ⟨hnext, job, hjob, -, hserving | hcut⟩⟩ := h.reader.live (by simp [hexit])
  · rw [hexit] at hidle
    cases hidle.1
  · rw [hexit] at hserving hmem
    generalize s.parasite.here = here at hserving
    generalize s.parasite.got = got at hserving
    cases hserving with
    | exited hcmd => exact ⟨hnext, ⟨job, hjob, hcmd⟩, rfl, hmem⟩
  · have hphase := hcut.phase
    rw [hexit] at hphase
    cases hphase

end Ordered

/-- What the connections before the one at `last` have come to: the restore has
made them, they are closed, and beyond what was written to them whole at most one
more thing is done for each, if it broke off inside an item. -/
def DrainedUpTo (r : Restore) (s : State) (last : Nat) (cut : Nat → List Effect) : Prop :=
  ∀ i < last, ∃ job ∈ r.jobs, (s.conns i).job = some job ∧ job.cmd ≠ .cmdEnd ∧
    (s.conns i).closed = true ∧ Sent job (s.conns i).sent (s.conns i).written ∧
    (cut i).length ≤ 1 ∧ ((s.conns i).sent = itemStream job (s.conns i).written → cut i = [])

theorem Ordered.drained {r : Restore} {mem₀ : Memory} {s : State} (h : Ordered r mem₀ s) :
    ∃ cut, DrainedUpTo r s s.parasite.past.length cut ∧
      s.parasite.past.flatten = (List.range s.parasite.past.length).flatMap fun i =>
        (s.conns i).written.map Item.effect ++ cut i := by
  have hconn (i : Nat) : ∃ cut, i < s.parasite.past.length → ∃ job ∈ r.jobs,
      (s.conns i).job = some job ∧ job.cmd ≠ .cmdEnd ∧ (s.conns i).closed = true ∧
        Sent job (s.conns i).sent (s.conns i).written ∧ cut.length ≤ 1 ∧
        ((s.conns i).sent = itemStream job (s.conns i).written → cut = []) ∧
        s.parasite.past[i]? = some ((s.conns i).written.map Item.effect ++ cut) := by
    by_cases hi : i < s.parasite.past.length
    · obtain ⟨hopened, job, cut, hjob, hcmd, hclosed, heffects, hlength, hwhole⟩ :=
        h.reader.past i _ (List.getElem?_eq_getElem hi)
      obtain ⟨hmem, hsent⟩ := h.writer.conns i hopened job hjob
      refine ⟨cut, fun _ => ⟨job, hmem, hjob, hcmd, hclosed, hsent, hlength, hwhole, ?_⟩⟩
      rw [List.getElem?_eq_getElem hi, heffects]
    · exact ⟨[], fun hlt => absurd hlt hi⟩
  choose cut hcut using hconn
  refine ⟨cut, ?_, ?_⟩
  · intro i hi
    obtain ⟨job, hmem, hjob, hcmd, hclosed, hsent, hlength, hwhole, -⟩ := hcut i hi
    exact ⟨job, hmem, hjob, hcmd, hclosed, hsent, hlength, hwhole⟩
  · have hpast : s.parasite.past = (List.range s.parasite.past.length).map fun i =>
        (s.conns i).written.map Item.effect ++ cut i := by
      apply List.ext_getElem?
      intro i
      by_cases hi : i < s.parasite.past.length
      · obtain ⟨-, -, -, -, -, -, -, -, hpast⟩ := hcut i hi
        rw [hpast]
        simp [hi]
      · rw [List.getElem?_eq_none (by omega), List.getElem?_eq_none (by simpa using hi)]
    rw [List.flatMap_def]
    exact congrArg List.flatten hpast

/-- Whenever the parasite has exited, every item written whole on a connection
before that of `CMD_END` has been applied, in the order of the connections and
within each in the order written, and nothing of a later connection has. -/
theorem exits_after_restore (r : Restore) (stack : Nat → List Byte) (mem₀ : Memory)
    (choices : List Choice) (s : State)
    (hrun : run (step stack) (State.start r mem₀) choices = some s)
    (hexit : s.parasite.phase = .exited) :
    ∃ last < s.opened, Ends (s.conns last) ∧ ∃ cut, DrainedUpTo r s last cut ∧
      s.parasite.applied =
        (List.range last).flatMap (fun i => (s.conns i).written.map Item.effect ++ cut i) ∧
      s.parasite.mem = s.parasite.applied.foldl applyEffect mem₀ := by
  have h : Ordered r mem₀ s := Ordered.run hrun
  obtain ⟨hnext, hends, hhere, hmem⟩ := h.at_exit hexit
  obtain ⟨cut, hdrained, hpast⟩ := h.drained
  refine ⟨s.parasite.past.length, hnext, hends, cut, hdrained, ?_, hmem⟩
  rw [ParasiteSide.applied, hhere, List.append_nil]
  exact hpast

def smallRestore : Restore where
  uploads := [{ region := { vmr := ⟨4, 4⟩, data := [1, 2, 3, 4], length_eq := rfl }
                slack := 0
                fits := by decide }]
  protections := [⟨4096, 4096, 1⟩]

/-- memcr is done with everything, and another upload waits behind `CMD_END`,
before the parasite accepts the first connection. -/
def allQueued : List Choice :=
  [.connect, .write 1, .write 28, .write 4, .close, .connect, .write 1, .write 24, .close,
    .connect, .write 1, .close, .stranger [3],
    .accept, .read 1, .read 20, .read 8, .read 3, .read 1, .proceed, .endOfFile,
    .accept, .read 1, .read 24, .proceed, .endOfFile, .accept, .read 1]

theorem exits_after_restore_allQueued :
    ∃ s, run (step fun _ => []) (State.start smallRestore fun _ => 0) allQueued = some s ∧
      s.parasite.phase = .exited ∧ s.parasite.applied.length = 2 ∧
      ∃ last < s.opened, Ends (s.conns last) ∧ ∃ cut, DrainedUpTo smallRestore s last cut ∧
        s.parasite.applied =
          (List.range last).flatMap (fun i => (s.conns i).written.map Item.effect ++ cut i) ∧
        s.parasite.mem = s.parasite.applied.foldl applyEffect (fun _ => 0) := by
  refine ⟨_, rfl, rfl, rfl, ?_⟩
  exact exits_after_restore smallRestore (fun _ => []) (fun _ => 0) allQueued _ rfl rfl

section Undisturbed

variable {r : Restore} {stack : Nat → List Byte} {mem₀ : Memory} {s t : State}

/-- Both sides of a restore in which nothing memcr calls has failed. -/
structure OrderedWhole (r : Restore) (mem₀ : Memory) (s : State) : Prop where
  ordered : Ordered r mem₀ s
  whole : Whole r s

theorem OrderedWhole.step {c : Choice} (h : OrderedWhole r mem₀ s) (hc : Undisturbed c)
    (hstep : RestoreConnections.step stack s c = some t) : OrderedWhole r mem₀ t := by
  refine ⟨h.ordered.step hstep, ?_⟩
  have hparasite (hother : (∃ n, c = .read n) ∨ c = .accept ∨ c = .endOfFile ∨ c = .proceed ∨
      c = .die) : Whole r t := by
    obtain ⟨hopened, hconns, hmemcr⟩ := Ordered.parasite_only hstep hother
    exact h.whole.congr hopened hconns hmemcr
  cases c with
  | connect => exact h.whole.connect hstep
  | connectFails => exact hc.elim
  | checksumMismatch => exact hc.elim
  | write n => exact h.whole.write h.ordered.writer hstep
  | giveUp => exact hc.elim
  | close => exact h.whole.close h.ordered.writer hstep
  | stranger bytes => exact h.whole.stranger hstep
  | accept => exact hparasite (by simp)
  | read n => exact hparasite (by simp)
  | endOfFile => exact hparasite (by simp)
  | proceed => exact hparasite (by simp)
  | die => exact hparasite (by simp)

theorem OrderedWhole.run {choices : List Choice} (hchoices : ∀ c ∈ choices, Undisturbed c)
    (hrun : GuardedRuns.run (RestoreConnections.step stack) (State.start r mem₀) choices = some s) :
    OrderedWhole r mem₀ s := by
  have hguard : Guarded (RestoreConnections.step stack) (fun _ c => Undisturbed c)
      (State.start r mem₀) choices := guarded_of_forall fun c hc _ => hchoices c hc
  exact invariant_of_guarded (fun _ _ _ hinv hc hnext => hinv.step hc hnext)
    ⟨⟨Writer.start mem₀, Reader.start⟩, Whole.start mem₀⟩ hguard hrun

theorem OrderedWhole.effects_eq {i : Nat} {job : Job} {cut : List Effect}
    (h : OrderedWhole r mem₀ s) (hi : i < s.opened) (hjob : r.jobs[i]? = some job)
    (hclosed : (s.conns i).closed = true)
    (hcut : ∀ job, (s.conns i).job = some job →
      (s.conns i).sent = itemStream job (s.conns i).written → cut = []) :
    (s.conns i).written.map Item.effect ++ cut = job.items.map Item.effect := by
  have hconn : (s.conns i).job = some job := (h.whole.job i hi).trans hjob
  obtain ⟨hsent, hwritten⟩ := h.whole.whole i hi job hconn hclosed
  have hnone : cut = [] := hcut job hconn (by rw [hsent, hwritten])
  rw [hnone, hwritten, List.append_nil]

theorem foldl_uploads (uploads : List RegionUpload) (mem : Memory) :
    ((uploads.map Item.upload).map Item.effect).foldl applyEffect mem =
      CheckpointMemory.cmdSetPages mem (uploads.map RegionUpload.region) := by
  induction uploads generalizing mem with
  | nil => rfl
  | cons u rest ih => exact ih (store mem u.region.vmr.addr.toNat u.region.data)

theorem foldl_protections (protections : List VmMprotect) (mem : Memory) :
    ((protections.map Item.protect).map Item.effect).foldl applyEffect mem = mem := by
  induction protections with
  | nil => rfl
  | cons req rest ih => exact ih

/-- A restore in which nothing fails has uploaded its regions when the parasite
exits, and protected the mappings behind that. -/
theorem whole_restore_applied {choices : List Choice} (hchoices : ∀ c ∈ choices, Undisturbed c)
    (hrun : GuardedRuns.run (RestoreConnections.step stack) (State.start r mem₀) choices = some s)
    (hexit : s.parasite.phase = .exited) :
    s.parasite.applied = (r.setPages.items ++ r.mprotectOn.items).map Item.effect ∧
      s.parasite.mem =
        CheckpointMemory.cmdSetPages mem₀ (r.uploads.map RegionUpload.region) := by
  have h : OrderedWhole r mem₀ s := OrderedWhole.run hchoices hrun
  obtain ⟨hnext, hends, hhere, hmem⟩ := h.ordered.at_exit hexit
  obtain ⟨cut, hdrained, hpast⟩ := h.ordered.drained
  have hlast : s.parasite.past.length = 2 := h.whole.last_eq hnext hends
  have heffects (i : Nat) (job : Job) (hi : i < 2) (hjob : r.jobs[i]? = some job) :
      (s.conns i).written.map Item.effect ++ cut i = job.items.map Item.effect := by
    obtain ⟨job', -, hjob', -, hclosed, -, -, hcut⟩ := hdrained i (by omega)
    refine h.effects_eq (by omega) hjob hclosed fun job'' hjob'' => ?_
    rw [hjob'] at hjob''
    exact Option.some.inj hjob'' ▸ hcut
  have happlied : s.parasite.applied =
      (r.setPages.items ++ r.mprotectOn.items).map Item.effect := by
    rw [ParasiteSide.applied, hhere, List.append_nil, hpast, hlast, List.map_append,
      ← heffects 0 r.setPages (by decide) rfl, ← heffects 1 r.mprotectOn (by decide) rfl]
    simp [List.range_succ]
  refine ⟨happlied, ?_⟩
  rw [hmem, happlied, List.map_append, List.foldl_append]
  simp only [Restore.setPages, Restore.mprotectOn]
  rw [foldl_uploads, foldl_protections]

end Undisturbed

end Memcr.RestoreDrained
