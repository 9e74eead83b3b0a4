import Memcr.ParasiteCommands
import Memcr.RestoreConnections

namespace Memcr.ServedConnections

open Memcr.ByteMemory
open Memcr.ByteWords
open Memcr.CallLogs
open Memcr.DumpFormat
open Memcr.GuardedRuns
open Memcr.ParasiteCommands (Action Handler Kernel actionsOf mprotectHandler performed
  setPagesHandler stored)
open Memcr.RegionRequests
open Memcr.RestoreConnections

/-- An effect as ParasiteCommands records it. -/
def actions : Effect → List Action
  | .upload addr data => stored addr data
  | .protect req => [.mprotect req]

/-- The loop behind a command of a restore. -/
def handlerOf : MemcrCmd → Handler
  | .cmdMprotect => mprotectHandler
  | _ => setPagesHandler

theorem handlerOf_size (cmd : MemcrCmd) : (handlerOf cmd).size = headerSize cmd := by
  cases cmd <;> rfl

/-- What the parasite still does on the connection, with `rest` left to be read. -/
def ahead (rest : List Byte) (p : ParasiteSide) : List Action :=
  match p.phase with
  | .header cmd buf => (handlerOf cmd).carriedOut p.req (buf ++ rest)
  | .payload vmr filled =>
      stored vmr.addr.toNat ((filled ++ rest).take (readSize vmr)) ++
        setPagesHandler.carriedOut p.req ((filled ++ rest).drop (readSize vmr))
  | .protecting req => .mprotect req :: mprotectHandler.carriedOut p.req rest
  | _ => []

/-- The variable `req` holds the request that the parasite is dealing with. -/
def Held (p : ParasiteSide) : Prop :=
  match p.phase with
  | .header cmd buf =>
      (cmd = .cmdMprotect ∨ cmd = .cmdSetPages) ∧ p.req.length = headerSize cmd ∧
        buf.length < headerSize cmd
  | .payload vmr filled =>
      p.req.length = vmRegionReqSize ∧ vmr = VmRegion.ofBytes p.req ∧
        filled.length ≤ readSize vmr
  | .protecting req => p.req.length = vmMprotectSize ∧ req = VmMprotect.ofBytes p.req
  | _ => False

/-- The parasite is at work on a connection on which it does `total` in all. -/
structure AtWork (total : List Action) (rest : List Byte) (p : ParasiteSide) : Prop where
  held : Held p
  sum : p.here.flatMap actions ++ ahead rest p = total

section Pieces

variable {stack : Nat → List Byte} {total : List Action} {rest piece : List Byte}
  {p p' : ParasiteSide} {cmd : MemcrCmd} {req : List Byte}

theorem atWork_takeRequest (hcmd : cmd = .cmdMprotect ∨ cmd = .cmdSetPages)
    (hreq : req.length = headerSize cmd)
    (hsum : p.here.flatMap actions ++
      ((handlerOf cmd).acts req (rest.take ((handlerOf cmd).bodyLength req)) ++
        (handlerOf cmd).carriedOut req (rest.drop ((handlerOf cmd).bodyLength req))) = total) :
    AtWork total rest (p.takeRequest cmd req) := by
  rcases hcmd with rfl | rfl
  · exact ⟨⟨hreq, rfl⟩, hsum⟩
  · exact ⟨⟨hreq, rfl, Nat.zero_le _⟩, hsum⟩

theorem handlerOf_leaves (cmd : MemcrCmd) (req : List Byte) :
    (handlerOf cmd).leaves req = req := by
  cases cmd <;> rfl

theorem carriedOut_request (hreq : req.length = headerSize cmd) (before : List Byte) :
    (handlerOf cmd).carriedOut before (req ++ rest) =
      (handlerOf cmd).acts req (rest.take ((handlerOf cmd).bodyLength req)) ++
        (handlerOf cmd).carriedOut req (rest.drop ((handlerOf cmd).bodyLength req)) := by
  rw [← handlerOf_size] at hreq
  rw [Handler.carriedOut_record (by rw [List.length_append, hreq]; omega),
    HeaderStreams.behindFirst, List.take_left' hreq, List.drop_left' hreq, handlerOf_leaves]

theorem AtWork.readPiece (h : AtWork total (piece ++ rest) p) (hphase : p.phase ≠ .command)
    (hread : readPiece stack p piece = some p') : AtWork total rest p' := by
  obtain ⟨hheld, hsum⟩ := h
  simp only [RestoreConnections.readPiece] at hread
  simp only [Held, ahead] at hheld hsum
  split at hread
  · rename_i hcommand
    exact absurd hcommand hphase
  · rename_i cmd buf hheader
    simp only [hheader, ← List.append_assoc] at hheld hsum
    obtain ⟨hcmd, hreq, -⟩ := hheld
    split_ifs at hread with hfits
    cases hread
    rw [ParasiteSide.headerOn]
    split_ifs with hshort
    · exact ⟨⟨hcmd, hreq, hshort⟩, hsum⟩
    · have hwhole : (buf ++ piece).length = headerSize cmd := by
        rw [List.length_append] at hshort ⊢
        omega
      rw [carriedOut_request hwhole] at hsum
      exact atWork_takeRequest hcmd hwhole hsum
  · rename_i vmr filled hpayload
    simp only [hpayload, ← List.append_assoc] at hheld hsum
    obtain ⟨hreq, hvmr, -⟩ := hheld
    split_ifs at hread with hfits
    cases hread
    rw [List.append_assoc] at hsum
    exact ⟨⟨hreq, hvmr, by simpa using hfits⟩, hsum⟩
  · cases hread

theorem AtWork.atEnd (h : AtWork total [] p) (hend : atEnd p = some p') :
    AtWork total [] p' ∧ p'.past = p.past ∧ p'.got = p.got ∨
      p'.phase = .accepting ∧ p'.past = p.past ++ [p.here] ∧ p.here.flatMap actions = total := by
  obtain ⟨hheld, hsum⟩ := h
  simp only [RestoreConnections.atEnd] at hend
  simp only [Held, ahead] at hheld hsum
  split at hend
  · rename_i hcommand
    simp only [hcommand] at hheld
  · rename_i cmd hheader
    simp only [hheader, List.append_nil, Handler.carriedOut_nil] at hsum
    cases hend
    exact Or.inr ⟨rfl, rfl, hsum⟩
  · rename_i cmd buf hne hheader
    simp only [hheader, List.append_nil] at hheld hsum
    obtain ⟨hcmd, hreq, hshort⟩ := hheld
    cases hend
    have hbuf : buf ≠ [] := by
      rintro rfl
      exact hne rfl
    have hwhole : (buf ++ p.req.drop buf.length).length = headerSize cmd := by
      rw [List.length_append, List.length_drop]
      omega
    rw [Handler.carriedOut_of_short (by rwa [handlerOf_size]) hbuf] at hsum
    left
    refine ⟨atWork_takeRequest hcmd hwhole ?_, rfl, rfl⟩
    rw [List.take_nil, List.drop_nil, Handler.carriedOut_nil, List.append_nil]
    exact hsum
  · rename_i vmr filled hpayload
    simp only [hpayload, List.append_nil] at hheld hsum
    obtain ⟨hreq, hvmr, -⟩ := hheld
    split_ifs at hend with hshort
    cases hend
    rw [List.take_of_length_le hshort.le, List.drop_of_length_le hshort.le] at hsum
    left
    refine ⟨⟨⟨Or.inr rfl, hreq, vmRegionReqSize_pos⟩, ?_⟩, rfl, rfl⟩
    simpa [ParasiteSide.record, ahead, actions, handlerOf] using hsum
  · cases hend

end Pieces

section Connection

variable {stack : Nat → List Byte} {total : List Action} {s t : State}

theorem AtWork.proceed {rest : List Byte} (h : AtWork total rest s.parasite)
    (hstep : proceed s = some t) :
    AtWork total rest t.parasite ∧ t.parasite.past = s.parasite.past ∧ t.unread = s.unread := by
  obtain ⟨hheld, hsum⟩ := h
  simp only [RestoreConnections.proceed] at hstep
  simp only [Held, ahead] at hheld hsum
  split at hstep
  · rename_i vmr filled hpayload
    simp only [hpayload] at hheld hsum
    obtain ⟨hreq, hvmr, hle⟩ := hheld
    split_ifs at hstep with hwhole
    cases hstep
    have hlength := le_antisymm hle hwhole
    rw [List.take_left' hlength, List.drop_left' hlength] at hsum
    refine ⟨⟨⟨Or.inr rfl, hreq, vmRegionReqSize_pos⟩, ?_⟩, rfl, rfl⟩
    simpa [ParasiteSide.record, ahead, actions, handlerOf] using hsum
  · rename_i req hprotecting
    simp only [hprotecting] at hheld hsum
    cases hstep
    refine ⟨⟨⟨Or.inl rfl, hheld.1, ParasiteCommands.vmMprotectSize_pos⟩, ?_⟩, rfl, rfl⟩
    simpa [ParasiteSide.record, ahead, actions, handlerOf] using hsum
  · cases hstep

/-- A step of the parasite on the connection that it has accepted, other than its end. -/
def Own : Choice → Prop
  | .read _ | .endOfFile | .proceed => True
  | _ => False

/-- How far the parasite is on a connection that begins with `cmd`, behind the connections
of `past`. -/
inductive Course (cmd : MemcrCmd) (input : List Byte) (past : List (List Effect))
    (total : List Action) (s : State) : Prop
  | accepted (hphase : s.parasite.phase = .command) (hhere : s.parasite.here = [])
      (hpast : s.parasite.past = past) (hunread : s.unread = cmd.byte :: input)
  | atWork (h : AtWork total s.unread s.parasite) (hphase : s.parasite.phase ≠ .command)
      (hpast : s.parasite.past = past)
  | finished {here : List Effect} (hphase : s.parasite.phase = .accepting)
      (hpast : s.parasite.past = past ++ [here]) (hhere : here.flatMap actions = total)
  | gone (hphase : s.parasite.phase = .exited)

variable {cmd : MemcrCmd} {input : List Byte} {past : List (List Effect)}

theorem Held.phase_ne {p : ParasiteSide} (h : Held p) : p.phase ≠ .command := by
  intro hphase
  simp [Held, hphase] at h

theorem course_handleConnection {p : ParasiteSide} (hhere : p.here = []) (hpast : p.past = past)
    (hstack : (stack past.length).length = headerSize cmd)
    (htotal : (handlerOf cmd).carriedOut (stack past.length) input = total)
    (hunread : t.unread = input) (hp : handleConnection stack p cmd.byte = some t.parasite) :
    Course cmd input past total t := by
  generalize hparasite : t.parasite = p' at hp
  subst hpast
  simp only [handleConnection, MemcrCmd.ofByte?_byte] at hp
  cases cmd with
  | cmdEnd =>
      cases hp
      exact .gone (by rw [hparasite])
  | cmdGetPages => cases hp
  | cmdMprotect =>
      cases hp
      refine .atWork ⟨?_, ?_⟩ (by rw [hparasite]; simp) (by rw [hparasite])
      · rw [hparasite]
        exact ⟨Or.inl rfl, hstack, ParasiteCommands.vmMprotectSize_pos⟩
      · rw [hparasite, hunread]
        simpa [ahead, hhere] using htotal
  | cmdSetPages =>
      cases hp
      refine .atWork ⟨?_, ?_⟩ (by rw [hparasite]; simp) (by rw [hparasite])
      · rw [hparasite]
        exact ⟨Or.inr rfl, hstack, vmRegionReqSize_pos⟩
      · rw [hparasite, hunread]
        simpa [ahead, hhere] using htotal

theorem readPiece_frame {p p' : ParasiteSide} {piece : List Byte}
    (h : readPiece stack p piece = some p') : p'.got = p.got ∧ p'.past = p.past := by
  simp only [readPiece, handleConnection, ParasiteSide.headerOn, ParasiteSide.takeRequest] at h
  repeat' split at h
  all_goals cases h <;> exact ⟨rfl, rfl⟩

theorem read_unread {n : Nat} (h : RestoreConnections.read stack s n = some t) :
    0 < n ∧ n ≤ s.unread.length ∧ t.unread = s.unread.drop n ∧
      t.parasite.past = s.parasite.past ∧
      readPiece stack { s.parasite with got := s.parasite.got ++ s.unread.take n }
        (s.unread.take n) = some t.parasite := by
  simp only [RestoreConnections.read] at h
  split_ifs at h with hn
  obtain ⟨p, hp, rfl⟩ := Option.map_eq_some_iff.mp h
  obtain ⟨hgot, hpast⟩ := readPiece_frame hp
  refine ⟨hn.1, hn.2, ?_, hpast, hp⟩
  simp only [State.unread, State.current, hgot, hpast, List.length_append, List.length_take,
    List.drop_drop]
  congr 2
  have := hn.2
  simp only [State.unread, State.current, List.length_drop] at this ⊢
  omega

theorem Course.read {n : Nat} (hstack : (stack past.length).length = headerSize cmd)
    (htotal : (handlerOf cmd).carriedOut (stack past.length) input = total)
    (h : Course cmd input past total s) (hstep : RestoreConnections.read stack s n = some t) :
    Course cmd input past total t := by
  obtain ⟨hpos, hle, hunread, hpast, hpiece⟩ := read_unread hstep
  cases h with
  | accepted hphase hhere hpast' hunread' =>
      rw [hunread'] at hpiece hunread hle
      simp only [readPiece, hphase] at hpiece
      split at hpiece
      · rename_i b hb
        obtain rfl : n = 1 := by
          have hlength := congrArg List.length hb
          rwa [List.length_take_of_le hle] at hlength
        obtain rfl : cmd.byte = b := by simpa using hb
        refine course_handleConnection ?_ ?_ hstack htotal (by simpa using hunread) hpiece
        · exact hhere
        · exact hpast'
      · cases hpiece
  | atWork hwork hphase hpast' =>
      rw [← List.take_append_drop n s.unread] at hwork
      have hmoved : AtWork total (s.unread.take n ++ s.unread.drop n)
          { s.parasite with got := s.parasite.got ++ s.unread.take n } :=
        ⟨hwork.held, hwork.sum⟩
      have hnext := hmoved.readPiece hphase hpiece
      exact .atWork (hunread ▸ hnext) hnext.held.phase_ne (hpast.trans hpast')
  | finished hphase => simp [readPiece, hphase] at hpiece
  | gone hphase => simp [readPiece, hphase] at hpiece

theorem Course.endOfFile (h : Course cmd input past total s)
    (hstep : endOfFile s = some t) : Course cmd input past total t := by
  simp only [RestoreConnections.endOfFile] at hstep
  split_ifs at hstep with hend
  obtain ⟨p, hp, rfl⟩ := Option.map_eq_some_iff.mp hstep
  cases h with
  | accepted hphase hhere hpast hunread =>
      rw [hunread] at hend
      cases hend.2
  | atWork hwork hphase hpast =>
      rw [hend.2] at hwork
      rcases hwork.atEnd hp with ⟨hnext, hpast', hgot⟩ | ⟨haccepting, hpast', hhere⟩
      · have hunread : State.unread { s with parasite := p } = [] := by
          rw [← hend.2]
          simp only [State.unread, State.current, hpast', hgot]
        exact .atWork (hunread ▸ hnext) hnext.held.phase_ne (hpast'.trans hpast)
      · exact .finished haccepting (by rw [hpast', hpast]) hhere
  | finished hphase => simp [RestoreConnections.atEnd, hphase] at hp
  | gone hphase => simp [RestoreConnections.atEnd, hphase] at hp

theorem Course.proceed (h : Course cmd input past total s) (hstep : proceed s = some t) :
    Course cmd input past total t := by
  cases h with
  | accepted hphase => simp [RestoreConnections.proceed, hphase] at hstep
  | atWork hwork hphase hpast =>
      obtain ⟨hnext, hpast', hunread⟩ := hwork.proceed hstep
      exact .atWork (hunread ▸ hnext) hnext.held.phase_ne (hpast'.trans hpast)
  | finished hphase => simp [RestoreConnections.proceed, hphase] at hstep
  | gone hphase => simp [RestoreConnections.proceed, hphase] at hstep

theorem Course.step {c : Choice} (hown : Own c)
    (hstack : (stack past.length).length = headerSize cmd)
    (htotal : (handlerOf cmd).carriedOut (stack past.length) input = total)
    (h : Course cmd input past total s) (hstep : step stack s c = some t) :
    Course cmd input past total t := by
  cases c with
  | read n => exact h.read hstack htotal hstep
  | endOfFile => exact h.endOfFile hstep
  | proceed => exact h.proceed hstep
  | _ => exact hown.elim

end Connection

theorem handlerOf_performed {cmd : MemcrCmd} (hcmd : cmd = .cmdMprotect ∨ cmd = .cmdSetPages)
    (vars : Memory) (input : List Byte) :
    (handlerOf cmd).carriedOut (slice vars 0 (headerSize cmd)) input =
      performed vars input cmd := by
  rcases hcmd with rfl | rfl <;> rfl

/-- The parasite of RestoreConnections, which reads a connection piece by piece, does to the
target what `handle_connection` of ParasiteCommands does, however the pieces come. -/
theorem connection_carriedOut {stack : Nat → List Byte} {cmd : MemcrCmd} {input : List Byte}
    {vars : Memory} {s t : State} {choices : List Choice}
    (hcmd : cmd = .cmdMprotect ∨ cmd = .cmdSetPages) (hphase : s.parasite.phase = .command)
    (hhere : s.parasite.here = []) (hunread : s.unread = cmd.byte :: input)
    (hstack : stack s.parasite.past.length = slice vars 0 (headerSize cmd))
    (hown : ∀ c ∈ choices, Own c) (hrun : run (step stack) s choices = some t)
    (hdone : t.parasite.phase = .accepting) {kernel : Kernel} (hkernel : kernel.Succeeds) :
    ∃ here value, t.parasite.past = s.parasite.past ++ [here] ∧
      ParasiteCommands.handleConnection kernel vars ⟨cmd.byte :: input, 0⟩ =
        ⟨here.flatMap actions, .returns value⟩ := by
  have hlength : (stack s.parasite.past.length).length = headerSize cmd := by
    rw [hstack, slice_length]
  have htotal : (handlerOf cmd).carriedOut (stack s.parasite.past.length) input =
      performed vars input cmd := by
    rw [hstack, handlerOf_performed hcmd]
  have hguard : Guarded (step stack) (fun _ c => Own c) s choices :=
    guarded_of_forall fun c hc _ => hown c hc
  have hcourse : Course cmd input s.parasite.past (performed vars input cmd) t :=
    invariant_of_guarded (fun _ _ _ h hown hstep => h.step hown hlength htotal hstep)
      (.accepted hphase hhere rfl hunread) hguard hrun
  cases hcourse with
  | accepted hphase =>
      rw [hphase] at hdone
      cases hdone
  | atWork hwork =>
      have hheld := hwork.held
      simp [Held, hdone] at hheld
  | finished _ hpast hperformed =>
      obtain ⟨value, hrun⟩ :=
        (ParasiteCommands.handleConnection_carriesOut kernel vars input cmd).eq_returns hkernel
      exact ⟨_, value, hpast, hperformed ▸ hrun⟩
  | gone hphase =>
      rw [hphase] at hdone
      cases hdone

end Memcr.ServedConnections
