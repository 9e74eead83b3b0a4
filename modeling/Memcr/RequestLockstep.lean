import Mathlib.Data.List.Infix
import Memcr.RequestStream

namespace Memcr.RequestLockstep

open Memcr.ByteWords
open Memcr.CheckpointMemory
open Memcr.GuardedRuns
open Memcr.Pipes
open Memcr.RegionRequests
open Memcr.RequestStream

/-- The requests as they pass through the socket, behind the command. -/
def requestStream (reqs : List VmRegionReq) : List Byte :=
  commandStream .cmdGetPages VmRegionReq.bytes reqs

theorem requestStream_snoc (past : List VmRegionReq) (req : VmRegionReq) :
    requestStream (past ++ [req]) = requestStream past ++ req.bytes :=
  commandStream_snoc _ _ past req

theorem requestStream_length (reqs : List VmRegionReq) :
    (requestStream reqs).length = 1 + vmRegionReqSize * reqs.length := by
  induction reqs with
  | nil => rfl
  | cons req rest ih =>
      simp only [requestStream, commandStream, List.flatMap_cons, List.length_cons,
        List.length_append, VmRegionReq.bytes_length] at ih ⊢
      rw [Nat.mul_succ]
      omega

theorem requestStream_mono {past reqs : List VmRegionReq} (h : past <+: reqs) :
    requestStream past <+: requestStream reqs := by
  simp only [requestStream, commandStream, List.prefix_cons_inj]
  exact h.flatMap _

theorem next_request {past reqs : List VmRegionReq} {buf : List Byte} (hpast : past <+: reqs)
    (hstream : requestStream past ++ buf <+: requestStream reqs)
    (hbuf : buf.length = vmRegionReqSize) :
    ∃ req, buf = req.bytes ∧ past ++ [req] <+: reqs := by
  obtain ⟨rest, rfl⟩ := hpast
  have hrest : buf <+: rest.flatMap VmRegionReq.bytes := by
    simpa [requestStream, commandStream, List.prefix_append_right_inj] using hstream
  cases rest with
  | nil =>
      obtain rfl : buf = [] := by simpa using hrest
      exact absurd hbuf (by decide)
  | cons req rest =>
      have hreq : req.bytes <+: (req :: rest).flatMap VmRegionReq.bytes := by
        rw [List.flatMap_cons]
        exact List.prefix_append _ _
      have hle : buf.length ≤ req.bytes.length := by rw [hbuf, VmRegionReq.bytes_length]
      refine ⟨req, ?_, rest, by simp⟩
      exact (List.prefix_of_prefix_length_le hrest hreq hle).eq_of_length
        (by rw [hbuf, VmRegionReq.bytes_length])

/-- A length that fits an `int`, and a reply that is not empty. -/
structure Sendable (req : VmRegionReq) : Prop where
  fits : req.len < 2 ^ 31
  nonempty : req.answered = true → 0 < req.len

/-- Where memcr is when it has sent and got the given bytes. -/
inductive Sender (reqs : List VmRegionReq) : MemcrSide → List Byte → List Byte → Prop
  | command : Sender reqs ⟨.command, reqs, []⟩ [] []
  | sending {past rest : List VmRegionReq} {req : VmRegionReq} {received : List (List Byte)}
      {off : Nat} (hreqs : reqs = past ++ req :: rest)
      (hreceived : received.map List.length = past.map VmRegionReq.replyLength)
      (hoff : off < vmRegionReqSize) :
      Sender reqs ⟨.sending off, req :: rest, received⟩ (requestStream past ++ req.bytes.take off)
        received.flatten
  | receiving {past rest : List VmRegionReq} {req : VmRegionReq} {received : List (List Byte)}
      {buf : List Byte} (hreqs : reqs = past ++ req :: rest)
      (hreceived : received.map List.length = past.map VmRegionReq.replyLength)
      (hanswered : req.answered = true) (hbuf : buf.length < req.len) :
      Sender reqs ⟨.receiving buf, req :: rest, received⟩ (requestStream (past ++ [req]))
        (received.flatten ++ buf)
  | idle {received : List (List Byte)}
      (hreceived : received.map List.length = reqs.map VmRegionReq.replyLength) :
      Sender reqs ⟨.sending 0, [], received⟩ (requestStream reqs) received.flatten
  | closed {received : List (List Byte)}
      (hreceived : received.map List.length = reqs.map VmRegionReq.replyLength) :
      Sender reqs ⟨.closed, [], received⟩ (requestStream reqs) received.flatten

namespace Sender

variable {reqs past rest : List VmRegionReq} {m : MemcrSide} {sent got : List Byte}
  {req : VmRegionReq} {received : List (List Byte)}

theorem ready (hreqs : reqs = past ++ rest)
    (hreceived : received.map List.length = past.map VmRegionReq.replyLength) :
    Sender reqs ⟨.sending 0, rest, received⟩ (requestStream past) received.flatten := by
  cases rest with
  | nil =>
      obtain rfl : reqs = past := by simpa using hreqs
      exact idle hreceived
  | cons req rest =>
      have hsending : Sender reqs ⟨.sending 0, req :: rest, received⟩
          (requestStream past ++ req.bytes.take 0) received.flatten :=
        sending hreqs hreceived (by decide)
      simpa using hsending

theorem afterCommand (h : Sender reqs m sent got) (hphase : m.phase = .command) :
    Sender reqs { m with phase := .sending 0 } (sent ++ [MemcrCmd.cmdGetPages.byte]) got := by
  cases h with
  | command =>
      have hready : Sender reqs ⟨.sending 0, reqs, []⟩ (requestStream []) [].flatten :=
        ready rfl rfl
      exact hready
  | sending => cases hphase
  | receiving => cases hphase
  | idle => cases hphase
  | closed => cases hphase

theorem sendOn {off n : Nat} (hsendable : ∀ req ∈ reqs, Sendable req)
    (h : Sender reqs m sent got) (hphase : m.phase = .sending off)
    (htodo : m.todo = req :: rest) (hfit : off + n ≤ vmRegionReqSize) :
    Sender reqs (m.sendOn req rest (off + n)) (sent ++ (req.bytes.drop off).take n) got := by
  cases h with
  | command => cases hphase
  | receiving => cases hphase
  | idle => cases htodo
  | closed => cases hphase
  | sending hreqs hreceived hoff =>
      rename_i past' rest' req' received' off'
      obtain rfl : off' = off := by simpa using hphase
      obtain ⟨rfl, rfl⟩ : req' = req ∧ rest' = rest := by simpa using htodo
      rw [List.append_assoc, ← List.take_add, MemcrSide.sendOn]
      split
      · rename_i hmore
        exact sending hreqs hreceived hmore
      · rename_i hdone
        have hwhole : req'.bytes.take (off' + n) = req'.bytes :=
          List.take_of_length_le (by rw [VmRegionReq.bytes_length]; omega)
        have hpast : reqs = (past' ++ [req']) ++ rest' := by simpa using hreqs
        rw [hwhole, ← requestStream_snoc]
        split
        · rename_i hanswered
          have hlen := (hsendable req' (by simp [hreqs])).nonempty hanswered
          rw [if_neg (by omega)]
          have hreceiving : Sender reqs ⟨.receiving [], req' :: rest', received'⟩
              (requestStream (past' ++ [req'])) (received'.flatten ++ []) :=
            receiving hreqs hreceived hanswered hlen
          simpa using hreceiving
        · rename_i hsilent
          have hnext : Sender reqs ⟨.sending 0, rest', received' ++ [[]]⟩
              (requestStream (past' ++ [req'])) (received' ++ [[]]).flatten :=
            ready hpast (by simp [hreceived, VmRegionReq.replyLength, hsilent])
          simpa using hnext

theorem receiveOn {buf piece : List Byte} (h : Sender reqs m sent got)
    (hphase : m.phase = .receiving buf) (htodo : m.todo = req :: rest)
    (hfit : buf.length + piece.length ≤ req.len) :
    Sender reqs (m.receiveOn req rest (buf ++ piece)) sent (got ++ piece) := by
  cases h with
  | command => cases hphase
  | sending => cases hphase
  | idle => cases hphase
  | closed => cases hphase
  | receiving hreqs hreceived hanswered hbuf =>
      rename_i past' rest' req' received' buf'
      obtain rfl : buf' = buf := by simpa using hphase
      obtain ⟨rfl, rfl⟩ : req' = req ∧ rest' = rest := by simpa using htodo
      rw [List.append_assoc, MemcrSide.receiveOn]
      split
      · rename_i hmore
        exact receiving hreqs hreceived hanswered hmore
      · rename_i hdone
        have hlen : buf'.length + piece.length = req'.len := by
          rw [List.length_append] at hdone
          omega
        have hpast : reqs = (past' ++ [req']) ++ rest' := by simpa using hreqs
        have hnext : Sender reqs ⟨.sending 0, rest', received' ++ [buf' ++ piece]⟩
            (requestStream (past' ++ [req'])) (received' ++ [buf' ++ piece]).flatten :=
          ready hpast (by simp [hreceived, VmRegionReq.replyLength, hanswered, hlen])
        simpa using hnext

theorem close (h : Sender reqs m sent got) (htodo : m.todo = [])
    (hphase : m.phase = .sending 0) : Sender reqs { m with phase := .closed } sent got := by
  cases h with
  | command => cases hphase
  | sending => cases htodo
  | receiving => cases htodo
  | idle hreceived => exact closed hreceived
  | closed => cases hphase

theorem closed_of_hungUp (h : Sender reqs m sent got) (hup : m.phase.hungUp = true) :
    m.phase = .closed ∧ sent = requestStream reqs := by
  cases h with
  | command => cases hup
  | sending => cases hup
  | receiving => cases hup
  | idle => cases hup
  | closed => exact ⟨rfl, rfl⟩

theorem sent_begins (h : Sender reqs m sent got) : sent <+: requestStream reqs := by
  cases h with
  | command => exact List.nil_prefix
  | sending hreqs hreceived hoff =>
      rename_i past' rest' req' received' off'
      have hpart :
          requestStream past' ++ req'.bytes.take off' <+: requestStream (past' ++ [req']) := by
        rw [requestStream_snoc, List.prefix_append_right_inj]
        exact List.take_prefix _ _
      exact hpart.trans (requestStream_mono ⟨rest', by simpa using hreqs.symm⟩)
  | receiving hreqs => exact requestStream_mono ⟨_, by simpa using hreqs.symm⟩
  | idle => exact List.prefix_rfl
  | closed => exact List.prefix_rfl

theorem done (h : Sender reqs m sent got) : ∃ past, past <+: reqs ∧
    m.received.map List.length = past.map VmRegionReq.replyLength ∧
    m.received.flatten <+: got := by
  cases h with
  | command => exact ⟨[], List.nil_prefix, rfl, List.nil_prefix⟩
  | sending hreqs hreceived => exact ⟨_, ⟨_, hreqs.symm⟩, hreceived, List.prefix_rfl⟩
  | receiving hreqs hreceived => exact ⟨_, ⟨_, hreqs.symm⟩, hreceived, List.prefix_append _ _⟩
  | idle hreceived => exact ⟨_, List.prefix_rfl, hreceived, List.prefix_rfl⟩
  | closed hreceived => exact ⟨_, List.prefix_rfl, hreceived, List.prefix_rfl⟩

theorem quiet (h : Sender reqs m sent got) (hphase : ∀ buf, m.phase ≠ .receiving buf) :
    ∃ past, past <+: reqs ∧ m.received.map List.length = past.map VmRegionReq.replyLength ∧
      got = m.received.flatten ∧ sent.length < 1 + vmRegionReqSize * (past.length + 1) := by
  cases h with
  | command => exact ⟨[], List.nil_prefix, rfl, rfl, by simp⟩
  | sending hreqs hreceived hoff =>
      refine ⟨_, ⟨_, hreqs.symm⟩, hreceived, rfl, ?_⟩
      simp only [List.length_append, requestStream_length, List.length_take, Nat.mul_succ]
      omega
  | receiving => exact absurd rfl (hphase _)
  | idle hreceived =>
      refine ⟨_, List.prefix_rfl, hreceived, rfl, ?_⟩
      simp [requestStream_length, vmRegionReqSize]
  | closed hreceived =>
      refine ⟨_, List.prefix_rfl, hreceived, rfl, ?_⟩
      simp [requestStream_length, vmRegionReqSize]

theorem of_closed (h : Sender reqs m sent got) (hphase : m.phase = .closed) :
    m.received.map List.length = reqs.map VmRegionReq.replyLength ∧ sent = requestStream reqs ∧
      got = m.received.flatten := by
  cases h with
  | command => cases hphase
  | sending => cases hphase
  | receiving => cases hphase
  | idle => cases hphase
  | closed hreceived => exact ⟨hreceived, rfl, rfl⟩

theorem of_receiving {buf : List Byte} (h : Sender reqs m sent got)
    (hphase : m.phase = .receiving buf) :
    ∃ req rest, m.todo = req :: rest ∧ buf.length < req.len := by
  cases h with
  | command => cases hphase
  | sending => cases hphase
  | receiving hreqs hreceived hanswered hbuf =>
      cases hphase
      exact ⟨_, _, rfl, hbuf⟩
  | idle => cases hphase
  | closed => cases hphase

theorem command_of_nil (h : Sender reqs m sent got) (hsent : sent = []) :
    m.phase = .command := by
  cases h with
  | command => rfl
  | sending => simp [requestStream, commandStream] at hsent
  | receiving => simp [requestStream, commandStream] at hsent
  | idle => simp [requestStream, commandStream] at hsent
  | closed => simp [requestStream, commandStream] at hsent

theorem position (h : Sender reqs m sent got) :
    (m.phase = .command ∧ sent = []) ∨
    (∃ off req rest, m.phase = .sending off ∧ m.todo = req :: rest ∧ off < vmRegionReqSize) ∨
    (∃ past buf req rest, m.phase = .receiving buf ∧ m.todo = req :: rest ∧
      buf.length < req.len ∧ past ++ [req] <+: reqs ∧ sent = requestStream (past ++ [req]) ∧
      got.length < ((past ++ [req]).map VmRegionReq.replyLength).sum) ∨
    (m.phase = .sending 0 ∧ m.todo = []) ∨
    (m.phase = .closed ∧ sent = requestStream reqs) := by
  cases h with
  | command => exact Or.inl ⟨rfl, rfl⟩
  | sending hreqs hreceived hoff => exact Or.inr (Or.inl ⟨_, _, _, rfl, rfl, hoff⟩)
  | receiving hreqs hreceived hanswered hbuf =>
      refine Or.inr (Or.inr (Or.inl ⟨_, _, _, _, rfl, rfl, hbuf, ⟨_, by simpa using hreqs.symm⟩,
        rfl, ?_⟩))
      simpa [List.length_flatten, hreceived, VmRegionReq.replyLength, hanswered] using hbuf
  | idle => exact Or.inr (Or.inr (Or.inr (Or.inl ⟨rfl, rfl⟩)))
  | closed => exact Or.inr (Or.inr (Or.inr (Or.inr ⟨rfl, rfl⟩)))

end Sender

/-- Where the parasite is when it has got and sent the given bytes. -/
inductive Server (kernel : Kernel) (t₀ : Target) (reqs : List VmRegionReq) :
    ParasiteSide → List Byte → List Byte → Prop
  | command : Server kernel t₀ reqs ⟨.command, [], t₀⟩ [] []
  | reading {decoded : List VmRegionReq} {buf : List Byte} (hdecoded : decoded <+: reqs)
      (hbuf : buf.length < vmRegionReqSize) :
      Server kernel t₀ reqs ⟨.reading buf, decoded, after kernel t₀ decoded⟩
        (requestStream decoded ++ buf) (replies kernel t₀ decoded).flatten
  | serving {past : List VmRegionReq} {req : VmRegionReq} {left : List (List Byte)}
      {sent : List Byte} (hdecoded : past ++ [req] <+: reqs) (hleft : ∀ chunk ∈ left, chunk ≠ [])
      (hsent : sent ++ left.flatten = (replies kernel t₀ (past ++ [req])).flatten) :
      Server kernel t₀ reqs ⟨.serving req left, past ++ [req], after kernel t₀ past⟩
        (requestStream (past ++ [req])) sent
  | finished :
      Server kernel t₀ reqs ⟨.finished, reqs, after kernel t₀ reqs⟩ (requestStream reqs)
        (replies kernel t₀ reqs).flatten

namespace Server

variable {kernel : Kernel} {t₀ : Target} {reqs : List VmRegionReq} {p : ParasiteSide}
  {got sent : List Byte}

theorem afterCommand (h : Server kernel t₀ reqs p got sent) (hphase : p.phase = .command) :
    Server kernel t₀ reqs { p with phase := .reading [] }
      (got ++ [MemcrCmd.cmdGetPages.byte]) sent := by
  cases h with
  | command =>
      have hreading : Server kernel t₀ reqs ⟨.reading [], [], after kernel t₀ []⟩
          (requestStream [] ++ []) (replies kernel t₀ []).flatten :=
        reading List.nil_prefix (by decide)
      exact hreading
  | reading => cases hphase
  | serving => cases hphase
  | finished => cases hphase

theorem readOn {buf piece : List Byte} (hsendable : ∀ req ∈ reqs, Sendable req)
    (h : Server kernel t₀ reqs p got sent) (hphase : p.phase = .reading buf)
    (hstream : got ++ piece <+: requestStream reqs)
    (hfit : buf.length + piece.length ≤ vmRegionReqSize) :
    Server kernel t₀ reqs (p.readOn (buf ++ piece)) (got ++ piece) sent := by
  cases h with
  | command => cases hphase
  | serving => cases hphase
  | finished => cases hphase
  | reading hdecoded hbuf =>
      rename_i decoded buf'
      obtain rfl : buf' = buf := by simpa using hphase
      rw [List.append_assoc] at hstream ⊢
      rw [ParasiteSide.readOn]
      split
      · rename_i hmore
        exact reading hdecoded hmore
      · rename_i hdone
        have hwhole : (buf' ++ piece).length = vmRegionReqSize := by
          rw [List.length_append] at hdone ⊢
          omega
        obtain ⟨req, hreq, hnext⟩ := next_request hdecoded hstream hwhole
        have hlen := (hsendable req (hnext.subset (by simp))).fits
        rw [hreq, ← requestStream_snoc, VmRegionReq.ofBytes_bytes]
        refine serving hnext (fun chunk => chunks_ne_nil) ?_
        rw [replies_snoc, List.flatten_append, chunks_flatten hlen]
        simp

theorem writeOn {req : VmRegionReq} {chunk : List Byte} {rest : List (List Byte)} {n : Nat}
    (h : Server kernel t₀ reqs p got sent) (hphase : p.phase = .serving req (chunk :: rest)) :
    Server kernel t₀ reqs
      { p with phase := .serving req (if n < chunk.length then chunk.drop n :: rest else rest) }
      got (sent ++ chunk.take n) := by
  cases h with
  | command => cases hphase
  | reading => cases hphase
  | finished => cases hphase
  | serving hdecoded hleft hsent =>
      rename_i past req' left
      obtain ⟨rfl, rfl⟩ : req' = req ∧ left = chunk :: rest := by simpa using hphase
      split
      · rename_i hmore
        refine serving hdecoded ?_ ?_
        · intro piece hpiece
          rcases List.mem_cons.mp hpiece with rfl | hpiece
          · exact List.ne_nil_of_length_pos (by rw [List.length_drop]; omega)
          · exact hleft piece (by simp [hpiece])
        · simpa [← List.append_assoc (chunk.take n)] using hsent
      · rename_i hall
        refine serving hdecoded (fun piece hpiece => hleft piece (by simp [hpiece])) ?_
        rw [List.take_of_length_le (by omega)]
        simpa using hsent

theorem advise {req : VmRegionReq} (h : Server kernel t₀ reqs p got sent)
    (hphase : p.phase = .serving req []) :
    Server kernel t₀ reqs
      { p with phase := .reading [], target := RequestStream.advise kernel p.target req }
      got sent := by
  cases h with
  | command => cases hphase
  | reading => cases hphase
  | finished => cases hphase
  | serving hdecoded hleft hsent =>
      rename_i past req' left
      obtain ⟨rfl, rfl⟩ : req' = req ∧ left = [] := by simpa using hphase
      have hreading : Server kernel t₀ reqs
          ⟨.reading [], past ++ [req'], after kernel t₀ (past ++ [req'])⟩
          (requestStream (past ++ [req']) ++ []) (replies kernel t₀ (past ++ [req'])).flatten :=
        reading hdecoded (by decide)
      rw [← hsent] at hreading
      simpa [after_snoc] using hreading

theorem finish (h : Server kernel t₀ reqs p got sent) (hphase : p.phase = .reading [])
    (hgot : got = requestStream reqs) :
    Server kernel t₀ reqs { p with phase := .finished } got sent := by
  cases h with
  | command => cases hphase
  | serving => cases hphase
  | finished => cases hphase
  | reading hdecoded hbuf =>
      rename_i decoded buf'
      obtain rfl : buf' = [] := by simpa using hphase
      obtain rfl : decoded = reqs := by
        apply VmRegionReq.bytes_selfDelimiting.flatMap_inj
        simpa [requestStream, commandStream] using hgot
      simpa using finished

theorem decoded_begins (h : Server kernel t₀ reqs p got sent) : p.decoded <+: reqs := by
  cases h with
  | command => exact List.nil_prefix
  | reading hdecoded => exact hdecoded
  | serving hdecoded => exact hdecoded
  | finished => exact List.prefix_rfl

theorem sent_begins (h : Server kernel t₀ reqs p got sent) :
    sent <+: (replies kernel t₀ p.decoded).flatten := by
  cases h with
  | command => exact List.nil_prefix
  | reading => exact List.prefix_rfl
  | serving hdecoded hleft hsent => exact ⟨_, hsent⟩
  | finished => exact List.prefix_rfl

theorem got_stream (h : Server kernel t₀ reqs p got sent) :
    (p.decoded = [] ∧ got = []) ∨ requestStream p.decoded <+: got := by
  cases h with
  | command => exact Or.inl ⟨rfl, rfl⟩
  | reading => exact Or.inr (List.prefix_append _ _)
  | serving => exact Or.inr List.prefix_rfl
  | finished => exact Or.inr List.prefix_rfl

theorem got_eq (h : Server kernel t₀ reqs p got sent) :
    p.part.length < vmRegionReqSize ∧
      got = (if p.phase = .command then [] else requestStream p.decoded) ++ p.part := by
  cases h with
  | command => exact ⟨vmRegionReqSize_pos, rfl⟩
  | reading hdecoded hbuf => exact ⟨hbuf, rfl⟩
  | serving => exact ⟨vmRegionReqSize_pos, (List.append_nil _).symm⟩
  | finished => exact ⟨vmRegionReqSize_pos, (List.append_nil _).symm⟩

theorem decoded_of_command (h : Server kernel t₀ reqs p got sent) (hphase : p.phase = .command) :
    p.decoded = [] := by
  cases h with
  | command => rfl
  | reading => cases hphase
  | serving => cases hphase
  | finished => cases hphase

theorem of_command (h : Server kernel t₀ reqs p got sent) (hphase : p.phase = .command) :
    got = [] := by
  cases h with
  | command => rfl
  | reading => cases hphase
  | serving => cases hphase
  | finished => cases hphase

theorem of_reading {buf : List Byte} (h : Server kernel t₀ reqs p got sent)
    (hphase : p.phase = .reading buf) :
    buf.length < vmRegionReqSize ∧ got = requestStream p.decoded ++ buf ∧
      sent = (replies kernel t₀ p.decoded).flatten := by
  cases h with
  | command => cases hphase
  | reading hdecoded hbuf =>
      cases hphase
      exact ⟨hbuf, rfl, rfl⟩
  | serving => cases hphase
  | finished => cases hphase

theorem of_serving {req : VmRegionReq} {chunk : List Byte} {rest : List (List Byte)}
    (h : Server kernel t₀ reqs p got sent) (hphase : p.phase = .serving req (chunk :: rest)) :
    chunk ≠ [] := by
  cases h with
  | command => cases hphase
  | reading => cases hphase
  | serving hdecoded hleft =>
      cases hphase
      exact hleft chunk (by simp)
  | finished => cases hphase

theorem of_finished (h : Server kernel t₀ reqs p got sent) (hphase : p.phase = .finished) :
    p.decoded = reqs ∧ p.target = after kernel t₀ reqs ∧ got = requestStream reqs := by
  cases h with
  | command => cases hphase
  | reading => cases hphase
  | serving => cases hphase
  | finished => exact ⟨rfl, rfl, rfl⟩

end Server

/-- What memcr leaves in the socket when it closes it: the requests `rest`, which
are those that the parasite has not decoded. The parasite has read at most a part
of the first of them. -/
structure LeftBehind (reqs rest : List VmRegionReq) (s : Session) : Prop where
  undecoded : reqs = s.parasite.decoded ++ rest
  unanswered : ∀ req ∈ rest, req.replyLength = 0
  part_lt : s.parasite.part.length < vmRegionReqSize
  bytes : s.parasite.part ++ s.requests.pending =
    (if s.parasite.phase = .command then [MemcrCmd.cmdGetPages.byte] else []) ++
      rest.flatMap VmRegionReq.bytes

/-- The two processes agree on the streams between them. -/
structure Lockstep (kernel : Kernel) (t₀ : Target) (reqs : List VmRegionReq) (s : Session) :
    Prop where
  sender : Sender reqs s.memcr s.requests.sent s.replies.got
  server : Server kernel t₀ reqs s.parasite s.requests.got s.replies.sent
  ended : s.parasite.phase = .finished → s.memcr.phase = .closed

namespace Lockstep

variable {kernel : Kernel} {t₀ : Target} {reqs : List VmRegionReq} {s t : Session} {n : Nat}

theorem start : Lockstep kernel t₀ reqs (Session.start t₀ reqs) where
  sender := Sender.command
  server := Server.command
  ended h := by cases h

theorem not_finished (h : Lockstep kernel t₀ reqs s) (hphase : s.memcr.phase ≠ .closed) :
    s.parasite.phase ≠ .finished :=
  fun hfinished => hphase (h.ended hfinished)

theorem memcrTransfer (hsendable : ∀ req ∈ reqs, Sendable req) (h : Lockstep kernel t₀ reqs s)
    (hstep : RequestStream.memcrTransfer kernel s n = some t) : Lockstep kernel t₀ reqs t := by
  rcases memcrTransfer_cases hstep with ⟨hphase, -, rfl⟩ |
    ⟨off, req, rest, hphase, htodo, -, hfit, rfl⟩ |
    ⟨buf, req, rest, hphase, htodo, -, hfit, hpending, rfl⟩
  · have hrunning := h.not_finished (by simp [hphase])
    refine ⟨?_, h.server, fun hfinished => absurd hfinished hrunning⟩
    simpa using h.sender.afterCommand hphase
  · have hrunning := h.not_finished (by simp [hphase])
    refine ⟨?_, h.server, fun hfinished => absurd hfinished hrunning⟩
    simpa using h.sender.sendOn hsendable hphase htodo hfit
  · have hrunning := h.not_finished (by simp [hphase])
    refine ⟨?_, by simpa using h.server, fun hfinished => absurd hfinished hrunning⟩
    rw [Pipe.got_pull]
    exact h.sender.receiveOn hphase htodo (by rw [List.length_take]; omega)

theorem parasiteTransfer (hsendable : ∀ req ∈ reqs, Sendable req)
    (h : Lockstep kernel t₀ reqs s)
    (hstep : RequestStream.parasiteTransfer kernel s n = some t) : Lockstep kernel t₀ reqs t := by
  rcases parasiteTransfer_cases hstep with ⟨hphase, -, hbyte, rfl⟩ |
    ⟨buf, hphase, -, hfit, hpending, rfl⟩ | ⟨req, chunk, rest, hphase, -, -, rfl⟩
  · refine ⟨by simpa using h.sender, ?_, fun hfinished => by cases hfinished⟩
    rw [Pipe.got_pull, hbyte]
    exact h.server.afterCommand hphase
  · have hstream : s.requests.got ++ s.requests.pending.take n <+: requestStream reqs := by
      rw [← Pipe.got_pull]
      exact ((s.requests.pull n).got_prefix_sent.trans
        (by rw [Pipe.sent_pull])).trans h.sender.sent_begins
    refine ⟨by simpa using h.sender, ?_, ?_⟩
    · rw [Pipe.got_pull]
      exact h.server.readOn hsendable hphase hstream (by rw [List.length_take]; omega)
    · intro hfinished
      dsimp only [ParasiteSide.readOn] at hfinished
      split at hfinished <;> cases hfinished
  · refine ⟨h.sender, ?_, fun hfinished => by cases hfinished⟩
    simpa using h.server.writeOn hphase

theorem close (h : Lockstep kernel t₀ reqs s) (hphase : s.memcr.phase = .sending 0)
    (htodo : s.memcr.todo = []) :
    Lockstep kernel t₀ reqs { s with memcr := { s.memcr with phase := .closed } } where
  sender := h.sender.close htodo hphase
  server := h.server
  ended _ := rfl

theorem endOfFile (h : Lockstep kernel t₀ reqs s) (hphase : s.parasite.phase = .reading [])
    (hempty : s.requests.pending = []) (hup : s.memcr.phase.hungUp = true) :
    Lockstep kernel t₀ reqs { s with parasite := { s.parasite with phase := .finished } } := by
  obtain ⟨hclosed, hsent⟩ := h.sender.closed_of_hungUp hup
  refine ⟨h.sender, h.server.finish hphase ?_, fun _ => hclosed⟩
  rw [Pipe.got_eq_sent hempty, hsent]

theorem step (hsendable : ∀ req ∈ reqs, Sendable req) {c : Choice}
    (h : Lockstep kernel t₀ reqs s) (hstep : RequestStream.step kernel s c = some t) :
    Lockstep kernel t₀ reqs t := by
  cases c with
  | again =>
      dsimp only [RequestStream.step] at hstep
      split at hstep
      · cases hstep
      · exact Option.some.inj hstep ▸ h
  | memcr n => exact h.memcrTransfer hsendable hstep
  | close =>
      dsimp only [RequestStream.step] at hstep
      split at hstep
      · rename_i hguard
        exact Option.some.inj hstep ▸ h.close hguard.1 hguard.2
      · cases hstep
  | parasite n => exact h.parasiteTransfer hsendable hstep
  | endOfFile =>
      dsimp only [RequestStream.step] at hstep
      split at hstep
      · rename_i hguard
        exact Option.some.inj hstep ▸ h.endOfFile hguard.1 hguard.2.1 hguard.2.2
      · cases hstep
  | madvise =>
      dsimp only [RequestStream.step] at hstep
      split at hstep
      · rename_i req hphase
        refine Option.some.inj hstep ▸ ⟨h.sender, h.server.advise hphase, ?_⟩
        intro hfinished
        cases hfinished
      · cases hstep

theorem run (hsendable : ∀ req ∈ reqs, Sendable req) {choices : List Choice}
    (hrun : GuardedRuns.run (RequestStream.step kernel) (Session.start t₀ reqs) choices = some s) :
    Lockstep kernel t₀ reqs s :=
  invariant_of_run (fun _ _ _ hinv hnext => hinv.step hsendable hnext) start hrun

theorem decoded_begins (h : Lockstep kernel t₀ reqs s) : s.parasite.decoded <+: reqs :=
  h.server.decoded_begins

theorem received_begins (h : Lockstep kernel t₀ reqs s) :
    s.memcr.received <+: replies kernel t₀ reqs := by
  obtain ⟨past, hpast, hlengths, hgot⟩ := h.sender.done
  have hreplies : replies kernel t₀ past <+: replies kernel t₀ reqs := replies_mono hpast
  have hbytes : s.memcr.received.flatten <+: (replies kernel t₀ reqs).flatten :=
    ((hgot.trans s.replies.got_prefix_sent).trans h.server.sent_begins).trans
      (replies_mono h.decoded_begins).flatten
  have hsame : s.memcr.received.map List.length = (replies kernel t₀ past).map List.length := by
    rw [hlengths, replies_map_length]
  have hlength : s.memcr.received.flatten.length = (replies kernel t₀ past).flatten.length := by
    rw [List.length_flatten, List.length_flatten, hsame]
  have hflat : s.memcr.received.flatten = (replies kernel t₀ past).flatten :=
    (List.prefix_of_prefix_length_le hbytes hreplies.flatten hlength.le).eq_of_length hlength
  rw [List.eq_iff_flatten_eq.mpr ⟨hflat, hsame⟩]
  exact hreplies

/-- The parasite is not ahead of the requests memcr is done with, while memcr has
not sent another one whole. -/
theorem decoded_behind {past : List VmRegionReq} (h : Lockstep kernel t₀ reqs s)
    (hpast : past <+: reqs)
    (hshort : s.requests.sent.length < 1 + vmRegionReqSize * (past.length + 1)) :
    s.parasite.decoded <+: past := by
  rcases h.server.got_stream with ⟨hnone, -⟩ | hgot
  · rw [hnone]
    exact List.nil_prefix
  · apply List.prefix_of_prefix_length_le h.decoded_begins hpast
    have hsent := (hgot.trans s.requests.got_prefix_sent).length_le
    simp only [requestStream_length, vmRegionReqSize] at hsent hshort
    omega

theorem quiet (h : Lockstep kernel t₀ reqs s) (hphase : ∀ buf, s.memcr.phase ≠ .receiving buf) :
    s.replies.pending = [] := by
  obtain ⟨past, hpast, hlengths, hgot, hshort⟩ := h.sender.quiet hphase
  have hdecoded : s.parasite.decoded <+: past := h.decoded_behind hpast hshort
  apply Pipe.pending_eq_nil_of_le
  calc s.replies.sent.length
      ≤ (replies kernel t₀ s.parasite.decoded).flatten.length := h.server.sent_begins.length_le
    _ ≤ (replies kernel t₀ past).flatten.length := (replies_mono hdecoded).flatten.length_le
    _ = s.replies.got.length := by
        rw [hgot, List.length_flatten, List.length_flatten, hlengths, replies_map_length]

/-- All replies have been read once memcr has closed the connection, so a request
that the parasite has not decoded has none. -/
theorem unanswered_of_closed {rest : List VmRegionReq} (h : Lockstep kernel t₀ reqs s)
    (hphase : s.memcr.phase = .closed) (hrest : s.parasite.decoded ++ rest = reqs) :
    ∀ req ∈ rest, req.replyLength = 0 := by
  obtain ⟨hlengths, -, hgot⟩ := h.sender.of_closed hphase
  have hle : (reqs.map VmRegionReq.replyLength).sum ≤
      (s.parasite.decoded.map VmRegionReq.replyLength).sum :=
    calc (reqs.map VmRegionReq.replyLength).sum
        = s.replies.got.length := by rw [hgot, List.length_flatten, hlengths]
      _ ≤ s.replies.sent.length := s.replies.got_prefix_sent.length_le
      _ ≤ (replies kernel t₀ s.parasite.decoded).flatten.length :=
          h.server.sent_begins.length_le
      _ = (s.parasite.decoded.map VmRegionReq.replyLength).sum := by
          rw [List.length_flatten, replies_map_length]
  rw [← hrest, List.map_append, List.sum_append] at hle
  have hzero : (rest.map VmRegionReq.replyLength).sum = 0 := by omega
  intro req hreq
  exact List.sum_eq_zero_iff_forall_eq_nat.mp hzero _ (List.mem_map_of_mem hreq)

theorem leftBehind (h : Lockstep kernel t₀ reqs s) (hphase : s.memcr.phase = .closed) :
    ∃ rest, LeftBehind reqs rest s := by
  obtain ⟨rest, hrest⟩ := h.decoded_begins
  obtain ⟨hpart, hgot⟩ := h.server.got_eq
  refine ⟨rest, hrest.symm, h.unanswered_of_closed hphase hrest, hpart, ?_⟩
  obtain ⟨-, hsent, -⟩ := h.sender.of_closed hphase
  rw [Pipe.sent, hgot, ← hrest, List.append_assoc] at hsent
  split at hsent
  · rename_i hcommand
    rw [h.server.decoded_of_command hcommand] at hsent
    rw [if_pos hcommand]
    exact hsent
  · rename_i hread
    rw [if_neg hread]
    simpa [requestStream, commandStream] using hsent

theorem at_close (h : Lockstep kernel t₀ reqs s) (hphase : s.memcr.phase = .closed) :
    s.memcr.received = replies kernel t₀ reqs ∧ s.replies.pending = [] ∧
      ∃ rest, LeftBehind reqs rest s := by
  obtain ⟨hlengths, -⟩ := h.sender.of_closed hphase
  refine ⟨?_, h.quiet (by simp [hphase]), h.leftBehind hphase⟩
  apply h.received_begins.eq_of_length
  have hcount := congrArg List.length hlengths
  have hall : ((replies kernel t₀ reqs).map List.length).length = reqs.length := by
    rw [replies_map_length, List.length_map]
  simp only [List.length_map] at hcount hall
  omega

theorem at_end (h : Lockstep kernel t₀ reqs s) (hphase : s.parasite.phase = .finished) :
    s.memcr.phase = .closed ∧ s.parasite.decoded = reqs ∧ s.requests.pending = [] ∧
      s.parasite.target = after kernel t₀ reqs := by
  obtain ⟨hdecoded, htarget, hgot⟩ := h.server.of_finished hphase
  refine ⟨h.ended hphase, hdecoded, Pipe.pending_eq_nil_of_le ?_, htarget⟩
  rw [hgot]
  exact h.sender.sent_begins.length_le

/-- A request that memcr has sent whole and the parasite has read whole is
answered. -/
theorem reply_on_its_way {past : List VmRegionReq} {req : VmRegionReq} {buf : List Byte}
    (h : Lockstep kernel t₀ reqs s) (hbegins : past ++ [req] <+: reqs)
    (hsent : s.requests.sent = requestStream (past ++ [req])) (hread : s.requests.pending = [])
    (hphase : s.parasite.phase = .reading buf)
    (hwaits : s.replies.got.length < ((past ++ [req]).map VmRegionReq.replyLength).sum) :
    s.replies.pending ≠ [] := by
  intro hnone
  obtain ⟨hbuf, hgot, hreplies⟩ := h.server.of_reading hphase
  have hlengths : (requestStream (past ++ [req])).length =
      (requestStream s.parasite.decoded ++ buf).length := by
    rw [← hgot, ← hsent, Pipe.got_eq_sent hread]
  have hcount : s.parasite.decoded.length = (past ++ [req]).length := by
    simp only [List.length_append, requestStream_length, vmRegionReqSize] at hlengths hbuf ⊢
    omega
  have hdecoded : s.parasite.decoded = past ++ [req] :=
    (List.prefix_of_prefix_length_le h.decoded_begins hbegins hcount.le).eq_of_length hcount
  rw [Pipe.got_eq_sent hnone, hreplies, List.length_flatten, replies_map_length, hdecoded]
    at hwaits
  exact lt_irrefl _ hwaits

theorem memcr_enabled {buf : List Byte} (h : Lockstep kernel t₀ reqs s)
    (hread : s.requests.pending = []) (hphase : s.parasite.phase = .reading buf) :
    ∃ c, c ≠ .again ∧ (RequestStream.step kernel s c).isSome = true := by
  obtain ⟨hbuf, hgot, -⟩ := h.server.of_reading hphase
  rw [Pipe.got_eq_sent hread] at hgot
  rcases h.sender.position with ⟨hcommand, hsent⟩ | ⟨off, req, rest, hsending, htodo, hoff⟩ |
    ⟨past, reply, req, rest, hreceiving, htodo, hreply, hbegins, hsent, hwaits⟩ |
    ⟨hidle, htodo⟩ | ⟨hclosed, hsent⟩
  · rw [hsent] at hgot
    simp [requestStream, commandStream] at hgot
  · refine ⟨.memcr 1, by simp, ?_⟩
    have hguard : off + 1 ≤ vmRegionReqSize ∧ s.requests.pending.length + 1 ≤ kernel.requestRoom :=
      ⟨hoff, by rw [hread]; exact kernel.requestRoom_pos⟩
    simp [RequestStream.step, RequestStream.memcrTransfer, hsending, htodo, hguard]
  · have hpending := h.reply_on_its_way hbegins hsent hread hphase hwaits
    refine ⟨.memcr 1, by simp, ?_⟩
    have hguard : reply.length + 1 ≤ req.len ∧ 1 ≤ s.replies.pending.length :=
      ⟨hreply, List.length_pos_iff.mpr hpending⟩
    simp [RequestStream.step, RequestStream.memcrTransfer, hreceiving, htodo, hguard]
  · exact ⟨.close, by simp, by simp [RequestStream.step, hidle, htodo]⟩
  · obtain rfl : buf = [] := by
      have hlengths := congrArg List.length (hsent.symm.trans hgot)
      simp only [List.length_append, requestStream_length, vmRegionReqSize] at hlengths hbuf
      exact List.eq_nil_of_length_eq_zero (by omega)
    exact ⟨.endOfFile, by simp,
      by simp [RequestStream.step, hphase, hread, hclosed, MemcrPhase.hungUp]⟩

/-- Somebody can go on as long as the parasite has not seen the end of the
connection. -/
theorem enabled (h : Lockstep kernel t₀ reqs s) (hphase : s.parasite.phase ≠ .finished) :
    ∃ c, c ≠ .again ∧ (RequestStream.step kernel s c).isSome = true := by
  cases hparasite : s.parasite.phase with
  | finished => exact absurd hparasite hphase
  | command =>
      have hgot := h.server.of_command hparasite
      cases hpending : s.requests.pending with
      | nil =>
          have hsent : s.requests.sent = [] := by rw [Pipe.sent, hgot, hpending, List.nil_append]
          have hcommand := h.sender.command_of_nil hsent
          refine ⟨.memcr 1, by simp, ?_⟩
          have hguard : s.requests.pending.length + 1 ≤ kernel.requestRoom := by
            rw [hpending]
            exact kernel.requestRoom_pos
          simp [RequestStream.step, RequestStream.memcrTransfer, hcommand, hguard]
      | cons b rest =>
          have hstream : b :: rest <+: requestStream reqs := by
            have := h.sender.sent_begins
            rwa [Pipe.sent, hgot, hpending, List.nil_append] at this
          have hbyte : b = MemcrCmd.cmdGetPages.byte := (List.cons_prefix_cons.mp hstream).1
          refine ⟨.parasite 1, by simp, ?_⟩
          simp [RequestStream.step, RequestStream.parasiteTransfer, hparasite, hpending, hbyte]
  | reading buf =>
      by_cases hread : s.requests.pending = []
      · exact h.memcr_enabled hread hparasite
      · refine ⟨.parasite 1, by simp, ?_⟩
        have hguard : buf.length + 1 ≤ vmRegionReqSize ∧ 1 ≤ s.requests.pending.length :=
          ⟨(h.server.of_reading hparasite).1, List.length_pos_iff.mpr hread⟩
        simp [RequestStream.step, RequestStream.parasiteTransfer, hparasite, hguard]
  | serving req left =>
      cases left with
      | nil => exact ⟨.madvise, by simp, by simp [RequestStream.step, hparasite]⟩
      | cons chunk rest =>
          by_cases hread : s.replies.pending = []
          · refine ⟨.parasite 1, by simp, ?_⟩
            have hchunk : chunk ≠ [] := h.server.of_serving hparasite
            have hguard : 1 ≤ chunk.length ∧ s.replies.pending.length + 1 ≤ kernel.replyRoom :=
              ⟨List.length_pos_iff.mpr hchunk, by rw [hread]; exact kernel.replyRoom_pos⟩
            simp [RequestStream.step, RequestStream.parasiteTransfer, hparasite, hguard]
          · obtain ⟨buf, hreceiving⟩ : ∃ buf, s.memcr.phase = .receiving buf := by
              by_contra hnone
              exact hread (h.quiet fun buf hbuf => hnone ⟨buf, hbuf⟩)
            obtain ⟨req', rest', htodo, hbuf⟩ := h.sender.of_receiving hreceiving
            refine ⟨.memcr 1, by simp, ?_⟩
            have hguard : buf.length + 1 ≤ req'.len ∧ 1 ≤ s.replies.pending.length :=
              ⟨hbuf, List.length_pos_iff.mpr hread⟩
            simp [RequestStream.step, RequestStream.memcrTransfer, hreceiving, htodo, hguard]

end Lockstep

section Bound

variable {kernel : Kernel} {s t : Session} {n : Nat}

/-- The phases of the parasite for one request, counted. -/
def phaseProgress : ParasitePhase → Nat
  | .serving _ _ => 0
  | .finished => 2
  | _ => 1

/-- How far a session has come. -/
def progress (s : Session) : Nat :=
  s.requests.traffic + s.replies.traffic + (if s.memcr.phase = .closed then 1 else 0) +
    (2 * s.parasite.decoded.length + phaseProgress s.parasite.phase)

theorem progress_memcrTransfer (h : memcrTransfer kernel s n = some t) :
    progress s + 1 ≤ progress t := by
  rcases memcrTransfer_cases h with ⟨hphase, -, rfl⟩ |
    ⟨off, req, rest, hphase, -, hn, hfit, rfl⟩ | ⟨buf, req, rest, hphase, -, hn, -, hpending, rfl⟩
  · simp only [progress, Pipe.traffic_push, List.length_singleton, hphase, reduceCtorEq, if_false]
    omega
  · have hpiece : ((req.bytes.drop off).take n).length = n := by
      rw [List.length_take, List.length_drop, VmRegionReq.bytes_length]
      omega
    simp only [progress, Pipe.traffic_push, hpiece, hphase, reduceCtorEq, if_false]
    omega
  · simp only [progress, Pipe.traffic_pull hpending, hphase, reduceCtorEq, if_false]
    omega

theorem progress_readOn {p : ParasiteSide} {old : List Byte} (hphase : p.phase = .reading old)
    (buf : List Byte) :
    2 * p.decoded.length + phaseProgress p.phase ≤
      2 * (p.readOn buf).decoded.length + phaseProgress (p.readOn buf).phase := by
  rw [ParasiteSide.readOn, hphase]
  split
  · exact le_rfl
  · simp only [phaseProgress, List.length_append, List.length_singleton]
    omega

theorem progress_parasiteTransfer (h : parasiteTransfer kernel s n = some t) :
    progress s + 1 ≤ progress t := by
  rcases parasiteTransfer_cases h with ⟨hphase, rfl, hbyte, rfl⟩ |
    ⟨buf, hphase, hn, -, hpending, rfl⟩ | ⟨req, chunk, rest, hphase, hn, hfit, rfl⟩
  · have hpending : 1 ≤ s.requests.pending.length := by
      have hlength := congrArg List.length hbyte
      rw [List.length_take, List.length_singleton] at hlength
      omega
    simp only [progress, Pipe.traffic_pull hpending, hphase, phaseProgress]
    omega
  · have hread := progress_readOn hphase (buf ++ s.requests.pending.take n)
    simp only [progress, Pipe.traffic_pull hpending]
    omega
  · have hpiece : (chunk.take n).length = n := by
      rw [List.length_take]
      omega
    simp only [progress, Pipe.traffic_push, hpiece, hphase, phaseProgress]
    omega

theorem progress_step {c : Choice} (h : step kernel s c = some t) :
    progress s + (if c ≠ .again then 1 else 0) ≤ progress t := by
  cases c with
  | again =>
      dsimp only [step] at h
      split at h
      · cases h
      · cases h
        simp
  | memcr n => simpa using progress_memcrTransfer h
  | close =>
      dsimp only [step] at h
      split at h
      · rename_i hguard
        cases h
        simp only [progress, hguard.1, ne_eq, reduceCtorEq, not_false_eq_true, if_true, if_false]
        omega
      · cases h
  | parasite n => simpa using progress_parasiteTransfer h
  | endOfFile =>
      dsimp only [step] at h
      split at h
      · rename_i hguard
        cases h
        simp only [progress, hguard.1, phaseProgress, ne_eq, reduceCtorEq, not_false_eq_true,
          if_true]
        omega
      · cases h
  | madvise =>
      dsimp only [step] at h
      split at h
      · rename_i hphase
        cases h
        simp only [progress, hphase, phaseProgress, ne_eq, reduceCtorEq, not_false_eq_true, if_true]
        omega
      · cases h

/-- The number of steps that a session with these requests takes at most, retries
of memcr apart. -/
def work (reqs : List VmRegionReq) : Nat :=
  2 * (requestStream reqs).length + 2 * (reqs.map VmRegionReq.replyLength).sum + 2 * reqs.length + 2

theorem Lockstep.progress_le {t₀ : Target} {reqs : List VmRegionReq}
    (h : Lockstep kernel t₀ reqs s) : progress s ≤ work reqs + 1 := by
  have hrequests : s.requests.traffic ≤ 2 * (requestStream reqs).length :=
    s.requests.traffic_le.trans (Nat.mul_le_mul_left 2 h.sender.sent_begins.length_le)
  have hreplies : s.replies.sent.length ≤ (reqs.map VmRegionReq.replyLength).sum := by
    have hsent := h.server.sent_begins.trans (replies_mono h.decoded_begins).flatten
    rw [← replies_map_length, ← List.length_flatten]
    exact hsent.length_le
  have htraffic := s.replies.traffic_le
  have hdecoded := h.decoded_begins.length_le
  have hphase : phaseProgress s.parasite.phase ≤ 2 := by
    cases s.parasite.phase <;> simp [phaseProgress]
  simp only [progress, work]
  split
  · omega
  · omega

end Bound

/-- What holds at any moment of a session with the given requests. -/
structure InStep (kernel : Kernel) (t₀ : Target) (reqs : List VmRegionReq) (s : Session) :
    Prop where
  decoded : s.parasite.decoded <+: reqs
  received : s.memcr.received <+: replies kernel t₀ reqs
  /-- Once memcr has closed the connection. -/
  closed : s.memcr.phase = .closed →
    s.memcr.received = replies kernel t₀ reqs ∧ s.replies.pending = [] ∧
      ∃ rest, LeftBehind reqs rest s
  /-- Once the parasite has seen its end. -/
  finished : s.parasite.phase = .finished →
    s.memcr.phase = .closed ∧ s.parasite.decoded = reqs ∧ s.requests.pending = [] ∧
      s.parasite.target = after kernel t₀ reqs
  /-- Until then one of the two can go on. -/
  goesOn : s.parasite.phase ≠ .finished →
    ∃ c, c ≠ .again ∧ (step kernel s c).isSome = true

/-- Requests and replies are not mixed up by any fragmentation, and a session
comes to its end. -/
theorem requests_in_lockstep (kernel : Kernel) (t₀ : Target) (reqs : List VmRegionReq)
    (hsendable : ∀ req ∈ reqs, Sendable req) (choices : List Choice) (s : Session)
    (hrun : run (step kernel) (Session.start t₀ reqs) choices = some s) :
    InStep kernel t₀ reqs s ∧ choices.countP (fun c => c ≠ .again) ≤ work reqs := by
  have h : Lockstep kernel t₀ reqs s := Lockstep.run hsendable hrun
  refine ⟨⟨h.decoded_begins, h.received_begins, h.at_close, h.at_end,
    h.enabled⟩, ?_⟩
  have hcount : progress (Session.start t₀ reqs) + choices.countP (fun c => c ≠ .again) ≤
      progress s :=
    countP_le_of_run (fun _ _ _ hnext => by simpa using progress_step hnext) hrun
  have hstart : progress (Session.start t₀ reqs) = 1 := rfl
  have hle := h.progress_le
  omega

def smallKernel : Kernel where
  pageSize := 4
  dropEntries := fun table _ => table
  requestRoom := 16
  replyRoom := 3
  requestRoom_pos := Nat.succ_pos 15
  replyRoom_pos := Nat.succ_pos 2

def smallTarget : Target where
  mem := UInt8.ofNat
  table := tinyEnv.table

def regionReq (len : BitVec 64) (tx : Bool) : VmRegionReq := .mem ⟨4, len⟩ tx 0

theorem regionReq_sendable : ∀ req ∈ [regionReq 4 true, regionReq 4 false], Sendable req := by
  intro req hreq
  rcases List.mem_cons.mp hreq with rfl | hreq
  · exact ⟨by decide, by decide⟩
  · obtain rfl := List.mem_singleton.mp hreq
    exact ⟨by decide, by decide⟩

/-- One region is sent and another one only dropped, in pieces. -/
def piecemeal : List Choice :=
  [.again, .memcr 1, .parasite 1, .memcr 10, .memcr 6, .again, .parasite 5, .memcr 5, .parasite 16,
    .memcr 7, .parasite 7, .again, .parasite 3, .memcr 2, .parasite 1, .memcr 2, .memcr 16,
    .madvise, .parasite 16, .memcr 12, .close, .parasite 12, .madvise, .endOfFile]

theorem requests_in_lockstep_piecemeal :
    ∃ s, run (step smallKernel)
        (Session.start smallTarget [regionReq 4 true, regionReq 4 false]) piecemeal = some s ∧
      s.parasite.phase = .finished ∧ s.memcr.received = [[4, 5, 6, 7], []] ∧
      InStep smallKernel smallTarget [regionReq 4 true, regionReq 4 false] s ∧
      piecemeal.countP (fun c => c ≠ .again) ≤ work [regionReq 4 true, regionReq 4 false] := by
  refine ⟨_, rfl, rfl, rfl, ?_⟩
  exact requests_in_lockstep smallKernel smallTarget _ regionReq_sendable
    piecemeal _ rfl

theorem close_leaves_request_behind :
    (¬ ∀ (kernel : Kernel) (t₀ : Target) (reqs : List VmRegionReq), (∀ req ∈ reqs, Sendable req) →
      ∀ (choices : List Choice) (s : Session),
        run (step kernel) (Session.start t₀ reqs) choices = some s → s.memcr.phase = .closed →
          s.requests.pending = [] ∧ s.replies.pending = []) ∧
    (run (step smallKernel) (Session.start smallTarget [regionReq 0 true])
      [.memcr 1, .parasite 1, .memcr 16, .parasite 16, .memcr 12]).map (·.memcr.phase) =
        some .aborted := by
  refine ⟨?_, rfl⟩
  intro hall
  have hsendable : ∀ req ∈ [regionReq 4 false], Sendable req :=
    fun req hreq => regionReq_sendable req (List.mem_cons_of_mem _ hreq)
  obtain ⟨hempty, -⟩ := hall smallKernel smallTarget [regionReq 4 false]
    hsendable [.memcr 1, .parasite 1, .memcr 16, .parasite 16, .memcr 12, .close] _ rfl rfl
  have hleft := congrArg List.length hempty
  exact absurd hleft (by decide)

end Memcr.RequestLockstep
