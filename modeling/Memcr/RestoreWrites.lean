import Memcr.RestoreConnections

namespace Memcr.RestoreWrites

open Memcr.ByteWords
open Memcr.ByteMemory
open Memcr.GuardedRuns
open Memcr.RegionRequests
open Memcr.RestoreConnections

/-- What a whole job sends. -/
def itemStream (job : Job) (items : List Item) : List Byte :=
  commandStream job.cmd Item.bytes items

theorem itemStream_snoc (job : Job) (items : List Item) (item : Item) :
    itemStream job (items ++ [item]) = itemStream job items ++ item.bytes :=
  commandStream_snoc _ _ items item

theorem headerSize_pos (cmd : MemcrCmd) : 0 < headerSize cmd := by
  cases cmd <;> decide

theorem header_length (item : Item) : item.header.length = headerSize item.cmd := by
  cases item with
  | upload u => exact VmRegionReq.bytes_length u.req
  | protect req => exact VmMprotect.bytes_length req

theorem header_le_bytes (item : Item) : headerSize item.cmd ≤ item.bytes.length := by
  rw [Item.bytes, List.length_append, header_length]
  omega

theorem bytes_pos (item : Item) : 0 < item.bytes.length :=
  (headerSize_pos item.cmd).trans_le (header_le_bytes item)

theorem cmd_ne_cmdEnd (item : Item) : item.cmd ≠ .cmdEnd := by
  cases item <;> simp [Item.cmd]

/-- The bytes and the whole items written to a connection at some moment. -/
inductive Sent (job : Job) : List Byte → List Item → Prop
  | nothing : Sent job [] []
  | part {written : List Item} {more : List Byte} (hwritten : written <+: job.items)
      (hsent : itemStream job written ++ more <+: itemStream job job.items)
      (hshort : ∀ item, written ++ [item] <+: job.items → more.length < item.bytes.length) :
      Sent job (itemStream job written ++ more) written

theorem Sent.sent_begins {job : Job} {sent : List Byte} {written : List Item}
    (h : Sent job sent written) : sent <+: itemStream job job.items := by
  cases h with
  | nothing => exact List.nil_prefix
  | part hwritten hsent => exact hsent

/-- memcr has the connection open. -/
def Busy (s : State) (sd : Nat) : Prop :=
  s.memcr.phase = .command sd ∨ ∃ off todo, s.memcr.phase = .writing sd off todo

/-- Where memcr is on the connection it writes to. -/
inductive Position (s : State) : MemcrPhase → Prop
  | idle : Position s .idle
  | command {sd : Nat} {job : Job} {rest : List Job} (hsd : sd < s.opened)
      (hjobs : s.memcr.jobs = job :: rest)
      (hconn : s.conns sd = ⟨[], false, some job, []⟩) : Position s (.command sd)
  | writing {sd off : Nat} {job : Job} {rest : List Job} {item : Item}
      {written todo : List Item} (hsd : sd < s.opened) (hjobs : s.memcr.jobs = job :: rest)
      (hitems : job.items = written ++ item :: todo) (hoff : off < item.bytes.length)
      (hconn : s.conns sd =
        ⟨itemStream job written ++ item.bytes.take off, false, some job, written⟩) :
      Position s (.writing sd off (item :: todo))
  | whole {sd : Nat} {job : Job} {rest : List Job} (hsd : sd < s.opened)
      (hjobs : s.memcr.jobs = job :: rest)
      (hconn : s.conns sd = ⟨itemStream job job.items, false, some job, job.items⟩) :
      Position s (.writing sd 0 [])

theorem Position.mono {s t : State} {phase : MemcrPhase} (h : Position s phase)
    (hopened : s.opened ≤ t.opened) (hconns : ∀ i < s.opened, t.conns i = s.conns i)
    (hjobs : t.memcr.jobs = s.memcr.jobs) : Position t phase := by
  cases h with
  | idle => exact Position.idle
  | command hsd hjobs' hconn =>
      exact Position.command (hsd.trans_le hopened) (hjobs.trans hjobs')
        ((hconns _ hsd).trans hconn)
  | writing hsd hjobs' hitems hoff hconn =>
      exact Position.writing (hsd.trans_le hopened) (hjobs.trans hjobs') hitems hoff
        ((hconns _ hsd).trans hconn)
  | whole hsd hjobs' hconn =>
      exact Position.whole (hsd.trans_le hopened) (hjobs.trans hjobs')
        ((hconns _ hsd).trans hconn)

/-- The connection says `CMD_END`. -/
def Ends (c : Conn) : Prop := ∃ job, c.job = some job ∧ job.cmd = .cmdEnd

/-- What memcr has done so far. -/
structure Writer (r : Restore) (s : State) : Prop where
  jobs : ∀ job ∈ s.memcr.jobs, job ∈ r.jobs
  conns : ∀ i < s.opened, ∀ job, (s.conns i).job = some job →
    job ∈ r.jobs ∧ Sent job (s.conns i).sent (s.conns i).written
  strangers : ∀ i < s.opened, (s.conns i).job = none → ∃ e < i, Ends (s.conns e)
  ended : s.memcr.ended = true → ∃ e < s.opened, Ends (s.conns e)
  position : Position s s.memcr.phase

/-- Connections are only written to at their end, and not at all once closed. -/
structure Grows (s t : State) : Prop where
  opened : s.opened ≤ t.opened
  job : ∀ i < s.opened, (t.conns i).job = (s.conns i).job
  sent : ∀ i < s.opened, (s.conns i).sent <+: (t.conns i).sent
  closed : ∀ i < s.opened, (s.conns i).closed = true → t.conns i = s.conns i
  parasite : t.parasite = s.parasite

theorem grows_open {s t : State} {c : Conn} (hopened : t.opened = s.opened + 1)
    (hconns : t.conns = Function.update s.conns s.opened c) (hparasite : t.parasite = s.parasite) :
    Grows s t := by
  have hsame : ∀ i < s.opened, t.conns i = s.conns i := by
    intro i hi
    rw [hconns, Function.update_of_ne (by omega)]
  refine ⟨by omega, ?_, ?_, fun i hi _ => hsame i hi, hparasite⟩
  · intro i hi
    rw [hsame i hi]
  · intro i hi
    simp [hsame i hi]

theorem grows_update {s t : State} {sd : Nat} {c : Conn} (hopened : t.opened = s.opened)
    (hconns : t.conns = Function.update s.conns sd c) (hparasite : t.parasite = s.parasite)
    (hopen : (s.conns sd).closed = false) (hjob : c.job = (s.conns sd).job)
    (hsent : (s.conns sd).sent <+: c.sent) : Grows s t := by
  have hother : ∀ i, i ≠ sd → t.conns i = s.conns i := by
    intro i hi
    rw [hconns, Function.update_of_ne hi]
  have hself : t.conns sd = c := by rw [hconns, Function.update_self]
  refine ⟨hopened.ge, ?_, ?_, ?_, hparasite⟩
  · intro i _
    by_cases hi : i = sd
    · rw [hi, hself, hjob]
    · rw [hother i hi]
  · intro i _
    by_cases hi : i = sd
    · rw [hi, hself]
      exact hsent
    · simp [hother i hi]
  · intro i _ hclosed
    apply hother i
    rintro rfl
    rw [hopen] at hclosed
    cases hclosed

namespace Writer

variable {r : Restore} {s t : State}

theorem start (mem : Memory) : Writer r (State.start r mem) where
  jobs _ h := h
  conns i hi := absurd hi (Nat.not_lt_zero i)
  strangers i hi := absurd hi (Nat.not_lt_zero i)
  ended h := by cases h
  position := Position.idle

theorem congr (h : Writer r s) (hopened : t.opened = s.opened) (hconns : t.conns = s.conns)
    (hmemcr : t.memcr = s.memcr) : Writer r t := by
  have hposition : Position t t.memcr.phase := by
    rw [hmemcr]
    exact h.position.mono hopened.ge (fun i _ => by rw [hconns]) (by rw [hmemcr])
  obtain ⟨opened, conns, memcr, parasite⟩ := t
  dsimp only at hopened hconns hmemcr hposition
  subst hopened hconns hmemcr
  exact ⟨h.jobs, h.conns, h.strangers, h.ended, hposition⟩

theorem update {sd : Nat} {c : Conn} {job : Job} (h : Writer r s) (hopened : t.opened = s.opened)
    (hconns : t.conns = Function.update s.conns sd c)
    (hold : (s.conns sd).job = some job) (hnew : c.job = some job)
    (hsent : sd < s.opened → Sent job c.sent c.written)
    (hjobs : ∀ job ∈ t.memcr.jobs, job ∈ r.jobs)
    (hended : t.memcr.ended = true → s.memcr.ended = true ∨ sd < s.opened ∧ job.cmd = .cmdEnd)
    (hposition : Position t t.memcr.phase) : Writer r t := by
  have hself : t.conns sd = c := by rw [hconns, Function.update_self]
  have hother : ∀ i, i ≠ sd → t.conns i = s.conns i := by
    intro i hi
    rw [hconns, Function.update_of_ne hi]
  have hjob : ∀ i, (t.conns i).job = (s.conns i).job := by
    intro i
    by_cases hi : i = sd
    · rw [hi, hself, hnew, hold]
    · rw [hother i hi]
  have hends : ∀ i, Ends (s.conns i) → Ends (t.conns i) := by
    rintro i ⟨job', hjob', hcmd⟩
    exact ⟨job', (hjob i).trans hjob', hcmd⟩
  refine ⟨hjobs, ?_, ?_, ?_, hposition⟩
  · intro i hi job' hjob'
    rw [hopened] at hi
    by_cases heq : i = sd
    · subst heq
      rw [hself, hnew, Option.some.injEq] at hjob'
      subst hjob'
      rw [hself]
      exact ⟨(h.conns i hi job hold).1, hsent hi⟩
    · rw [hother i heq] at hjob' ⊢
      exact h.conns i hi job' hjob'
  · intro i hi hnone
    rw [hjob i] at hnone
    obtain ⟨e, he, hend⟩ := h.strangers i (hopened ▸ hi) hnone
    exact ⟨e, he, hends e hend⟩
  · intro hend
    rw [hopened]
    rcases hended hend with hbefore | ⟨hsd, hcmd⟩
    · obtain ⟨e, he, hends'⟩ := h.ended hbefore
      exact ⟨e, he, hends e hends'⟩
    · exact ⟨sd, hsd, job, by rw [hself, hnew], hcmd⟩

theorem extend {c : Conn} (h : Writer r s) (hopened : t.opened = s.opened + 1)
    (hconns : t.conns = Function.update s.conns s.opened c)
    (hnew : ∀ job, c.job = some job → job ∈ r.jobs ∧ Sent job c.sent c.written)
    (hstranger : c.job = none → ∃ e < s.opened, Ends (s.conns e))
    (hjobs : t.memcr.jobs = s.memcr.jobs) (hended : t.memcr.ended = s.memcr.ended)
    (hposition : Position t t.memcr.phase) : Writer r t := by
  have hself : t.conns s.opened = c := by rw [hconns, Function.update_self]
  have hother : ∀ i < s.opened, t.conns i = s.conns i := by
    intro i hi
    rw [hconns, Function.update_of_ne (by omega)]
  have hkeeps : ∀ {n}, n ≤ s.opened → (∃ e < n, Ends (s.conns e)) → ∃ e < n, Ends (t.conns e) := by
    rintro n hn ⟨e, he, hend⟩
    exact ⟨e, he, by rwa [hother e (by omega)]⟩
  refine ⟨by rw [hjobs]; exact h.jobs, ?_, ?_, ?_, hposition⟩
  · intro i hi job hjob
    rcases Nat.lt_or_ge i s.opened with hlt | hge
    · rw [hother i hlt] at hjob ⊢
      exact h.conns i hlt job hjob
    · obtain rfl : i = s.opened := by omega
      rw [hself] at hjob ⊢
      exact hnew job hjob
  · intro i hi hnone
    rcases Nat.lt_or_ge i s.opened with hlt | hge
    · rw [hother i hlt] at hnone
      exact hkeeps hlt.le (h.strangers i hlt hnone)
    · obtain rfl : i = s.opened := by omega
      rw [hself] at hnone
      exact hkeeps le_rfl (hstranger hnone)
  · intro hend
    rw [hended] at hend
    obtain ⟨e, he, hends⟩ := hkeeps le_rfl (h.ended hend)
    exact ⟨e, by omega, hends⟩

theorem drop {jobs : List Job} (h : Writer r s) (hphase : s.memcr.phase = .idle)
    (hjobs : ∀ job ∈ jobs, job ∈ s.memcr.jobs) :
    Writer r { s with memcr := { s.memcr with jobs := jobs } } ∧
      Grows s { s with memcr := { s.memcr with jobs := jobs } } := by
  refine ⟨⟨fun job hjob => h.jobs job (hjobs job hjob), h.conns, h.strangers, h.ended, ?_⟩,
    ⟨le_rfl, fun _ _ => rfl, fun _ _ => List.prefix_rfl, fun _ _ _ => rfl, rfl⟩⟩
  rw [hphase]
  exact Position.idle

theorem mem_abandon {job job' : Job} {rest : List Job} (h : job' ∈ abandon job rest) :
    job' ∈ rest := by
  unfold abandon at h
  split at h
  · cases h
  · exact h

theorem connect (h : Writer r s) (hstep : RestoreConnections.connect s = some t) :
    Writer r t ∧ Grows s t := by
  unfold RestoreConnections.connect at hstep
  split at hstep
  · rename_i job rest hphase hjobs
    obtain rfl := Option.some.inj hstep
    refine ⟨h.extend rfl rfl ?_ (fun hnone => by cases hnone) rfl rfl ?_, grows_open rfl rfl rfl⟩
    · intro job' hjob'
      obtain rfl := Option.some.inj hjob'
      exact ⟨h.jobs job (by simp [hjobs]), Sent.nothing⟩
    · exact Position.command (Nat.lt_succ_self _) hjobs (Function.update_self ..)
  · cases hstep

theorem connectFails (h : Writer r s) (hstep : RestoreConnections.connectFails s = some t) :
    Writer r t ∧ Grows s t := by
  unfold RestoreConnections.connectFails at hstep
  split at hstep
  · rename_i job rest hphase hjobs
    obtain rfl := Option.some.inj hstep
    exact h.drop hphase fun job' hjob' => by
      rw [hjobs]
      exact List.mem_cons_of_mem _ (mem_abandon hjob')
  · cases hstep

theorem checksumMismatch (h : Writer r s)
    (hstep : RestoreConnections.checksumMismatch s = some t) : Writer r t ∧ Grows s t := by
  unfold RestoreConnections.checksumMismatch at hstep
  split at hstep
  · rename_i job rest hphase hjobs
    split at hstep
    · obtain rfl := Option.some.inj hstep
      exact h.drop hphase fun job' hjob' => absurd hjob' List.not_mem_nil
    · cases hstep
  · cases hstep

theorem append {sd : Nat} {job : Job} {more : List Byte} {written : List Item}
    {phase : MemcrPhase} (h : Writer r s) (hopen : (s.conns sd).closed = false)
    (hjob : (s.conns sd).job = some job)
    (hsent : Sent job ((s.conns sd).sent ++ more) written)
    (ht : t = { s with
      conns := Function.update s.conns sd
        { s.conns sd with sent := (s.conns sd).sent ++ more, written := written }
      memcr := { s.memcr with phase := phase } })
    (hposition : t.opened = s.opened → t.memcr.jobs = s.memcr.jobs →
      t.conns sd = ⟨(s.conns sd).sent ++ more, false, some job, written⟩ → Position t phase) :
    Writer r t ∧ Grows s t := by
  subst ht
  have hconn : (⟨(s.conns sd).sent ++ more, (s.conns sd).closed, (s.conns sd).job, written⟩ :
      Conn) = ⟨(s.conns sd).sent ++ more, false, some job, written⟩ := by rw [hopen, hjob]
  exact ⟨h.update rfl rfl hjob hjob (fun _ => hsent) h.jobs Or.inl
      (hposition rfl rfl ((Function.update_self ..).trans hconn)),
    grows_update rfl rfl rfl hopen rfl (List.prefix_append _ _)⟩

theorem position_next {sd : Nat} {job : Job} {rest : List Job} {written todo : List Item}
    (hsd : sd < t.opened) (hjobs : t.memcr.jobs = job :: rest)
    (hitems : job.items = written ++ todo)
    (hconn : t.conns sd = ⟨itemStream job written, false, some job, written⟩) :
    Position t (.writing sd 0 todo) := by
  cases todo with
  | nil =>
      obtain rfl : written = job.items := by simpa using hitems.symm
      exact Position.whole hsd hjobs hconn
  | cons item todo =>
      exact Position.writing hsd hjobs hitems (bytes_pos item) (by simpa using hconn)

theorem next_item_unique {items written todo : List Item} {item item' : Item}
    (hitems : items = written ++ item :: todo) (hnext : written ++ [item'] <+: items) :
    item' = item := by
  obtain ⟨rest, hrest⟩ := hnext
  rw [hitems, List.append_assoc, List.append_cancel_left_eq] at hrest
  exact (List.cons.inj hrest).1

theorem sent_part {job : Job} {written todo : List Item} {item : Item} {off : Nat}
    (hitems : job.items = written ++ item :: todo) (hoff : off < item.bytes.length) :
    Sent job (itemStream job written ++ item.bytes.take off) written := by
  refine Sent.part ⟨item :: todo, hitems.symm⟩ ?_ ?_
  · refine ⟨item.bytes.drop off ++ todo.flatMap Item.bytes, ?_⟩
    rw [List.append_assoc, ← List.append_assoc (item.bytes.take off), List.take_append_drop]
    simp [itemStream, commandStream, hitems]
  · intro item' hnext
    obtain rfl := next_item_unique hitems hnext
    rw [List.length_take]
    omega

theorem sent_whole {job : Job} {written todo : List Item}
    (hitems : job.items = written ++ todo) : Sent job (itemStream job written) written := by
  have hsent : Sent job (itemStream job written ++ []) written := by
    refine Sent.part ⟨todo, hitems.symm⟩ ⟨todo.flatMap Item.bytes, ?_⟩ ?_
    · simp [itemStream, commandStream, hitems]
    · intro item _
      exact bytes_pos item
  simpa using hsent

theorem write {n : Nat} (h : Writer r s) (hstep : RestoreConnections.write s n = some t) :
    Writer r t ∧ Grows s t := by
  have hposition := h.position
  unfold RestoreConnections.write at hstep
  split at hstep
  · rename_i sd job rest hphase hjobs
    rw [hphase] at hposition
    cases hposition with
    | command hsd hjobs' hconn =>
        rename_i job' rest'
        obtain ⟨rfl, rfl⟩ : job = job' ∧ rest = rest' := by simpa using hjobs.symm.trans hjobs'
        split at hstep
        · have hsent : Sent job ((s.conns sd).sent ++ [job.cmd.byte]) (s.conns sd).written := by
            rw [hconn]
            exact sent_whole (List.nil_append _).symm
          refine h.append (by rw [hconn]) (by rw [hconn]) hsent (Option.some.inj hstep).symm ?_
          intro hopened hsame hnew
          rw [hconn] at hnew
          exact position_next (hopened ▸ hsd) (hsame.trans hjobs) (List.nil_append _).symm hnew
        · cases hstep
  · rename_i sd off item todo hphase
    rw [hphase] at hposition
    cases hposition with
    | writing hsd hjobs hitems hoff hconn =>
        rename_i job rest written
        have hpiece : (s.conns sd).sent ++ (item.bytes.drop off).take n =
            itemStream job written ++ item.bytes.take (off + n) := by
          rw [hconn, List.append_assoc, ← List.take_add]
        split at hstep
        · rename_i hguard
          dsimp only at hstep
          split at hstep
          · rename_i hmore
            refine h.append (by rw [hconn]) (by rw [hconn]) ?_ (Option.some.inj hstep).symm ?_
            · rw [hpiece, hconn]
              exact sent_part hitems hmore
            · intro hopened hsame hnew
              rw [hpiece, hconn] at hnew
              exact Position.writing (hopened ▸ hsd) (hsame.trans hjobs) hitems hmore hnew
          · rename_i hdone
            have hwhole : item.bytes.take (off + n) = item.bytes :=
              List.take_of_length_le (by omega)
            have hitems' : job.items = (written ++ [item]) ++ todo := by simpa using hitems
            rw [hwhole, ← itemStream_snoc] at hpiece
            refine h.append (by rw [hconn]) (by rw [hconn]) ?_ (Option.some.inj hstep).symm ?_
            · rw [hpiece, hconn]
              exact sent_whole hitems'
            · intro hopened hsame hnew
              rw [hpiece, hconn] at hnew
              exact position_next (hopened ▸ hsd) (hsame.trans hjobs) hitems' hnew
        · cases hstep
  · cases hstep

theorem hangUp {sd : Nat} {job : Job} {rest : List Job} (h : Writer r s) (hsd : sd < s.opened)
    (hopen : (s.conns sd).closed = false) (hjob : (s.conns sd).job = some job)
    (hrest : ∀ job ∈ rest, job ∈ s.memcr.jobs) :
    Writer r (hangUp s sd job rest) ∧ Grows s (hangUp s sd job rest) := by
  refine ⟨h.update rfl rfl hjob hjob (fun _ => (h.conns sd hsd job hjob).2)
    (fun job hjob => h.jobs job (hrest job hjob)) ?_ Position.idle,
    grows_update rfl rfl rfl hopen rfl List.prefix_rfl⟩
  intro hended
  rcases Bool.or_eq_true_iff.mp hended with hbefore | hcmd
  · exact Or.inl hbefore
  · exact Or.inr ⟨hsd, of_decide_eq_true hcmd⟩

theorem at_connection {sd : Nat} (h : Writer r s) (hbusy : Busy s sd) :
    ∃ job rest, s.memcr.jobs = job :: rest ∧ sd < s.opened ∧ (s.conns sd).closed = false ∧
      (s.conns sd).job = some job := by
  have hposition := h.position
  rcases hbusy with hphase | ⟨off, todo, hphase⟩
  · rw [hphase] at hposition
    cases hposition with
    | command hsd hjobs hconn => exact ⟨_, _, hjobs, hsd, by rw [hconn], by rw [hconn]⟩
  · rw [hphase] at hposition
    cases hposition with
    | writing hsd hjobs hitems hoff hconn =>
        exact ⟨_, _, hjobs, hsd, by rw [hconn], by rw [hconn]⟩
    | whole hsd hjobs hconn => exact ⟨_, _, hjobs, hsd, by rw [hconn], by rw [hconn]⟩

theorem hangUp_of_busy {sd : Nat} {job : Job} {rest left : List Job} (h : Writer r s)
    (hbusy : Busy s sd) (hjobs : s.memcr.jobs = job :: rest)
    (hleft : ∀ job ∈ left, job ∈ rest) :
    Writer r (RestoreConnections.hangUp s sd job left) ∧
      Grows s (RestoreConnections.hangUp s sd job left) := by
  obtain ⟨job', rest', hjobs', hsd, hopen, hjob⟩ := h.at_connection hbusy
  obtain ⟨rfl, rfl⟩ := List.cons.inj (hjobs.symm.trans hjobs')
  refine h.hangUp hsd hopen hjob fun job' hjob' => ?_
  rw [hjobs]
  exact List.mem_cons_of_mem _ (hleft job' hjob')

theorem giveUp (h : Writer r s) (hstep : RestoreConnections.giveUp s = some t) :
    Writer r t ∧ Grows s t := by
  unfold RestoreConnections.giveUp at hstep
  split at hstep
  · rename_i sd job rest hphase hjobs
    obtain rfl := Option.some.inj hstep
    exact h.hangUp_of_busy (Or.inl hphase) hjobs fun _ => mem_abandon
  · rename_i sd off todo job rest hphase hjobs
    obtain rfl := Option.some.inj hstep
    exact h.hangUp_of_busy (Or.inr ⟨off, todo, hphase⟩) hjobs fun _ => mem_abandon
  · cases hstep

theorem close (h : Writer r s) (hstep : RestoreConnections.close s = some t) :
    Writer r t ∧ Grows s t := by
  unfold RestoreConnections.close at hstep
  split at hstep
  · rename_i sd off job rest hphase hjobs
    obtain rfl := Option.some.inj hstep
    exact h.hangUp_of_busy (Or.inr ⟨off, [], hphase⟩) hjobs fun _ hjob => hjob
  · cases hstep

theorem stranger {bytes : List Byte} (h : Writer r s)
    (hstep : RestoreConnections.stranger s bytes = some t) : Writer r t ∧ Grows s t := by
  unfold RestoreConnections.stranger at hstep
  split at hstep
  · rename_i hended
    have hgrows : Grows s t := by
      obtain rfl := Option.some.inj hstep
      exact grows_open rfl rfl rfl
    have hposition : Position t s.memcr.phase := by
      apply h.position.mono hgrows.opened
      · intro i hi
        obtain rfl := Option.some.inj hstep
        exact Function.update_of_ne (by omega) _ _
      · obtain rfl := Option.some.inj hstep
        rfl
    refine ⟨?_, hgrows⟩
    obtain rfl := Option.some.inj hstep
    exact h.extend rfl rfl (fun job hjob => by cases hjob) (fun _ => h.ended hended) rfl rfl
      hposition
  · cases hstep

end Writer

/-- Nothing that memcr calls fails. -/
def Undisturbed : Choice → Prop
  | .connectFails | .checksumMismatch | .giveUp => False
  | _ => True

/-- The connections of a restore in which nothing has failed: those of its jobs
in order, then those of others. -/
structure Whole (r : Restore) (s : State) : Prop where
  job : ∀ i < s.opened, (s.conns i).job = r.jobs[i]?
  whole : ∀ i < s.opened, ∀ job, (s.conns i).job = some job → (s.conns i).closed = true →
    (s.conns i).sent = itemStream job job.items ∧ (s.conns i).written = job.items
  idle : s.memcr.phase = .idle → s.memcr.jobs = r.jobs.drop s.opened
  busy : ∀ sd, Busy s sd → s.opened = sd + 1 ∧ s.memcr.jobs = r.jobs.drop sd
  ended : s.memcr.ended = true → s.memcr.phase = .idle ∧ r.jobs.length ≤ s.opened

namespace Whole

variable {r : Restore} {s t : State}

theorem start (mem : Memory) : Whole r (State.start r mem) where
  job i hi := absurd hi (Nat.not_lt_zero i)
  whole i hi := absurd hi (Nat.not_lt_zero i)
  idle _ := rfl
  busy sd hbusy := by
    rcases hbusy with hphase | ⟨off, todo, hphase⟩
    · cases hphase
    · cases hphase
  ended h := by cases h

theorem congr (h : Whole r s) (hopened : t.opened = s.opened) (hconns : t.conns = s.conns)
    (hmemcr : t.memcr = s.memcr) : Whole r t := by
  obtain ⟨opened, conns, memcr, parasite⟩ := t
  dsimp only at hopened hconns hmemcr
  subst hopened hconns hmemcr
  exact ⟨h.job, h.whole, h.idle, h.busy, h.ended⟩

theorem not_busy {sd : Nat} (hphase : s.memcr.phase = .idle) : ¬ Busy s sd := by
  rintro (hbusy | ⟨off, todo, hbusy⟩)
  · rw [hphase] at hbusy
    cases hbusy
  · rw [hphase] at hbusy
    cases hbusy

theorem extend {c : Conn} (h : Whole r s) (hopened : t.opened = s.opened + 1)
    (hconns : t.conns = Function.update s.conns s.opened c) (hjob : c.job = r.jobs[s.opened]?)
    (hwhole : ∀ job, c.job = some job → c.closed = true →
      c.sent = itemStream job job.items ∧ c.written = job.items)
    (hidle : t.memcr.phase = .idle → t.memcr.jobs = r.jobs.drop t.opened)
    (hbusy : ∀ sd, Busy t sd → t.opened = sd + 1 ∧ t.memcr.jobs = r.jobs.drop sd)
    (hended : t.memcr.ended = true → t.memcr.phase = .idle ∧ r.jobs.length ≤ t.opened) :
    Whole r t := by
  have hself : t.conns s.opened = c := by rw [hconns, Function.update_self]
  have hother : ∀ i < s.opened, t.conns i = s.conns i := by
    intro i hi
    rw [hconns, Function.update_of_ne (by omega)]
  refine ⟨?_, ?_, hidle, hbusy, hended⟩
  · intro i hi
    rcases Nat.lt_or_ge i s.opened with hlt | hge
    · rw [hother i hlt]
      exact h.job i hlt
    · obtain rfl : i = s.opened := by omega
      rw [hself, hjob]
  · intro i hi
    rcases Nat.lt_or_ge i s.opened with hlt | hge
    · rw [hother i hlt]
      exact h.whole i hlt
    · obtain rfl : i = s.opened := by omega
      rw [hself]
      exact hwhole

theorem connect (h : Whole r s) (hstep : RestoreConnections.connect s = some t) : Whole r t := by
  unfold RestoreConnections.connect at hstep
  split at hstep
  · rename_i job rest hphase hjobs
    have hdrop := (h.idle hphase).symm.trans hjobs
    have hjob : r.jobs[s.opened]? = some job := by
      rw [← List.head?_drop, hdrop]
      rfl
    obtain rfl := Option.some.inj hstep
    refine h.extend rfl rfl hjob.symm ?_ (fun hidle => by cases hidle) ?_ ?_
    · intro _ _ hclosed
      cases hclosed
    · rintro sd (hbusy | ⟨off, todo, hbusy⟩)
      · cases hbusy
        exact ⟨rfl, h.idle hphase⟩
      · cases hbusy
    · intro hended
      have hlength := (h.ended hended).2
      rw [List.drop_eq_nil_of_le hlength] at hdrop
      cases hdrop
  · cases hstep

theorem update {sd : Nat} {c : Conn} (h : Whole r s) (hopened : t.opened = s.opened)
    (hconns : t.conns = Function.update s.conns sd c) (hjob : c.job = (s.conns sd).job)
    (hwhole : ∀ job, c.job = some job → c.closed = true →
      c.sent = itemStream job job.items ∧ c.written = job.items)
    (hidle : t.memcr.phase = .idle → t.memcr.jobs = r.jobs.drop t.opened)
    (hbusy : ∀ sd, Busy t sd → t.opened = sd + 1 ∧ t.memcr.jobs = r.jobs.drop sd)
    (hended : t.memcr.ended = true → t.memcr.phase = .idle ∧ r.jobs.length ≤ t.opened) :
    Whole r t := by
  refine ⟨?_, ?_, hidle, hbusy, hended⟩
  · rw [hopened, hconns]
    intro i hi
    by_cases heq : i = sd
    · rw [heq, Function.update_self, hjob, h.job sd (heq ▸ hi)]
    · rw [Function.update_of_ne heq]
      exact h.job i hi
  · rw [hopened, hconns]
    intro i hi
    by_cases heq : i = sd
    · rw [heq, Function.update_self]
      exact hwhole
    · rw [Function.update_of_ne heq]
      exact h.whole i hi

theorem write_cases {n : Nat} (hstep : RestoreConnections.write s n = some t) :
    ∃ sd off todo sent written, Busy s sd ∧
      t = { s with
        conns := Function.update s.conns sd { s.conns sd with sent := sent, written := written }
        memcr := { s.memcr with phase := .writing sd off todo } } := by
  unfold RestoreConnections.write at hstep
  split at hstep
  · rename_i sd job rest hphase hjobs
    split at hstep
    · exact ⟨sd, _, _, _, _, Or.inl hphase, (Option.some.inj hstep).symm⟩
    · cases hstep
  · rename_i sd off item todo hphase
    split at hstep
    · dsimp only at hstep
      split at hstep
      · exact ⟨sd, _, _, _, _, Or.inr ⟨off, _, hphase⟩, (Option.some.inj hstep).symm⟩
      · exact ⟨sd, _, _, _, _, Or.inr ⟨off, _, hphase⟩, (Option.some.inj hstep).symm⟩
    · cases hstep
  · cases hstep

theorem write {n : Nat} (h : Whole r s) (hwriter : Writer r s)
    (hstep : RestoreConnections.write s n = some t) : Whole r t := by
  obtain ⟨sd, off, todo, sent, written, hbusy, rfl⟩ := write_cases hstep
  obtain ⟨hopened, hjobs⟩ := h.busy sd hbusy
  obtain ⟨-, -, -, -, hopen, -⟩ := hwriter.at_connection hbusy
  refine h.update rfl rfl rfl ?_ (fun hidle => by cases hidle) ?_ ?_
  · intro _ _ hclosed
    exact absurd (hopen.symm.trans hclosed) Bool.false_ne_true
  · rintro sd' (hphase | ⟨off', todo', hphase⟩)
    · cases hphase
    · cases hphase
      exact ⟨hopened, hjobs⟩
  · intro hended
    exact absurd hbusy (not_busy (h.ended hended).1)

theorem length_le_of_cmdEnd {sd : Nat} {job : Job} {rest : List Job}
    (hdrop : r.jobs.drop sd = job :: rest) (hcmd : job.cmd = .cmdEnd) :
    r.jobs.length ≤ sd + 1 := by
  rcases sd with _ | _ | sd
  · obtain ⟨rfl, -⟩ := List.cons.inj hdrop
    cases hcmd
  · obtain ⟨rfl, -⟩ := List.cons.inj hdrop
    cases hcmd
  · simp [Restore.jobs]

theorem close (h : Whole r s) (hwriter : Writer r s)
    (hstep : RestoreConnections.close s = some t) : Whole r t := by
  unfold RestoreConnections.close at hstep
  split at hstep
  · rename_i sd off job rest hphase hjobs
    obtain ⟨hopened, hdrop⟩ := h.busy sd (Or.inr ⟨off, [], hphase⟩)
    have hposition := hwriter.position
    rw [hphase] at hposition
    cases hposition with
    | whole hsd hjobs' hconn =>
        rename_i job' rest'
        have hall : ∀ job, (s.conns sd).job = some job →
            (s.conns sd).sent = itemStream job job.items ∧ (s.conns sd).written = job.items := by
          intro job'' hjob
          rw [hconn] at hjob ⊢
          obtain rfl := Option.some.inj hjob
          exact ⟨rfl, rfl⟩
        obtain rfl := Option.some.inj hstep
        have hrest : rest = r.jobs.drop (sd + 1) := by
          rw [← List.tail_drop, ← hdrop, hjobs]
          rfl
        refine h.update rfl rfl rfl (fun job hjob _ => hall job hjob) (fun _ => ?_)
          (fun sd' hbusy => absurd hbusy (not_busy rfl)) ?_
        · rw [hrest, ← hopened]
          rfl
        · intro hended
          refine ⟨rfl, ?_⟩
          rcases Bool.or_eq_true_iff.mp hended with hbefore | hcmd
          · exact (h.ended hbefore).2
          · exact hopened ▸ length_le_of_cmdEnd (hdrop.symm.trans hjobs) (of_decide_eq_true hcmd)
  · cases hstep

theorem stranger {bytes : List Byte} (h : Whole r s)
    (hstep : RestoreConnections.stranger s bytes = some t) : Whole r t := by
  unfold RestoreConnections.stranger at hstep
  split at hstep
  · rename_i hended
    obtain ⟨hidle, hlength⟩ := h.ended hended
    obtain rfl := Option.some.inj hstep
    refine h.extend rfl rfl (List.getElem?_eq_none hlength).symm ?_ (fun _ => ?_)
      (fun sd hbusy => absurd hbusy (not_busy hidle)) ?_
    · intro job hjob
      cases hjob
    · change s.memcr.jobs = r.jobs.drop (s.opened + 1)
      rw [h.idle hidle, List.drop_eq_nil_of_le hlength,
        List.drop_eq_nil_of_le (hlength.trans (Nat.le_succ _))]
    · intro _
      exact ⟨hidle, hlength.trans (Nat.le_succ _)⟩
  · cases hstep

theorem last_eq {i : Nat} (h : Whole r s) (hi : i < s.opened) (hends : Ends (s.conns i)) :
    i = 2 := by
  obtain ⟨job, hjob, hcmd⟩ := hends
  rw [h.job i hi] at hjob
  rcases i with _ | _ | _ | i
  · obtain rfl := Option.some.inj hjob
    cases hcmd
  · obtain rfl := Option.some.inj hjob
    cases hcmd
  · rfl
  · simp [Restore.jobs] at hjob

end Whole

end Memcr.RestoreWrites
