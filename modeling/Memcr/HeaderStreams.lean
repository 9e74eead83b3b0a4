import Mathlib.Data.List.Basic

namespace Memcr.HeaderStreams

universe u

variable {Symbol : Type u}

/-- A header, and as much of the body as there is. -/
structure Record (Symbol : Type u) where
  header : List Symbol
  body : List Symbol

/-- The records at the front of a stream and what is left over, for at most the
given number of records. -/
def split (size : Nat) (bodyLength : List Symbol → Nat) :
    Nat → List Symbol → List (Record Symbol) × List Symbol
  | 0, stream => ([], stream)
  | rounds + 1, stream =>
      if stream.length < size then ([], stream)
      else
        let header := stream.take size
        let rest := stream.drop size
        let (records, left) := split size bodyLength rounds (rest.drop (bodyLength header))
        (⟨header, rest.take (bodyLength header)⟩ :: records, left)

/-- The records of a stream, the last one with as much of its body as there is. -/
def records (size : Nat) (bodyLength : List Symbol → Nat) (stream : List Symbol) :
    List (Record Symbol) :=
  (split size bodyLength stream.length stream).1

/-- The beginning of a header at the end of the stream. -/
def leftover (size : Nat) (bodyLength : List Symbol → Nat) (stream : List Symbol) :
    List Symbol :=
  (split size bodyLength stream.length stream).2

/-- What follows the first record. -/
def behindFirst (size : Nat) (bodyLength : List Symbol → Nat) (stream : List Symbol) :
    List Symbol :=
  (stream.drop size).drop (bodyLength (stream.take size))

section Records

variable {size : Nat} {bodyLength : List Symbol → Nat} {stream : List Symbol}

theorem behindFirst_length_lt (hsize : 0 < size) (hlong : size ≤ stream.length) :
    (behindFirst size bodyLength stream).length < stream.length := by
  simp only [behindFirst, List.length_drop]
  omega

theorem stream_induction (bodyLength : List Symbol → Nat) (hsize : 0 < size)
    {motive : List Symbol → Prop} (short : ∀ stream, stream.length < size → motive stream)
    (record : ∀ stream, size ≤ stream.length →
      motive (behindFirst size bodyLength stream) → motive stream)
    (stream : List Symbol) : motive stream := by
  induction hlength : stream.length using Nat.strongRecOn generalizing stream with
  | ind n ih =>
      subst hlength
      rcases Nat.lt_or_ge stream.length size with hshort | hlong
      · exact short stream hshort
      · exact record stream hlong (ih _ (behindFirst_length_lt hsize hlong) _ rfl)

theorem split_of_short (hshort : stream.length < size) (rounds : Nat) :
    split size bodyLength rounds stream = ([], stream) := by
  rcases rounds with _ | rounds <;> simp [split, hshort]

theorem split_congr (hsize : 0 < size) {rounds rounds' : Nat} (hrounds : stream.length ≤ rounds)
    (hrounds' : stream.length ≤ rounds') :
    split size bodyLength rounds stream = split size bodyLength rounds' stream := by
  induction stream using stream_induction bodyLength hsize generalizing rounds rounds' with
  | short stream hshort => rw [split_of_short hshort, split_of_short hshort]
  | record stream hlong ih =>
      have hless := @behindFirst_length_lt _ _ bodyLength _ hsize hlong
      obtain ⟨rounds, rfl⟩ := Nat.exists_eq_succ_of_ne_zero (by omega : rounds ≠ 0)
      obtain ⟨rounds', rfl⟩ := Nat.exists_eq_succ_of_ne_zero (by omega : rounds' ≠ 0)
      have hrest := @ih rounds rounds' (by omega) (by omega)
      simp only [behindFirst] at hrest
      simp only [split, Nat.not_lt.mpr hlong, if_false, hrest]

theorem split_record (hsize : 0 < size) (hlong : size ≤ stream.length) :
    split size bodyLength stream.length stream =
      (⟨stream.take size, (stream.drop size).take (bodyLength (stream.take size))⟩ ::
          records size bodyLength (behindFirst size bodyLength stream),
        leftover size bodyLength (behindFirst size bodyLength stream)) := by
  have hless := @behindFirst_length_lt _ _ bodyLength _ hsize hlong
  obtain ⟨rounds, hrounds⟩ := Nat.exists_eq_succ_of_ne_zero (by omega : stream.length ≠ 0)
  have hrest := @split_congr _ _ bodyLength (behindFirst size bodyLength stream) hsize rounds _
    (by omega) (Nat.le_refl _)
  rw [hrounds, split, if_neg (Nat.not_lt.mpr hlong)]
  simp only [records, leftover, ← hrest]
  rfl

theorem records_of_short (hshort : stream.length < size) :
    records size bodyLength stream = [] := by
  rw [records, split_of_short hshort]

theorem leftover_of_short (hshort : stream.length < size) :
    leftover size bodyLength stream = stream := by
  rw [leftover, split_of_short hshort]

theorem records_cons (hsize : 0 < size) (hlong : size ≤ stream.length) :
    records size bodyLength stream =
      ⟨stream.take size, (stream.drop size).take (bodyLength (stream.take size))⟩ ::
        records size bodyLength (behindFirst size bodyLength stream) := by
  rw [records, split_record hsize hlong]

theorem leftover_cons (hsize : 0 < size) (hlong : size ≤ stream.length) :
    leftover size bodyLength stream =
      leftover size bodyLength (behindFirst size bodyLength stream) := by
  rw [leftover, split_record hsize hlong]

theorem header_length (hsize : 0 < size) {r : Record Symbol}
    (hr : r ∈ records size bodyLength stream) : r.header.length = size := by
  induction stream using stream_induction bodyLength hsize with
  | short stream hshort => simp [records_of_short hshort] at hr
  | record stream hlong ih =>
      rw [records_cons hsize hlong] at hr
      rcases List.mem_cons.mp hr with rfl | hr
      · exact List.length_take_of_le hlong
      · exact ih hr

/-- A header is followed by no more than what is left of the stream, and by no
more than it asks for. -/
theorem body_length_le (hsize : 0 < size) {r : Record Symbol}
    (hr : r ∈ records size bodyLength stream) :
    r.body.length + size ≤ stream.length ∧ r.body.length ≤ bodyLength r.header := by
  induction stream using stream_induction bodyLength hsize with
  | short stream hshort => simp [records_of_short hshort] at hr
  | record stream hlong ih =>
      rw [records_cons hsize hlong] at hr
      rcases List.mem_cons.mp hr with rfl | hr
      · simp only [List.length_take, List.length_drop]
        omega
      · have hless := @behindFirst_length_lt _ _ bodyLength _ hsize hlong
        obtain ⟨hbody, hasked⟩ := ih hr
        exact ⟨by omega, hasked⟩

end Records

section Headers

variable {size : Nat} {stream : List Symbol}

/-- Nothing belongs to a record besides its header. -/
def bare (_ : List Symbol) : Nat := 0

theorem behindFirst_bare (size : Nat) (stream : List Symbol) :
    behindFirst size bare stream = stream.drop size := rfl

theorem leftover_bare (hsize : 0 < size) (stream : List Symbol) :
    leftover size bare stream = stream.drop (stream.length / size * size) := by
  induction stream using stream_induction bare hsize with
  | short stream hshort => simp [leftover_of_short hshort, Nat.div_eq_of_lt hshort]
  | record stream hlong ih =>
      have hcount : stream.length / size = (stream.length - size) / size + 1 :=
        Nat.div_eq_sub_div hsize hlong
      rw [leftover_cons hsize hlong, ih, behindFirst_bare, List.length_drop, List.drop_drop,
        hcount, Nat.add_mul, Nat.one_mul, Nat.add_comm size]

theorem leftover_bare_eq_nil_iff (hsize : 0 < size) :
    leftover size bare stream = [] ↔ size ∣ stream.length := by
  have hle := Nat.div_mul_le_self stream.length size
  rw [leftover_bare hsize, List.drop_eq_nil_iff, Nat.dvd_iff_div_mul_eq]
  omega

/-- The header in front of what is left over; `first` stands in front of the
stream. -/
theorem last_header_bare (hsize : 0 < size) {first : List Symbol} (hfirst : first.length = size) :
    (records size bare stream).foldl (fun _ r => r.header) first =
      ((first ++ stream).drop (stream.length / size * size)).take size := by
  induction stream using stream_induction bare hsize generalizing first with
  | short stream hshort =>
      rw [records_of_short hshort, Nat.div_eq_of_lt hshort, Nat.zero_mul, List.drop_zero,
        List.take_left' hfirst]
      rfl
  | record stream hlong ih =>
      have hcount : stream.length / size = (stream.length - size) / size + 1 :=
        Nat.div_eq_sub_div hsize hlong
      have hheader : (stream.take size).length = size := List.length_take_of_le hlong
      rw [records_cons hsize hlong, List.foldl_cons, ih hheader, behindFirst_bare,
        List.take_append_drop, List.length_drop, hcount, Nat.add_mul, Nat.one_mul,
        Nat.add_comm _ size, ← List.drop_drop, List.drop_left' hfirst]

end Headers

end Memcr.HeaderStreams
