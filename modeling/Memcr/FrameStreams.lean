import Mathlib.Data.List.Basic

namespace Memcr.FrameStreams

universe u v

variable {Record : Type u} {Symbol : Type v}

/-- A frame is never empty, and no frame can be confused with another one,
whatever follows it. -/
structure SelfDelimiting (frame : Record → List Symbol) : Prop where
  nonempty : ∀ r, frame r ≠ []
  split : ∀ r r' rest rest', frame r ++ rest = frame r' ++ rest' → r = r' ∧ rest = rest'

variable {frame : Record → List Symbol}

theorem SelfDelimiting.flatMap_inj (hframe : SelfDelimiting frame)
    {records records' : List Record}
    (h : records.flatMap frame = records'.flatMap frame) : records = records' := by
  induction records generalizing records' with
  | nil =>
      rcases records' with _ | ⟨r', rest'⟩
      · rfl
      · have hempty : frame r' = [] := by
          have := h.symm
          simp only [List.flatMap_cons, List.flatMap_nil, List.append_eq_nil_iff] at this
          exact this.1
        exact absurd hempty (hframe.nonempty r')
  | cons r rest ih =>
      rcases records' with _ | ⟨r', rest'⟩
      · have hempty : frame r = [] := by
          simp only [List.flatMap_cons, List.flatMap_nil, List.append_eq_nil_iff] at h
          exact h.1
        exact absurd hempty (hframe.nonempty r)
      · simp only [List.flatMap_cons] at h
        obtain ⟨rfl, hrest⟩ := hframe.split r r' _ _ h
        rw [ih hrest]

theorem eq_nil_of_short {records before more : List Record} {part rest : List Symbol}
    (hmore : before ++ more <+: records) (hpart : part = more.flatMap frame ++ rest)
    (hshort : ∀ r, before ++ [r] <+: records → part.length < (frame r).length) : more = [] := by
  cases more with
  | nil => rfl
  | cons r more =>
      have hnext : before ++ [r] <+: records :=
        (List.prefix_append_right_inj before |>.mpr ⟨more, rfl⟩).trans hmore
      have hlength := hshort r hnext
      rw [hpart, List.flatMap_cons] at hlength
      simp only [List.length_append] at hlength
      omega

theorem cut_unique {records before before' : List Record} {part part' : List Symbol}
    (hbefore : before <+: records) (hbefore' : before' <+: records)
    (h : before.flatMap frame ++ part = before'.flatMap frame ++ part')
    (hshort : ∀ r, before ++ [r] <+: records → part.length < (frame r).length)
    (hshort' : ∀ r, before' ++ [r] <+: records → part'.length < (frame r).length) :
    before = before' ∧ part = part' := by
  rcases List.prefix_or_prefix_of_prefix hbefore hbefore' with ⟨more, rfl⟩ | ⟨more, rfl⟩
  · have hpart : part = more.flatMap frame ++ part' := by simpa using h
    obtain rfl : more = [] := eq_nil_of_short hbefore' hpart hshort
    simpa using hpart
  · have hpart : part' = more.flatMap frame ++ part := by simpa using h.symm
    obtain rfl : more = [] := eq_nil_of_short hbefore hpart hshort'
    simpa using hpart.symm

/-- Cutting a stream short keeps some whole frames and a proper beginning of
the next one. -/
theorem exists_cut {records : List Record} {cut : List Symbol}
    (hcut : cut <+: records.flatMap frame) (hstrict : cut ≠ records.flatMap frame) :
    ∃ before r after partFrame, records = before ++ r :: after ∧
      cut = before.flatMap frame ++ partFrame ∧ partFrame <+: frame r ∧
      partFrame ≠ frame r := by
  induction records generalizing cut with
  | nil =>
      have hnil : cut = [] := by simpa using hcut
      exact absurd (by simpa using hnil) hstrict
  | cons r rest ih =>
      simp only [List.flatMap_cons] at hcut hstrict
      rcases List.prefix_or_prefix_of_prefix hcut (List.prefix_append (frame r) _) with
        hshort | ⟨more, rfl⟩
      · by_cases hwhole : cut = frame r
        · subst hwhole
          have hrest : ([] : List Symbol) ≠ rest.flatMap frame := by
            intro hnil
            apply hstrict
            rw [← hnil, List.append_nil]
          obtain ⟨before, r', after, part', hrecords, hpart, hprefix, hne⟩ :=
            ih (List.nil_prefix) hrest
          refine ⟨r :: before, r', after, part', ?_, ?_, hprefix, hne⟩
          · simp [hrecords]
          · simp only [List.flatMap_cons, List.append_assoc, ← hpart, List.append_nil]
        · exact ⟨[], r, rest, cut, rfl, by simp, hshort, hwhole⟩
      · have hmore : more <+: rest.flatMap frame := by
          simpa using hcut
        have hmoreNe : more ≠ rest.flatMap frame := by
          intro heq
          exact hstrict (by rw [heq])
        obtain ⟨before, r', after, part', hrecords, hpart, hprefix, hne⟩ :=
          ih hmore hmoreNe
        refine ⟨r :: before, r', after, part', ?_, ?_, hprefix, hne⟩
        · simp [hrecords]
        · simp [hpart]

end Memcr.FrameStreams
