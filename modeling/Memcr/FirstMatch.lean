import Mathlib.Data.List.Basic

namespace Memcr.FirstMatch

universe u

variable {α : Type u}

/-- The list with its first element that satisfies `test` replaced. -/
def updateFirst (test : α → Bool) (f : α → α) : List α → List α
  | [] => []
  | a :: rest => if test a then f a :: rest else a :: updateFirst test f rest

variable {test keep : α → Bool} {f : α → α} {l : List α}

theorem mem_updateFirst {b : α} (hb : b ∈ updateFirst test f l) :
    b ∈ l ∨ ∃ a, l.find? test = some a ∧ b = f a := by
  induction l with
  | nil => cases hb
  | cons a rest ih =>
      simp only [updateFirst] at hb
      split at hb
      · rename_i htest
        rcases List.mem_cons.mp hb with rfl | hb
        · exact Or.inr ⟨a, by simp [htest], rfl⟩
        · exact Or.inl (by simp [hb])
      · rename_i htest
        rcases List.mem_cons.mp hb with rfl | hb
        · exact Or.inl (by simp)
        · rcases ih hb with hold | ⟨x, hx, rfl⟩
          · exact Or.inl (by simp [hold])
          · exact Or.inr ⟨x, by simp [htest, hx], rfl⟩

theorem forall_updateFirst {property : α → Prop} (h : ∀ a ∈ l, property a)
    (hf : ∀ a, l.find? test = some a → property (f a)) :
    ∀ b ∈ updateFirst test f l, property b := by
  intro b hb
  rcases mem_updateFirst hb with hold | ⟨a, ha, rfl⟩
  · exact h b hold
  · exact hf a ha

theorem updateFirst_congr {g : α → α} (h : ∀ a, l.find? test = some a → f a = g a) :
    updateFirst test f l = updateFirst test g l := by
  induction l with
  | nil => rfl
  | cons a rest ih =>
      simp only [updateFirst]
      split
      · rename_i htest
        rw [h a (by simp [htest])]
      · rename_i htest
        simp only [List.find?_cons, htest] at h
        rw [ih h]

theorem updateFirst_self : updateFirst test (fun a => a) l = l := by
  induction l with
  | nil => rfl
  | cons a rest ih =>
      simp only [updateFirst, ih]
      split <;> rfl

/-- A view of the elements shows nothing of an update exactly when it shows
nothing of it at the first match. -/
theorem map_updateFirst_eq_iff {β : Type*} {g : α → β} :
    (updateFirst test f l).map g = l.map g ↔ ∀ a, l.find? test = some a → g (f a) = g a := by
  induction l with
  | nil => simp [updateFirst]
  | cons a rest ih =>
      cases htest : test a <;> simp [updateFirst, htest, ih]

theorem filter_updateFirst_of_not (hbefore : ∀ a, l.find? test = some a → keep a = false)
    (hafter : ∀ a, l.find? test = some a → keep (f a) = false) :
    (updateFirst test f l).filter keep = l.filter keep := by
  induction l with
  | nil => rfl
  | cons a rest ih =>
      simp only [updateFirst]
      split
      · rename_i htest
        simp [hbefore a (by simp [htest]), hafter a (by simp [htest])]
      · rename_i htest
        simp only [List.find?_cons, htest] at hbefore hafter
        simp [List.filter_cons, ih hbefore hafter]

theorem filter_updateFirst_sublist (hafter : ∀ a, test a = true → keep (f a) = false) :
    ((updateFirst test f l).filter keep).Sublist (l.filter keep) := by
  induction l with
  | nil => exact List.Sublist.slnil
  | cons a rest ih =>
      simp only [updateFirst]
      split
      · rename_i htest
        rw [List.filter_cons_of_neg (by simp [hafter a htest])]
        exact (List.sublist_cons_self a rest).filter keep
      · by_cases hkeep : keep a = true
        · simpa [hkeep] using ih
        · simpa [hkeep] using ih

theorem filter_updateFirst_of_leaves (hbefore : ∀ a, test a = true → keep a = true)
    (hafter : ∀ a, test a = true → keep (f a) = false) :
    (updateFirst test f l).filter keep = (l.filter keep).eraseP test := by
  induction l with
  | nil => rfl
  | cons a rest ih =>
      simp only [updateFirst]
      split
      · rename_i htest
        simp [hbefore a htest, hafter a htest, htest]
      · rename_i htest
        by_cases hkeep : keep a = true
        · simp [hkeep, htest, ih]
        · simp [hkeep, ih]

theorem filter_updateFirst_of_mem (hbefore : ∀ a, test a = true → keep a = true)
    (hafter : ∀ a, test a = true → keep (f a) = true) :
    (updateFirst test f l).filter keep = updateFirst test f (l.filter keep) := by
  induction l with
  | nil => rfl
  | cons a rest ih =>
      simp only [updateFirst]
      split
      · rename_i htest
        simp [hbefore a htest, hafter a htest, updateFirst, htest]
      · rename_i htest
        by_cases hkeep : keep a = true
        · simp [hkeep, updateFirst, htest, ih]
        · simp [hkeep, ih]

theorem length_filter_updateFirst (hkeeps : ∀ a, test a = true → keep (f a) = keep a) :
    ((updateFirst test f l).filter keep).length = (l.filter keep).length := by
  induction l with
  | nil => rfl
  | cons a rest ih =>
      simp only [updateFirst]
      split
      · rename_i htest
        simp only [List.filter_cons, hkeeps a htest]
        split <;> rfl
      · simp only [List.filter_cons]
        split
        · simp [ih]
        · exact ih

/-- Where the filter has one element at most, an update of it leaves no match
there. -/
theorem not_test_of_mem_updateFirst (hkeep : ∀ a, test a = true → keep a = true)
    (hkeeps : ∀ a, test a = true → keep (f a) = true)
    (hleaves : ∀ a, test a = true → test (f a) = false) (hone : (l.filter keep).length ≤ 1)
    {b : α} (hb : b ∈ updateFirst test f l) (hkept : keep b = true) : test b = false := by
  have hmem : b ∈ (updateFirst test f l).filter keep := List.mem_filter.mpr ⟨hb, hkept⟩
  rw [filter_updateFirst_of_mem hkeep hkeeps] at hmem
  generalize l.filter keep = kept at hone hmem
  cases kept with
  | nil => cases hmem
  | cons a rest =>
      obtain rfl : rest = [] := List.eq_nil_of_length_eq_zero (by simpa using hone)
      rw [updateFirst] at hmem
      split at hmem
      · rename_i htest
        rw [List.mem_singleton.mp hmem]
        exact hleaves a htest
      · rename_i htest
        rw [List.mem_singleton.mp hmem]
        simpa using htest

theorem filter_updateFirst_of_enters (test keep : α → Bool) (f : α → α) {l : List α}
    (hbefore : ∀ a, test a = true → keep a = false)
    (hafter : ∀ a, test a = true → keep (f a) = true) (hempty : l.filter keep = [])
    (hsome : ∃ a ∈ l, test a = true) :
    ∃ a ∈ l, test a = true ∧ (updateFirst test f l).filter keep = [f a] := by
  induction l with
  | nil => simp at hsome
  | cons a rest ih =>
      by_cases htest : test a = true
      · refine ⟨a, by simp, htest, ?_⟩
        have hrest : rest.filter keep = [] := by
          simpa [hbefore a htest] using hempty
        simp [updateFirst, htest, hafter a htest, hrest]
      · obtain ⟨b, hb, hbtest⟩ := hsome
        have hb' : b ∈ rest := by
          rcases List.mem_cons.mp hb with rfl | hb
          · exact absurd hbtest htest
          · exact hb
        have hkeep : keep a = false := by
          by_contra hkeep
          simp [hkeep] at hempty
        obtain ⟨x, hx, hxtest, hfilter⟩ := ih (by simpa [hkeep] using hempty) ⟨b, hb', hbtest⟩
        exact ⟨x, by simp [hx], hxtest, by simp [updateFirst, htest, hkeep, hfilter]⟩

end Memcr.FirstMatch
