import Mathlib.Data.List.Basic

namespace Memcr.IndexedLists

universe u v

variable {α : Type u}

/-- Every element satisfies the property at its position. -/
def Indexed (property : Nat → α → Prop) (l : List α) : Prop :=
  ∀ k a, l[k]? = some a → property k a

variable {property : Nat → α → Prop} {l : List α}

theorem indexed_nil : Indexed property [] := by
  intro k a h
  simp at h

theorem Indexed.mono {weaker : Nat → α → Prop} (h : Indexed property l)
    (himp : ∀ k a, l[k]? = some a → property k a → weaker k a) : Indexed weaker l :=
  fun k a ha => himp k a ha (h k a ha)

theorem getElem?_modify_eq_some {k j : Nat} {f : α → α} {b : α}
    (h : (l.modify k f)[j]? = some b) :
    ∃ a, l[j]? = some a ∧ b = if k = j then f a else a := by
  rw [List.getElem?_modify] at h
  obtain ⟨a, ha, hb⟩ := Option.map_eq_some_iff.mp h
  exact ⟨a, ha, hb.symm⟩

theorem Indexed.modify {k : Nat} {f : α → α} (h : Indexed property l)
    (hf : ∀ a, l[k]? = some a → property k a → property k (f a)) :
    Indexed property (l.modify k f) := by
  intro j b hb
  obtain ⟨a, ha, rfl⟩ := getElem?_modify_eq_some hb
  split
  · rename_i heq
    subst heq
    exact hf a ha (h k a ha)
  · exact h j a ha

theorem map_modify_eq {β : Type v} {g : α → β} {k : Nat} {f : α → α}
    (h : ∀ a, g (f a) = g a) : (l.modify k f).map g = l.map g := by
  induction l generalizing k with
  | nil => simp
  | cons a rest ih =>
      cases k with
      | zero => simp [h]
      | succ k => simp [ih]

theorem Indexed.map {after : Nat → α → Prop} {f : α → α} (h : Indexed property l)
    (hf : ∀ k a, l[k]? = some a → property k a → after k (f a)) :
    Indexed after (l.map f) := by
  intro k b hb
  rw [List.getElem?_map] at hb
  obtain ⟨a, ha, rfl⟩ := Option.map_eq_some_iff.mp hb
  exact hf k a ha (h k a ha)

theorem getElem?_concat_eq_some {k : Nat} {a b : α} (h : (l ++ [a])[k]? = some b) :
    l[k]? = some b ∨ (k = l.length ∧ b = a) := by
  rcases Nat.lt_trichotomy k l.length with hlt | heq | hgt
  · rw [List.getElem?_append_left hlt] at h
    exact Or.inl h
  · subst heq
    simp only [List.getElem?_concat_length, Option.some.injEq] at h
    exact Or.inr ⟨rfl, h.symm⟩
  · rw [List.getElem?_eq_none (by simp; omega)] at h
    cases h

theorem Indexed.concat {a : α} (h : Indexed property l) (hnew : property l.length a) :
    Indexed property (l ++ [a]) := by
  intro k b hb
  rcases getElem?_concat_eq_some hb with hb | ⟨rfl, rfl⟩
  · exact h k b hb
  · exact hnew

/-- The elements of two lists correspond position by position. -/
structure Related (rel : α → α → Prop) (l after : List α) : Prop where
  forward : ∀ (k : Nat) a, l[k]? = some a → ∃ b, after[k]? = some b ∧ rel a b
  backward : ∀ (k : Nat) b, after[k]? = some b → ∃ a, l[k]? = some a ∧ rel a b

variable {rel : α → α → Prop}

theorem Related.modify {k : Nat} {f : α → α} (hrefl : ∀ a, rel a a)
    (hf : ∀ a, l[k]? = some a → rel a (f a)) : Related rel l (l.modify k f) := by
  have hrel : ∀ j a, l[j]? = some a → rel a (if k = j then f a else a) := by
    intro j a ha
    split
    · rename_i heq
      subst heq
      exact hf a ha
    · exact hrefl a
  constructor
  · intro j a ha
    exact ⟨_, by rw [List.getElem?_modify, ha]; rfl, hrel j a ha⟩
  · intro j b hb
    obtain ⟨a, ha, rfl⟩ := getElem?_modify_eq_some hb
    exact ⟨a, ha, hrel j a ha⟩

theorem Related.map {f : α → α} (hf : ∀ a, rel a (f a)) : Related rel l (l.map f) := by
  constructor
  · intro k a ha
    exact ⟨f a, by rw [List.getElem?_map, ha]; rfl, hf a⟩
  · intro k b hb
    rw [List.getElem?_map] at hb
    obtain ⟨a, ha, rfl⟩ := Option.map_eq_some_iff.mp hb
    exact ⟨a, ha, hf a⟩

theorem Related.refl (hrefl : ∀ a, rel a a) : Related rel l l :=
  ⟨fun _ a ha => ⟨a, ha, hrefl a⟩, fun _ a ha => ⟨a, ha, hrefl a⟩⟩

theorem Related.trans {middle after : List α} (h : Related rel l middle)
    (h' : Related rel middle after) (htrans : ∀ a b c, rel a b → rel b c → rel a c) :
    Related rel l after := by
  constructor
  · intro k a ha
    obtain ⟨b, hb, hab⟩ := h.forward k a ha
    obtain ⟨c, hc, hbc⟩ := h'.forward k b hb
    exact ⟨c, hc, htrans a b c hab hbc⟩
  · intro k c hc
    obtain ⟨b, hb, hbc⟩ := h'.backward k c hc
    obtain ⟨a, ha, hab⟩ := h.backward k b hb
    exact ⟨a, ha, htrans a b c hab hbc⟩

theorem Related.imp {weaker : α → α → Prop} {after : List α} (h : Related rel l after)
    (himp : ∀ a b, rel a b → weaker a b) : Related weaker l after := by
  constructor
  · intro k a ha
    obtain ⟨b, hb, hab⟩ := h.forward k a ha
    exact ⟨b, hb, himp a b hab⟩
  · intro k b hb
    obtain ⟨a, ha, hab⟩ := h.backward k b hb
    exact ⟨a, ha, himp a b hab⟩

theorem Indexed.related {passed : Nat → α → Prop} {after : List α} (h : Indexed property l)
    (hrel : Related rel l after) (hpass : ∀ k a b, rel a b → property k a → passed k b) :
    Indexed passed after := by
  intro k b hb
  obtain ⟨a, ha, hab⟩ := hrel.backward k b hb
  exact hpass k a b hab (h k a ha)

end Memcr.IndexedLists
