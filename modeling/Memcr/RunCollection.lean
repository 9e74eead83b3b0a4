import Mathlib.Data.List.Basic
import Mathlib.Data.List.Count
import Mathlib.Order.Lattice
import Mathlib.Order.Nat

namespace Memcr.RunCollection

/-- A mark takes its position into the current run, stops the run, or passes over the
position without ending the run. -/
inductive Mark where
  | pass
  | take
  | stop
  deriving DecidableEq, Repr

/-- A run. It has a first position and a count, so a position passed over inside it is
not told apart from one that was taken. -/
structure Span where
  first : Nat
  count : Nat
  deriving DecidableEq, Repr

def Span.stop (s : Span) : Nat := s.first + s.count

def Span.Covers (s : Span) (p : Nat) : Prop := s.first ≤ p ∧ p < s.stop

instance (s : Span) (p : Nat) : Decidable (s.Covers p) :=
  inferInstanceAs (Decidable (_ ∧ _))

/-- The current run with one more position. -/
def grow (idx : Nat) : Option Span → Span
  | none => ⟨idx, 1⟩
  | some s => ⟨s.first, s.count + 1⟩

/-- A run is handed out when it has reached the limit. -/
def full (limit : Option Nat) (count : Nat) : Bool := limit.any (· ≤ count)

/-- The runs handed out over the given number of remaining positions. The last
position ends a run only when it is taken. -/
def spans (limit : Option Nat) (marks : Nat → Mark) : Nat → Nat → Option Span → List Span
  | 0, _, _ => []
  | left + 1, idx, current =>
      match marks idx with
      | .pass => spans limit marks left (idx + 1) current
      | .stop => current.toList ++ spans limit marks left (idx + 1) none
      | .take =>
          let s := grow idx current
          if left = 0 ∨ full limit s.count = true then s :: spans limit marks left (idx + 1) none
          else spans limit marks left (idx + 1) (some s)

section Steps

variable {limit : Option Nat} {marks : Nat → Mark} {left idx : Nat} {current : Option Span}

theorem spans_pass (h : marks idx = .pass) :
    spans limit marks (left + 1) idx current = spans limit marks left (idx + 1) current := by
  simp only [spans, h]

theorem spans_stop (h : marks idx = .stop) :
    spans limit marks (left + 1) idx current =
      current.toList ++ spans limit marks left (idx + 1) none := by
  simp only [spans, h]

theorem spans_take (h : marks idx = .take) :
    spans limit marks (left + 1) idx current =
      if left = 0 ∨ full limit (grow idx current).count = true then
        grow idx current :: spans limit marks left (idx + 1) none
      else spans limit marks left (idx + 1) (some (grow idx current)) := by
  simp only [spans, h]

theorem forall_mem_spans {n : Nat} (Inv : Nat → Option Span → Prop) {P : Span → Prop}
    (hpass : ∀ {idx current}, idx < n → Inv idx current → marks idx = .pass →
      Inv (idx + 1) current)
    (hstop : ∀ {idx current}, idx < n → Inv idx current → marks idx = .stop →
      (∀ s ∈ current, P s) ∧ Inv (idx + 1) none)
    (htake : ∀ {idx current}, idx < n → Inv idx current → marks idx = .take →
      (idx + 1 = n ∨ full limit (grow idx current).count = true → P (grow idx current)) ∧
        Inv (idx + 1) (some (grow idx current)) ∧ Inv (idx + 1) none)
    (hn : idx + left = n) (hinit : Inv idx current) :
    ∀ s ∈ spans limit marks left idx current, P s := by
  induction left generalizing idx current with
  | zero => simp [spans]
  | succ left ih =>
      have hidx : idx < n := by omega
      have hnext : idx + 1 + left = n := by omega
      rcases hmark : marks idx with _ | _ | _
      · rw [spans_pass hmark]
        exact ih hnext (hpass hidx hinit hmark)
      · obtain ⟨hhanded, hmore, hnone⟩ := htake hidx hinit hmark
        rw [spans_take hmark]
        split
        · rename_i hends
          intro s hs
          rcases List.mem_cons.mp hs with rfl | hs
          · exact hhanded (hends.imp (by omega) id)
          · exact ih hnext hnone s hs
        · exact ih hnext hmore
      · obtain ⟨hhanded, hnone⟩ := hstop hidx hinit hmark
        rw [spans_stop hmark]
        intro s hs
        rcases List.mem_append.mp hs with hs | hs
        · exact hhanded s (Option.mem_toList.mp hs)
        · exact ih hnext hnone s hs

/-- The current run lies behind and is not empty. -/
def Behind (idx : Nat) (current : Option Span) : Prop :=
  ∀ s ∈ current, 0 < s.count ∧ s.stop ≤ idx

theorem behind_none (idx : Nat) : Behind idx none := by
  rintro s ⟨⟩

theorem Behind.grow (h : Behind idx current) : Behind (idx + 1) (some (grow idx current)) := by
  rintro s ⟨⟩
  rcases current with _ | s
  · exact ⟨Nat.one_pos, le_rfl⟩
  · obtain ⟨-, hstop⟩ := h s rfl
    simp only [Span.stop] at hstop
    exact ⟨Nat.succ_pos _, by simp only [RunCollection.grow, Span.stop]; omega⟩

theorem Behind.succ (h : Behind idx current) : Behind (idx + 1) current :=
  fun s hs => ⟨(h s hs).1, (h s hs).2.trans (Nat.le_succ idx)⟩

theorem spans_bounded (h : Behind idx current) :
    ∀ s ∈ spans limit marks left idx current, 0 < s.count ∧ s.stop ≤ idx + left := by
  refine forall_mem_spans Behind ?_ ?_ ?_ rfl h
  · intro i c _ hc _
    exact hc.succ
  · intro i c hi hc _
    exact ⟨fun s hs => ⟨(hc s hs).1, (hc s hs).2.trans hi.le⟩, behind_none _⟩
  · intro i c hi hc _
    have hgrown := hc.grow
    refine ⟨fun _ => ?_, hgrown, behind_none _⟩
    obtain ⟨hpos, hstop⟩ := hgrown _ rfl
    exact ⟨hpos, hstop.trans hi⟩

theorem spans_count_le {m : Nat} (hm : 0 < m) (h : ∀ s ∈ current, s.count < m) :
    ∀ s ∈ spans (some m) marks left idx current, s.count ≤ m := by
  induction left generalizing idx current with
  | zero => simp [spans]
  | succ left ih =>
      have hgrown : (grow idx current).count ≤ m := by
        rcases current with _ | s
        · exact hm
        · exact h s rfl
      rcases hmark : marks idx with _ | _ | _
      · rw [spans_pass hmark]
        exact ih h
      · rw [spans_take hmark]
        split
        · intro s hs
          rcases List.mem_cons.mp hs with rfl | hs
          · exact hgrown
          · exact ih (by simp) s hs
        · rename_i hgoes
          -- a run that is full is handed out, so the current one never is
          apply ih
          rintro s ⟨⟩
          simp only [full, Option.any_some, decide_eq_true_eq, not_or, not_le] at hgoes
          exact hgoes.2
      · rw [spans_stop hmark]
        intro s hs
        rcases List.mem_append.mp hs with hs | hs
        · exact (h s (Option.mem_toList.mp hs)).le
        · exact ih (by simp) s hs

/-- Where the runs still to come begin at the earliest. -/
def earliest (idx : Nat) (current : Option Span) : Nat := current.elim idx Span.first

theorem earliest_grow (idx : Nat) (current : Option Span) :
    (grow idx current).first = earliest idx current := by
  rcases current with _ | s <;> rfl

theorem Behind.earliest_le (h : Behind idx current) : earliest idx current ≤ idx := by
  rcases current with _ | s
  · exact le_rfl
  · obtain ⟨-, hstop⟩ := h s rfl
    exact (Nat.le_add_right _ _).trans hstop

theorem earliest_le_first (h : Behind idx current) :
    ∀ s ∈ spans limit marks left idx current, earliest idx current ≤ s.first := by
  induction left generalizing idx current with
  | zero => simp [spans]
  | succ left ih =>
      have hle := h.earliest_le
      have hnone : ∀ s ∈ spans limit marks left (idx + 1) none, earliest idx current ≤ s.first :=
        fun s hs => (hle.trans (Nat.le_succ idx)).trans (ih (behind_none _) s hs)
      rcases hmark : marks idx with _ | _ | _
      · rw [spans_pass hmark]
        intro s hs
        refine le_trans ?_ (ih h.succ s hs)
        rcases current with _ | c
        · exact Nat.le_succ idx
        · exact le_rfl
      · rw [spans_take hmark]
        split
        · intro s hs
          rcases List.mem_cons.mp hs with rfl | hs
          · exact (earliest_grow idx current).ge
          · exact hnone s hs
        · intro s hs
          rw [← earliest_grow]
          exact ih h.grow s hs
      · rw [spans_stop hmark]
        intro s hs
        rcases List.mem_append.mp hs with hs | hs
        · obtain rfl : current = some s := Option.mem_toList.mp hs
          exact le_rfl
        · exact hnone s hs

theorem spans_pairwise (h : Behind idx current) :
    (spans limit marks left idx current).Pairwise fun s t => s.stop ≤ t.first := by
  induction left generalizing idx current with
  | zero => simp [spans]
  | succ left ih =>
      have hrest : ∀ {s : Span}, s.stop ≤ idx + 1 →
          ∀ t ∈ spans limit marks left (idx + 1) none, s.stop ≤ t.first :=
        fun hstop t ht => hstop.trans (earliest_le_first (behind_none _) t ht)
      rcases hmark : marks idx with _ | _ | _
      · rw [spans_pass hmark]
        exact ih h.succ
      · rw [spans_take hmark]
        split
        · exact List.pairwise_cons.mpr ⟨hrest (h.grow _ rfl).2, ih (behind_none _)⟩
        · exact ih h.grow
      · rw [spans_stop hmark]
        rcases current with _ | s
        · exact ih (behind_none _)
        · exact List.pairwise_cons.mpr ⟨hrest (h.succ s rfl).2, ih (behind_none _)⟩

end Steps

section Coverage

/-- How many of the runs cover a position. -/
def covering (runs : List Span) (p : Nat) : Nat := runs.countP fun s => decide (s.Covers p)

@[simp] theorem covering_nil (p : Nat) : covering [] p = 0 := rfl

theorem covering_cons (s : Span) (runs : List Span) (p : Nat) :
    covering (s :: runs) p = (if s.Covers p then 1 else 0) + covering runs p := by
  simp only [covering, List.countP_cons, decide_eq_true_eq]
  exact Nat.add_comm _ _

theorem covering_singleton (s : Span) (p : Nat) :
    covering [s] p = if s.Covers p then 1 else 0 := by
  simp [covering]

variable {m n : Nat} {marks : Nat → Mark} {left idx : Nat} {s : Span}

/-- The positions still to come that are to be covered. -/
def due (n : Nat) (marks : Nat → Mark) (idx p : Nat) : Nat :=
  if idx ≤ p ∧ p < n ∧ marks p = .take then 1 else 0

theorem due_eq_of_not_taken {idx' : Nat} (hle : idx ≤ idx')
    (h : ∀ k, idx ≤ k → k < idx' → marks k ≠ .take) : due n marks idx = due n marks idx' := by
  funext p
  simp only [due]
  congr 1
  apply propext
  constructor
  · rintro ⟨hlow, hhigh, htake⟩
    refine ⟨?_, hhigh, htake⟩
    by_contra hbefore
    exact h p hlow (by omega) htake
  · rintro ⟨hlow, hhigh, htake⟩
    exact ⟨hle.trans hlow, hhigh, htake⟩

theorem covers_one {p : Nat} : (⟨idx, 1⟩ : Span).Covers p ↔ p = idx := by
  simp only [Span.Covers, Span.stop]
  omega

theorem due_take (h : marks idx = .take) (hidx : idx < n) (p : Nat) :
    due n marks idx p = covering [⟨idx, 1⟩] p + due n marks (idx + 1) p := by
  rw [covering_singleton]
  rcases eq_or_ne p idx with rfl | hne
  · simp [due, covers_one, hidx, h]
  · have hlow : idx ≤ p ↔ idx + 1 ≤ p := by omega
    rw [if_neg (mt covers_one.mp hne), Nat.zero_add]
    simp only [due, hlow]

theorem covering_grow {current : Option Span} (h : ∀ s ∈ current, s.stop = idx) (p : Nat) :
    covering [grow idx current] p = covering current.toList p + covering [⟨idx, 1⟩] p := by
  rcases current with _ | s
  · exact (Nat.zero_add _).symm
  · have hstop := h s rfl
    have hcovers : (grow idx (some s)).Covers p ↔ s.Covers p ∨ p = idx := by
      simp only [grow, Span.Covers, Span.stop] at hstop ⊢
      omega
    have hapart : s.Covers p → p ≠ idx := by
      simp only [Span.Covers, hstop]
      omega
    simp only [Option.toList_some, covering_singleton, covers_one, hcovers]
    split_ifs <;> simp_all

/-- From here on positions are passed over until one stops the run. -/
def StopsNext (n : Nat) (marks : Nat → Mark) (idx : Nat) : Prop :=
  ∃ j, idx ≤ j ∧ j < n ∧ marks j = .stop ∧ ∀ k, idx ≤ k → k < j → marks k = .pass

theorem stopsNext_of_pass (h : marks idx = .pass) (hnext : StopsNext n marks (idx + 1)) :
    StopsNext n marks idx := by
  obtain ⟨j, hle, hlt, hstop, hbetween⟩ := hnext
  refine ⟨j, by omega, hlt, hstop, ?_⟩
  intro k hlow hhigh
  rcases hlow.eq_or_lt with rfl | hlow
  · exact h
  · exact hbetween k hlow hhigh

theorem spans_pass_to {limit : Option Nat} {current : Option Span} {j : Nat} (hle : idx ≤ j)
    (hj : j ≤ n) (h : ∀ k, idx ≤ k → k < j → marks k = .pass) :
    spans limit marks (n - idx) idx current = spans limit marks (n - j) j current := by
  induction j, hle using Nat.le_induction with
  | base => rfl
  | succ j hle ih =>
      rw [ih (by omega) fun k hlow hhigh => h k hlow (by omega),
        show n - j = (n - (j + 1)) + 1 by omega]
      exact spans_pass (h j hle (Nat.lt_succ_self j))

theorem spans_of_stopsNext {limit : Option Nat} {j : Nat} (hle : idx ≤ j) (hlt : j < n)
    (hstop : marks j = .stop) (hbetween : ∀ k, idx ≤ k → k < j → marks k = .pass) :
    spans limit marks (n - idx) idx (some s) =
      s :: spans limit marks (n - (j + 1)) (j + 1) none := by
  rw [spans_pass_to hle hlt.le hbetween, show n - j = (n - (j + 1)) + 1 by omega, spans_stop hstop]
  rfl

theorem spans_idle {limit : Option Nat} {j : Nat} (hle : idx ≤ j) (hj : j ≤ n)
    (h : ∀ k, idx ≤ k → k < j → marks k ≠ .take) :
    spans limit marks (n - idx) idx none = spans limit marks (n - j) j none := by
  induction j, hle using Nat.le_induction with
  | base => rfl
  | succ j hle ih =>
      rw [ih (by omega) fun k hlow hhigh => h k hlow (by omega),
        show n - j = (n - (j + 1)) + 1 by omega]
      rcases hmark : marks j with _ | _ | _
      · exact spans_pass hmark
      · exact absurd hmark (h j hle (Nat.lt_succ_self j))
      · exact spans_stop hmark

/-- A run is handed out with its last position when that is the very last one, or
when the run is stopped before it grows further. -/
theorem spans_take_last (limit : Option Nat) (current : Option Span) (hidx : idx < n)
    (htake : marks idx = .take) (hend : idx + 1 = n ∨ StopsNext n marks (idx + 1)) :
    ∃ rest, spans limit marks (n - idx) idx current = grow idx current :: rest := by
  rw [show n - idx = (n - (idx + 1)) + 1 by omega, spans_take htake]
  split
  · exact ⟨_, rfl⟩
  · rename_i hmore
    rcases hend with hlast | ⟨j, hle, hlt, hstop, hbetween⟩
    · exact absurd (Or.inl (by omega)) hmore
    · exact ⟨_, spans_of_stopsNext hle hlt hstop hbetween⟩

theorem spans_take_more {current : Option Span} (hidx : idx + 1 < n) (htake : marks idx = .take) :
    spans none marks (n - idx) idx current =
      spans none marks (n - (idx + 1)) (idx + 1) (some (grow idx current)) := by
  rw [show n - idx = (n - (idx + 1)) + 1 by omega, spans_take htake, if_neg]
  rintro (hleft | hfull)
  · omega
  · simp [full] at hfull

theorem spans_some {limit : Option Nat} :
    spans limit marks left idx (some s) = [] ∨
      ∃ c rest, s.count ≤ c ∧ spans limit marks left idx (some s) = ⟨s.first, c⟩ :: rest := by
  induction left generalizing idx s with
  | zero => exact Or.inl rfl
  | succ left ih =>
      rcases hmark : marks idx with _ | _ | _
      · rw [spans_pass hmark]
        exact ih
      · rw [spans_take hmark]
        split
        · exact Or.inr ⟨s.count + 1, _, Nat.le_succ _, rfl⟩
        · rcases ih (s := grow idx (some s)) with hnone | ⟨c, rest, hc, hspans⟩
          · exact Or.inl hnone
          · exact Or.inr ⟨c, rest, (Nat.le_succ _).trans hc, hspans⟩
      · rw [spans_stop hmark]
        exact Or.inr ⟨s.count, _, le_rfl, rfl⟩

theorem spans_of_not_stopsNext (limit : Option Nat) (s : Span) (hn : idx + left = n)
    (h : ¬ StopsNext n marks idx) :
    spans limit marks left idx (some s) = [] ∨
      ∃ c rest, s.count < c ∧ spans limit marks left idx (some s) = ⟨s.first, c⟩ :: rest := by
  induction left generalizing idx with
  | zero => exact Or.inl rfl
  | succ left ih =>
      rcases hmark : marks idx with _ | _ | _
      · rw [spans_pass hmark]
        exact ih (by omega) fun hnext => h (stopsNext_of_pass hmark hnext)
      · rw [spans_take hmark]
        split
        · exact Or.inr ⟨s.count + 1, _, Nat.lt_succ_self _, rfl⟩
        · rcases spans_some (s := grow idx (some s)) with hnone | ⟨c, rest, hc, hspans⟩
          · exact Or.inl hnone
          · exact Or.inr ⟨c, rest, hc, hspans⟩
      · exact absurd ⟨idx, le_rfl, by omega, hmark, fun k hlow hhigh => by omega⟩ h

/-- The length of the run that is open before a position, for runs of at most
`m` positions. -/
def pending (m : Nat) (marks : Nat → Mark) : Nat → Nat
  | 0 => 0
  | i + 1 =>
      match marks i with
      | .pass => pending m marks i
      | .stop => 0
      | .take => (pending m marks i + 1) % m

/-- No open run is passed over, unless it is stopped before it grows. -/
def Separated (m n : Nat) (marks : Nat → Mark) (idx : Nat) : Prop :=
  ∀ i, idx ≤ i → i < n → marks i = .pass → pending m marks i ≠ 0 → StopsNext n marks (i + 1)

/-- The current run ends right before the position, and is what is pending there. -/
structure Tight (m n : Nat) (marks : Nat → Mark) (idx : Nat) (current : Option Span) : Prop where
  pending_eq : idx < n → pending m marks idx = current.elim 0 Span.count
  span : ∀ s ∈ current, 0 < s.count ∧ s.count < m ∧ s.stop = idx ∧ idx < n

theorem separated_succ (h : marks idx = .pass → pending m marks idx ≠ 0 →
    StopsNext n marks (idx + 1)) :
    Separated m n marks idx ↔ Separated m n marks (idx + 1) := by
  constructor
  · intro hall i hle
    exact hall i (by omega)
  · intro hall i hle hlt hpass hpending
    rcases hle.eq_or_lt with rfl | hlt'
    · exact h hpass hpending
    · exact hall i hlt' hlt hpass hpending

theorem separated_of_stop {j : Nat} (hle : idx ≤ j) (hlt : j < n) (hstop : marks j = .stop)
    (hbetween : ∀ k, idx ≤ k → k < j → marks k = .pass) :
    Separated m n marks idx ↔ Separated m n marks (j + 1) := by
  constructor
  · intro hall i hi
    exact hall i (by omega)
  · intro hall i hi hin hpass hpending
    rcases Nat.lt_trichotomy i j with hbefore | rfl | hbehind
    · exact ⟨j, hbefore, hlt, hstop, fun k hlow hhigh => hbetween k (by omega) hhigh⟩
    · rw [hstop] at hpass
      cases hpass
    · exact hall i hbehind hin hpass hpending

theorem Tight.none (h : idx < n → pending m marks idx = 0) : Tight m n marks idx none where
  pending_eq := h
  span := by rintro s ⟨⟩

theorem Tight.grow {current : Option Span} (h : Tight m n marks idx current)
    (hmark : marks idx = .take) (hidx : idx + 1 < n) (hlt : (grow idx current).count < m) :
    Tight m n marks (idx + 1) (some (grow idx current)) where
  pending_eq := by
    intro _
    have hcount : (RunCollection.grow idx current).count = pending m marks idx + 1 := by
      rw [h.pending_eq (by omega)]
      rcases current with _ | s <;> rfl
    simp only [pending, hmark, ← hcount]
    exact Nat.mod_eq_of_lt hlt
  span := by
    rintro s ⟨⟩
    refine ⟨?_, hlt, ?_, hidx⟩
    · rcases current with _ | s
      · exact Nat.one_pos
      · exact Nat.succ_pos _
    · rcases current with _ | s
      · rfl
      · have hstop := (h.span s rfl).2.2.1
        simp only [RunCollection.grow, Span.stop] at hstop ⊢
        omega

theorem pending_full {current : Option Span} (h : Tight m n marks idx current) (hidx : idx < n)
    (hmark : marks idx = .take) (hm : 0 < m) (hfull : m ≤ (grow idx current).count) :
    pending m marks (idx + 1) = 0 := by
  have hcount : (grow idx current).count = pending m marks idx + 1 := by
    rw [h.pending_eq hidx]
    rcases current with _ | s <;> rfl
  have hle : (grow idx current).count ≤ m := by
    rcases current with _ | s
    · exact hm
    · exact (h.span s rfl).2.1
  simp only [pending, hmark, ← hcount, le_antisymm hle hfull, Nat.mod_self]

/-- A run that is passed over and not stopped next covers the position passed
over, or is never handed out. -/
theorem not_covering_of_not_stopsNext {limit : Option Nat} (hn : idx + left = n)
    (hpos : 0 < s.count) (hstop : s.stop = idx) (hpass : marks idx = .pass)
    (h : ¬ StopsNext n marks idx) :
    ¬ ∀ p, covering (spans limit marks left idx (some s)) p =
      covering [s] p + due n marks idx p := by
  intro hall
  rcases spans_of_not_stopsNext limit s hn h with hnone | ⟨c, rest, hc, hspans⟩
  · have hfirst := hall s.first
    have hcovers : s.Covers s.first := ⟨le_rfl, Nat.lt_add_of_pos_right hpos⟩
    rw [hnone, covering_nil, covering_singleton, if_pos hcovers] at hfirst
    omega
  · have hpassed := hall idx
    have hcovers : (⟨s.first, c⟩ : Span).Covers idx := by
      simp only [Span.Covers, Span.stop] at hstop ⊢
      omega
    have hnot : ¬ s.Covers idx := fun hin => by
      have := hin.2
      omega
    have hdue : ¬ (idx ≤ idx ∧ idx < n ∧ marks idx = .take) := by
      simp [hpass]
    rw [hspans, covering_cons, if_pos hcovers, covering_singleton, if_neg hnot, due,
      if_neg hdue] at hpassed
    omega

/-- An open run at a position that is passed over: it is handed out as it is if a
stop comes next, and what follows the stop begins with no run open. -/
theorem covering_iff_of_pass (hn : idx + left = n) (hidx : idx < n) (hpos : 0 < s.count)
    (hstop : s.stop = idx) (hpass : marks idx = .pass)
    (hpending : pending m marks idx = s.count)
    (ih : ∀ j, idx ≤ j → j < n → marks j = .stop →
      ((∀ p, covering (spans (some m) marks (n - (j + 1)) (j + 1) none) p =
        due n marks (j + 1) p) ↔ Separated m n marks (j + 1))) :
    (∀ p, covering (spans (some m) marks left idx (some s)) p =
        covering [s] p + due n marks idx p) ↔ Separated m n marks idx := by
  by_cases hstops : StopsNext n marks idx
  · obtain ⟨j, hle, hlt, hj, hbetween⟩ := hstops
    have hdue : due n marks idx = due n marks (j + 1) := by
      apply due_eq_of_not_taken (by omega)
      intro k hlow hhigh htake
      rcases (Nat.lt_succ_iff.mp hhigh).eq_or_lt with rfl | hk
      · simp [hj] at htake
      · simp [hbetween k hlow hk] at htake
    obtain rfl : left = n - idx := by omega
    rw [spans_of_stopsNext hle hlt hj hbetween, hdue, separated_of_stop hle hlt hj hbetween,
      ← ih j hle hlt hj]
    simp [covering_cons]
  · refine iff_of_false (not_covering_of_not_stopsNext hn hpos hstop hpass hstops) fun hall => ?_
    apply hstops
    apply stopsNext_of_pass hpass
    exact hall idx le_rfl hidx hpass (by rw [hpending]; exact hpos.ne')

theorem covering_iff_of_take (hm : 0 < m) {current : Option Span}
    (htight : Tight m n marks idx current) (hnext : idx + 1 + left = n)
    (hmark : marks idx = .take)
    (hrest : pending m marks (idx + 1) = 0 ∨ left = 0 →
      ((∀ p, covering (spans (some m) marks left (idx + 1) none) p =
        due n marks (idx + 1) p) ↔ Separated m n marks (idx + 1)))
    (hopen : Tight m n marks (idx + 1) (some (grow idx current)) →
      ((∀ p, covering (spans (some m) marks left (idx + 1) (some (grow idx current))) p =
        covering [grow idx current] p + due n marks (idx + 1) p) ↔
          Separated m n marks (idx + 1))) :
    (∀ p, covering (spans (some m) marks (left + 1) idx current) p =
        covering current.toList p + due n marks idx p) ↔ Separated m n marks idx := by
  have hidx : idx < n := by omega
  have hgrown := covering_grow (fun s hs => (htight.span s hs).2.2.1)
  have hsplit : ∀ p, covering current.toList p + due n marks idx p =
      covering [grow idx current] p + due n marks (idx + 1) p := by
    intro p
    rw [due_take hmark hidx, hgrown]
    omega
  rw [separated_succ (by simp [hmark]), spans_take hmark]
  simp only [hsplit]
  split
  · rename_i hends
    rw [← hrest]
    · simp [covering_cons]
    · rcases hends with hleft | hfull
      · exact Or.inr hleft
      · exact Or.inl (pending_full htight hidx hmark hm (by simpa [full] using hfull))
  · rename_i hgoes
    simp only [full, Option.any_some, decide_eq_true_eq, not_or, not_le] at hgoes
    exact hopen (htight.grow hmark (by omega) hgoes.2)

/-- Coverage: every taken position is covered exactly once and no other position
is, exactly when no open run is passed over and goes on to grow. -/
theorem covering_iff (hm : 0 < m) {current : Option Span} (hn : idx + left = n)
    (htight : Tight m n marks idx current) :
    (∀ p, covering (spans (some m) marks left idx current) p =
        covering current.toList p + due n marks idx p) ↔ Separated m n marks idx := by
  induction left using Nat.strong_induction_on generalizing idx current with
  | _ left ih =>
      rcases left with _ | left
      · -- no run is open behind the last position
        obtain rfl : idx = n := by omega
        have hnone : current = none := by
          rcases current with _ | s
          · rfl
          · exact absurd (htight.span s rfl).2.2.2 (lt_irrefl _)
        subst hnone
        refine iff_of_true (fun p => ?_) fun i hle hlt => by omega
        simp only [spans, Option.toList_none, covering_nil, Nat.zero_add, due]
        exact (if_neg (by omega)).symm
      · have hidx : idx < n := by omega
        have hpending := htight.pending_eq hidx
        have hnext : idx + 1 + left = n := by omega
        have hrest : pending m marks (idx + 1) = 0 ∨ left = 0 →
            ((∀ p, covering (spans (some m) marks left (idx + 1) none) p =
              due n marks (idx + 1) p) ↔ Separated m n marks (idx + 1)) := by
          intro hzero
          have hnone := ih left (Nat.lt_succ_self left) hnext
            (Tight.none fun hlt => hzero.resolve_right (by omega))
          simpa using hnone
        have hskip (hne : marks idx ≠ .take) : due n marks idx = due n marks (idx + 1) := by
          apply due_eq_of_not_taken (Nat.le_succ idx)
          intro k hlow hhigh
          obtain rfl : k = idx := by omega
          exact hne
        rcases hmark : marks idx with _ | _ | _
        · rcases current with _ | s
          · rw [spans_pass hmark, hskip (by simp [hmark]),
              separated_succ fun _ hne => absurd hpending hne]
            simpa using hrest (Or.inl (by simp only [pending, hmark]; exact hpending))
          · obtain ⟨hpos, -, hstop, -⟩ := htight.span s rfl
            refine covering_iff_of_pass hn hidx hpos hstop hmark hpending fun j hle hlt hj => ?_
            have hnone : (∀ p, covering (spans (some m) marks (n - (j + 1)) (j + 1) none) p =
                covering (none : Option Span).toList p + due n marks (j + 1) p) ↔
                  Separated m n marks (j + 1) :=
              ih _ (by omega) (by omega) (Tight.none fun _ => by simp only [pending, hj])
            simpa using hnone
        · apply covering_iff_of_take hm htight hnext hmark hrest
          exact ih left (Nat.lt_succ_self left) hnext
        · rw [spans_stop hmark, hskip (by simp [hmark]), separated_succ (by simp [hmark]),
            ← hrest (Or.inl (by simp only [pending, hmark]))]
          rcases current with _ | s
          · simp
          · simp [covering_cons]

end Coverage

end Memcr.RunCollection
