import Mathlib.Data.List.Basic

namespace Memcr.BlockStreams

universe u v

variable {α : Type u} {σ : Type v}

/-- Process the first `n` blocks of the data. -/
def runBlocks (size : Nat) (step : σ → List α → List α × σ) :
    Nat → σ → List α → List α × σ
  | 0, s, _ => ([], s)
  | n + 1, s, data =>
      let first := step s (data.take size)
      let rest := runBlocks size step n first.2 (data.drop size)
      (first.1 ++ rest.1, rest.2)

/-- The state behind the last block that was processed, and the data behind it. -/
structure BlockStream (σ : Type v) (α : Type u) where
  state : σ
  pending : List α

/-- Feed more data: what comes out, and the stream behind it. -/
def BlockStream.feed (size : Nat) (step : σ → List α → List α × σ) (ready : Nat → Nat)
    (st : BlockStream σ α) (input : List α) : List α × BlockStream σ α :=
  let data := st.pending ++ input
  let n := ready data.length
  let processed := runBlocks size step n st.state data
  (processed.1, ⟨processed.2, data.drop (n * size)⟩)

/-- A rule for the number of blocks to process, by the length of the data: they
are there, and it makes no difference whether the data comes at once or in two
parts. -/
structure Rule (size : Nat) (ready : Nat → Nat) : Prop where
  le : ∀ k, ready k * size ≤ k
  add : ∀ k j, ready k + ready (k - ready k * size + j) = ready (k + j)

section Streams

variable {size : Nat} {step : σ → List α → List α × σ} {ready : Nat → Nat} {s : σ}
  {fed : List α} {st : BlockStream σ α}

theorem runBlocks_add (m n : Nat) (s : σ) (data : List α) :
    runBlocks size step (m + n) s data =
      ((runBlocks size step m s data).1 ++
          (runBlocks size step n (runBlocks size step m s data).2 (data.drop (m * size))).1,
        (runBlocks size step n (runBlocks size step m s data).2 (data.drop (m * size))).2) := by
  induction m generalizing s data with
  | zero => simp [runBlocks]
  | succ m ih =>
      have hdrop : (data.drop size).drop (m * size) = data.drop ((m + 1) * size) := by
        rw [List.drop_drop, Nat.succ_mul, Nat.add_comm]
      rw [Nat.add_right_comm, runBlocks, ih, hdrop]
      simp only [runBlocks, List.append_assoc]

theorem runBlocks_append {n : Nat} {data : List α} (h : n * size ≤ data.length) (s : σ)
    (more : List α) :
    runBlocks size step n s (data ++ more) = runBlocks size step n s data := by
  induction n generalizing s data with
  | zero => rfl
  | succ n ih =>
      rw [Nat.succ_mul] at h
      have htake : (data ++ more).take size = data.take size :=
        List.take_append_of_le_length (by omega)
      have hdrop : (data ++ more).drop size = data.drop size ++ more :=
        List.drop_append_of_le_length (by omega)
      simp only [runBlocks, htake, hdrop]
      rw [ih (by rw [List.length_drop]; omega)]

/-- Steps that give a block for a block give as much as they are given, and keep
what every step keeps. -/
theorem runBlocks_length {P : σ → Prop}
    (hstep : ∀ {s block}, P s → block.length = size →
      (step s block).1.length = size ∧ P (step s block).2)
    {n : Nat} {data : List α} (hdata : n * size ≤ data.length) (hs : P s) :
    (runBlocks size step n s data).1.length = n * size ∧
      P (runBlocks size step n s data).2 := by
  induction n generalizing s data with
  | zero => exact ⟨by simp [runBlocks], hs⟩
  | succ n ih =>
      rw [Nat.succ_mul] at hdata
      obtain ⟨hblock, hnext⟩ := hstep hs (List.length_take_of_le (by omega : size ≤ data.length))
      obtain ⟨hout, hlast⟩ := @ih _ (data.drop size) (by rw [List.length_drop]; omega) hnext
      refine ⟨?_, hlast⟩
      rw [runBlocks, List.length_append, hblock, hout, Nat.succ_mul, Nat.add_comm]

/-- What has come out of a stream after it was fed with `fed`. -/
def released (size : Nat) (step : σ → List α → List α × σ) (ready : Nat → Nat) (s : σ)
    (fed : List α) : List α :=
  (runBlocks size step (ready fed.length) s fed).1

/-- The stream that starts in the state `s` and was fed with `fed`. -/
structure Fed (size : Nat) (step : σ → List α → List α × σ) (ready : Nat → Nat) (s : σ)
    (fed : List α) (st : BlockStream σ α) : Prop where
  state : st.state = (runBlocks size step (ready fed.length) s fed).2
  pending : st.pending = fed.drop (ready fed.length * size)

theorem fed_nil (hready : Rule size ready) (s : σ) :
    Fed size step ready s [] ⟨s, []⟩ where
  state := by
    have hzero : ready 0 = 0 := by simpa using hready.add 0 0
    simp [hzero, runBlocks]
  pending := by simp

theorem Fed.unique {st' : BlockStream σ α} (h : Fed size step ready s fed st)
    (h' : Fed size step ready s fed st') : st = st' := by
  rcases st with ⟨state, pending⟩
  rcases st' with ⟨state', pending'⟩
  obtain ⟨rfl, rfl⟩ := h
  obtain ⟨rfl, rfl⟩ := h'
  rfl

theorem Fed.feed (h : Fed size step ready s fed st) (hready : Rule size ready)
    (input : List α) :
    Fed size step ready s (fed ++ input) (st.feed size step ready input).2 ∧
      released size step ready s fed ++ (st.feed size step ready input).1 =
        released size step ready s (fed ++ input) := by
  have hle := hready.le fed.length
  have hdata : st.pending ++ input = (fed ++ input).drop (ready fed.length * size) := by
    rw [h.pending, List.drop_append_of_le_length hle]
  have hcount : ready fed.length + ready (st.pending ++ input).length =
      ready (fed ++ input).length := by
    rw [hdata, List.length_drop, List.length_append, ← hready.add fed.length input.length]
    congr 2
    omega
  have hwhole := @runBlocks_add _ _ size step (ready fed.length)
    (ready (st.pending ++ input).length) s (fed ++ input)
  rw [runBlocks_append hle, ← h.state, ← hdata, hcount] at hwhole
  refine ⟨⟨?_, ?_⟩, ?_⟩
  · rw [hwhole]
    rfl
  · simp only [BlockStream.feed]
    rw [← hcount, Nat.add_mul, ← List.drop_drop, ← hdata]
  · simp only [released, hwhole]
    rfl

end Streams

end Memcr.BlockStreams
