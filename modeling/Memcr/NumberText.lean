import Mathlib.Data.Char
import Mathlib.Data.List.TakeWhile
import Mathlib.Tactic.IntervalCases

namespace Memcr.NumberText

/-- `isspace` -/
def isSpace (c : Char) : Bool := c.toNat == 32 || (9 ≤ c.toNat && c.toNat ≤ 13)

def skipSpaces (text : List Char) : List Char := text.dropWhile isSpace

def digitValue (c : Char) : Option Nat :=
  if 48 ≤ c.toNat ∧ c.toNat ≤ 57 then some (c.toNat - 48)
  else if 97 ≤ c.toNat ∧ c.toNat ≤ 102 then some (c.toNat - 87)
  else if 65 ≤ c.toNat ∧ c.toNat ≤ 70 then some (c.toNat - 55)
  else none

def digitRun (base : Nat) : List Char → List Nat × List Char
  | [] => ([], [])
  | c :: rest =>
      match digitValue c with
      | some d =>
          if d < base then ((d :: (digitRun base rest).1), (digitRun base rest).2)
          else ([], c :: rest)
      | none => ([], c :: rest)

/-- The number that the digits stand for. -/
def ofDigitRun (base : Nat) (digits : List Nat) : Nat :=
  digits.foldl (fun n d => n * base + d) 0

/-- An optional sign: whether it is a minus, and what follows it. -/
def sign : List Char → Bool × List Char
  | c :: rest =>
      if c.toNat = 45 then (true, rest) else if c.toNat = 43 then (false, rest)
      else (false, c :: rest)
  | [] => (false, [])

/-- `0x` in front of a hexadecimal digit. -/
def hexMark : List Char → Bool
  | zero :: x :: c :: _ =>
      zero.toNat == 48 && (x.toNat == 120 || x.toNat == 88) && (digitValue c).isSome
  | _ => false

/-- The base that is in force, 0 leaving it to the number, and what follows its mark. -/
def radix (base : Nat) (text : List Char) : Nat × List Char :=
  if (base = 0 ∨ base = 16) ∧ hexMark text = true then (16, text.drop 2)
  else if base = 0 then
    ((match text with
      | c :: _ => if c.toNat = 48 then 8 else 10
      | [] => 10), text)
  else (base, text)

def ulongMax : Nat := 2 ^ 64 - 1

/-- `strtoul`: the value and what follows the number; `none` if there is none. -/
def readNumber (base : Nat) (text : List Char) : Option (Nat × List Char) :=
  let (negative, text) := sign (skipSpaces text)
  let (base, text) := radix base text
  let (digits, rest) := digitRun base text
  let n := ofDigitRun base digits
  if digits = [] then none
  else if ulongMax < n then some (ulongMax, rest)
  else if negative then some ((2 ^ 64 - n) % 2 ^ 64, rest)
  else some (n, rest)

/-- A number written with at least `width` digits. -/
def writeNumber (base width n : Nat) : List Char :=
  List.leftpad width (Nat.digitChar 0) (Nat.toDigits base n)

/-- What follows a number cannot be taken for a part of it. -/
def Delimits (text : List Char) : Prop :=
  ∀ c ∈ text.head?, digitValue c = none ∧ c.toNat ≠ 120 ∧ c.toNat ≠ 88

section Digits

variable {base n d : Nat} {digits : List Nat} {rest : List Char}

theorem digitValue_digitChar (hd : d < 16) : digitValue (Nat.digitChar d) = some d := by
  interval_cases d <;> decide

theorem digitRun_map (hdigits : ∀ d ∈ digits, d < base) (hbase : base ≤ 16)
    (hrest : ∀ c ∈ rest.head?, digitValue c = none) :
    digitRun base (digits.map Nat.digitChar ++ rest) = (digits, rest) := by
  induction digits with
  | nil =>
      cases rest with
      | nil => rfl
      | cons c rest => simp [digitRun, hrest c rfl]
  | cons d digits ih =>
      have hd := hdigits d List.mem_cons_self
      have htail := ih fun x hx => hdigits x (List.mem_cons_of_mem d hx)
      simp only [List.map_cons, List.cons_append, digitRun,
        digitValue_digitChar (hd.trans_le hbase), if_pos hd, htail]

theorem ofDigitRun_append (digits : List Nat) (d : Nat) :
    ofDigitRun base (digits ++ [d]) = ofDigitRun base digits * base + d := by
  simp [ofDigitRun]

theorem ofDigitRun_replicate_zero (k : Nat) (digits : List Nat) :
    ofDigitRun base (List.replicate k 0 ++ digits) = ofDigitRun base digits := by
  induction k with
  | zero => rfl
  | succ k ih =>
      rw [List.replicate_succ, List.cons_append]
      simpa [ofDigitRun] using ih

theorem toDigits_eq_map (hbase : 1 < base) (n : Nat) :
    ∃ digits, Nat.toDigits base n = digits.map Nat.digitChar ∧ (∀ d ∈ digits, d < base) ∧
      digits ≠ [] ∧ ofDigitRun base digits = n ∧ (0 < n → digits.head? ≠ some 0) := by
  induction n using Nat.strong_induction_on with
  | _ n ih =>
      rcases lt_or_ge n base with hlt | hge
      · refine ⟨[n], Nat.toDigits_of_lt_base hlt, by simpa using hlt, by simp, by simp [ofDigitRun],
          ?_⟩
        intro hpos
        simpa using hpos.ne'
      · have hquot : 0 < n / base := Nat.div_pos hge (by omega)
        obtain ⟨digits, htext, hlt, hne, hvalue, hhead⟩ :=
          ih (n / base) (Nat.div_lt_self (by omega) hbase)
        have hsplit := Nat.toDigits_append_toDigits hbase hquot (Nat.mod_lt n (by omega : 0 < base))
        rw [Nat.div_add_mod, htext,
          Nat.toDigits_of_lt_base (Nat.mod_lt n (by omega : 0 < base))] at hsplit
        refine ⟨digits ++ [n % base], ?_, ?_, by simp, ?_, ?_⟩
        · rw [← hsplit, List.map_append, List.map_singleton]
        · intro d hd
          rcases List.mem_append.mp hd with hd | hd
          · exact hlt d hd
          · rw [List.mem_singleton.mp hd]
            exact Nat.mod_lt n (by omega)
        · rw [ofDigitRun_append, hvalue, Nat.div_add_mod']
        · intro _
          obtain ⟨d, more, rfl⟩ := List.exists_cons_of_ne_nil hne
          exact hhead hquot

theorem writeNumber_eq_map (hbase : 1 < base) (width n : Nat) :
    ∃ digits, writeNumber base width n = digits.map Nat.digitChar ∧ (∀ d ∈ digits, d < base) ∧
      digits ≠ [] ∧ ofDigitRun base digits = n := by
  obtain ⟨digits, htext, hlt, hne, hvalue, -⟩ := toDigits_eq_map hbase n
  refine ⟨List.replicate (width - digits.length) 0 ++ digits, ?_, ?_, by simp [hne], ?_⟩
  · simp [writeNumber, List.leftpad, htext]
  · intro d hd
    rcases List.mem_append.mp hd with hd | hd
    · rw [List.eq_of_mem_replicate hd]
      omega
    · exact hlt d hd
  · rw [ofDigitRun_replicate_zero, hvalue]

theorem digitChar_plain (hd : d < 16) :
    isSpace (Nat.digitChar d) = false ∧ (Nat.digitChar d).toNat ≠ 45 ∧
      (Nat.digitChar d).toNat ≠ 43 ∧ (Nat.digitChar d).toNat ≠ 120 ∧
      (Nat.digitChar d).toNat ≠ 88 ∧ ((Nat.digitChar d).toNat = 48 → d = 0) := by
  interval_cases d <;> decide

theorem hexMark_map (hdigits : ∀ d ∈ digits, d < 16) (hne : digits ≠ []) (hrest : Delimits rest) :
    hexMark (digits.map Nat.digitChar ++ rest) = false := by
  have hsecond : ∀ zero x tail, x.toNat ≠ 120 → x.toNat ≠ 88 →
      hexMark (zero :: x :: tail) = false := by
    intro zero x tail hlower hupper
    cases tail <;> simp [hexMark, hlower, hupper]
  match digits, hdigits, hne with
  | [d], _, _ =>
      cases rest with
      | nil => rfl
      | cons c rest => exact hsecond _ _ _ (hrest c rfl).2.1 (hrest c rfl).2.2
  | d :: d' :: digits, hdigits, _ =>
      obtain ⟨-, -, -, hlower, hupper, -⟩ := digitChar_plain (hdigits d' (by simp))
      exact hsecond _ _ _ hlower hupper

theorem sign_skipSpaces_map (hdigits : ∀ d ∈ digits, d < 16) (hne : digits ≠ [])
    (rest : List Char) :
    sign (skipSpaces (digits.map Nat.digitChar ++ rest)) =
      (false, digits.map Nat.digitChar ++ rest) := by
  obtain ⟨d, more, rfl⟩ := List.exists_cons_of_ne_nil hne
  obtain ⟨hspace, hminus, hplus, -⟩ := digitChar_plain (hdigits d List.mem_cons_self)
  simp [skipSpaces, hspace, sign, hminus, hplus]

theorem readNumber_map {radixUsed : Nat} (hdigits : ∀ d ∈ digits, d < radixUsed)
    (hbase : radixUsed ≤ 16) (hne : digits ≠ [])
    (hradix : radix base (digits.map Nat.digitChar ++ rest) =
      (radixUsed, digits.map Nat.digitChar ++ rest))
    (hvalue : ofDigitRun radixUsed digits < 2 ^ 64) (hrest : Delimits rest) :
    readNumber base (digits.map Nat.digitChar ++ rest) =
      some (ofDigitRun radixUsed digits, rest) := by
  have hrun := digitRun_map hdigits hbase fun c hc => (hrest c hc).1
  have hfits : ¬ ulongMax < ofDigitRun radixUsed digits := by
    simp only [ulongMax]
    omega
  have hplain := sign_skipSpaces_map (fun d hd => (hdigits d hd).trans_le hbase) hne rest
  simp only [readNumber, hplain, hradix, hrun, if_neg hne, if_neg hfits, Bool.false_eq_true,
    if_false]

theorem readNumber_zero_toDigits (hpos : 0 < n) (hn : n < 2 ^ 64) (hrest : Delimits rest) :
    readNumber 0 (Nat.toDigits 10 n ++ rest) = some (n, rest) := by
  obtain ⟨digits, htext, hlt, hne, hvalue, hhead⟩ := toDigits_eq_map (by omega : 1 < 10) n
  rw [← hvalue] at hn
  have hmark := hexMark_map (fun d hd => (hlt d hd).trans_le (by omega)) hne hrest
  have hradix : radix 0 (digits.map Nat.digitChar ++ rest) =
      (10, digits.map Nat.digitChar ++ rest) := by
    obtain ⟨d, more, rfl⟩ := List.exists_cons_of_ne_nil hne
    have hd : d ≠ 0 := by simpa using hhead hpos
    have hfirst : (Nat.digitChar d).toNat ≠ 48 := fun heq =>
      hd ((digitChar_plain ((hlt d List.mem_cons_self).trans_le (by omega))).2.2.2.2.2 heq)
    simp only [List.map_cons, List.cons_append] at hmark ⊢
    simp [radix, hmark, hfirst]
  rw [htext, readNumber_map hlt (by omega) hne hradix hn hrest, hvalue]

end Digits

end Memcr.NumberText
