import Memcr.NumberText

namespace Memcr.FormatScanning

open Memcr.NumberText

/-- A conversion of a `scanf` format. -/
inductive Directive where
  /-- `%lx` and `%x` -/
  | hex
  /-- `%lu` -/
  | dec
  /-- `%c` -/
  | char
  /-- `%s` with a width. -/
  | word (width : Nat)
  /-- A blank, which matches any number of them. -/
  | blanks
  | literal (c : Char)
  deriving DecidableEq, Repr

inductive Field where
  | number (n : Nat)
  | char (c : Char)
  | word (text : List Char)
  deriving DecidableEq, Repr

/-- A directive matches, or does not, or finds the text at its end. -/
inductive Match where
  | passes (fields : List Field) (rest : List Char)
  | mismatch
  | textEnds
  deriving DecidableEq, Repr

/-- `0x`, which begins a number even if no digit follows. -/
def marked : List Char → Bool
  | zero :: x :: _ => zero.toNat == 48 && (x.toNat == 120 || x.toNat == 88)
  | _ => false

/-- A number, with its value as `strtoul` has it. -/
def scanNumber (base : Nat) (text : List Char) : Option (Nat × List Char) :=
  let (negative, text) := sign (skipSpaces text)
  let text := if base = 16 ∧ marked text = true then text.drop 2 else text
  let (digits, rest) := digitRun base text
  let n := ofDigitRun base digits
  if digits = [] then none
  else if ulongMax < n then some (ulongMax, rest)
  else if negative then some ((2 ^ 64 - n) % 2 ^ 64, rest)
  else some (n, rest)

def numberMatch (base : Nat) (text : List Char) : Match :=
  if skipSpaces text = [] then .textEnds
  else
    match scanNumber base text with
    | none => .mismatch
    | some (n, rest) => .passes [.number n] rest

/-- What a directive makes of the text. -/
def Directive.scan : Directive → List Char → Match
  | .hex, text => numberMatch 16 text
  | .dec, text => numberMatch 10 text
  | .char, [] => .textEnds
  | .char, c :: rest => .passes [.char c] rest
  | .word width, text =>
      let word := ((skipSpaces text).takeWhile fun c => !isSpace c).take width
      if word = [] then .textEnds
      else .passes [.word word] ((skipSpaces text).drop word.length)
  | .blanks, text => .passes [] (skipSpaces text)
  | .literal _, [] => .textEnds
  | .literal c, c' :: rest => if c = c' then .passes [] rest else .mismatch

/-- The fields of a text, and whether it came to its end. -/
def scanFields : List Directive → List Char → List Field × Bool
  | [], _ => ([], false)
  | directive :: format, text =>
      match directive.scan text with
      | .passes fields rest =>
          (fields ++ (scanFields format rest).1, (scanFields format rest).2)
      | .mismatch => ([], false)
      | .textEnds => ([], true)

/-- `sscanf`: the number of fields, or -1 if the text ended before the first of them. -/
def sscanf (format : List Directive) (text : List Char) : Int × List Field :=
  let (fields, ended) := scanFields format text
  (if fields = [] ∧ ended = true then -1 else fields.length, fields)

section Matching

variable {base n : Nat} {digits : List Nat} {rest text : List Char} {format : List Directive}

theorem marked_map (hdigits : ∀ d ∈ digits, d < 16) (hne : digits ≠ []) (hrest : Delimits rest) :
    marked (digits.map Nat.digitChar ++ rest) = false := by
  match digits, hdigits, hne with
  | [d], _, _ =>
      cases rest with
      | nil => rfl
      | cons c rest => simp [marked, (hrest c rfl).2.1, (hrest c rfl).2.2]
  | d :: d' :: digits, hdigits, _ =>
      obtain ⟨-, -, -, hlower, hupper, -⟩ := digitChar_plain (hdigits d' (by simp))
      simp [marked, hlower, hupper]

theorem numberMatch_writeNumber (hbase : base = 10 ∨ base = 16) (width : Nat) (hn : n < 2 ^ 64)
    (hrest : Delimits rest) :
    numberMatch base (writeNumber base width n ++ rest) = .passes [.number n] rest := by
  have hle : base ≤ 16 := by omega
  obtain ⟨digits, htext, hlt, hne, hvalue⟩ := writeNumber_eq_map (by omega : 1 < base) width n
  have hplain := sign_skipSpaces_map (fun d hd => (hlt d hd).trans_le hle) hne rest
  have hmark := marked_map (fun d hd => (hlt d hd).trans_le hle) hne hrest
  have hrun := digitRun_map hlt hle fun c hc => (hrest c hc).1
  have hfits : ¬ ulongMax < n := by
    simp only [ulongMax]
    omega
  have hspaces : skipSpaces (digits.map Nat.digitChar ++ rest) ≠ [] := by
    intro hnil
    rw [hnil] at hplain
    simp [sign, hne] at hplain
  rw [htext, numberMatch, if_neg hspaces, scanNumber]
  simp only [hplain, hmark, Bool.false_eq_true, and_false, if_false, hrun, hvalue, if_neg hne,
    if_neg hfits]

theorem scanFields_hex (width : Nat) (hn : n < 2 ^ 64) (hrest : Delimits rest) :
    scanFields (.hex :: format) (writeNumber 16 width n ++ rest) =
      (.number n :: (scanFields format rest).1, (scanFields format rest).2) := by
  rw [scanFields, Directive.scan, numberMatch_writeNumber (Or.inr rfl) width hn hrest]
  rfl

theorem scanFields_dec (width : Nat) (hn : n < 2 ^ 64) (hrest : Delimits rest) :
    scanFields (.dec :: format) (writeNumber 10 width n ++ rest) =
      (.number n :: (scanFields format rest).1, (scanFields format rest).2) := by
  rw [scanFields, Directive.scan, numberMatch_writeNumber (Or.inl rfl) width hn hrest]
  rfl

theorem scanFields_char (c : Char) (rest : List Char) :
    scanFields (.char :: format) (c :: rest) =
      (.char c :: (scanFields format rest).1, (scanFields format rest).2) := rfl

theorem scanFields_literal (c : Char) (rest : List Char) :
    scanFields (.literal c :: format) (c :: rest) = scanFields format rest := by
  simp [scanFields, Directive.scan]

theorem scanFields_blanks (text : List Char) :
    scanFields (.blanks :: format) text = scanFields format (skipSpaces text) := rfl

end Matching

end Memcr.FormatScanning
