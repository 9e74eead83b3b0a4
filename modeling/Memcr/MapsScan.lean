import Mathlib.Data.List.DropRight
import Mathlib.Data.List.Nodup
import Mathlib.Data.Nat.Digits.Defs
import Memcr.CallOutcome
import Memcr.FormatScanning
import Memcr.PageSelection

/-!
How `scan_target_vmas` reads the memory map of the target. The text comes
through a buffer of 1024 bytes, one `fgets` at a time, so that a longer line
comes in pieces. Every piece is parsed as if it were a line, and the number of
fields that `sscanf` finds is also the result of the function when there are
too few of them.
-/

namespace Memcr.MapsScan

open Memcr.CallOutcome
open Memcr.FormatScanning
open Memcr.NumberText
open Memcr.PageSelection

/-- `MAX_VMAS` -/
def maxVmas : Nat := 3 * 4096

/-- What `fgets` reads at most, one byte less than the buffer has. -/
def lineLimit : Nat := 1023

def newline : Char := Char.ofNat 10

/-- `struct vm_area` as it is filled in by the scan. -/
structure ScannedVma where
  start : Nat
  stop : Nat
  prot : Nat
  flags : Nat
  deriving DecidableEq, Repr

/-- `fgets` for up to `n` bytes: the line or a piece of it, and the text behind. -/
def fgets : Nat → List Char → List Char × List Char
  | 0, text => ([], text)
  | _ + 1, [] => ([], [])
  | n + 1, c :: text =>
      if c = newline then ([c], text) else (c :: (fgets n text).1, (fgets n text).2)

/-- What the calls of `fgets` return, one after the other. -/
def piecesUpTo : Nat → List Char → List (List Char)
  | 0, _ => []
  | _ + 1, [] => []
  | rounds + 1, c :: text =>
      (fgets lineLimit (c :: text)).1 :: piecesUpTo rounds (fgets lineLimit (c :: text)).2

/-- What the calls of `fgets` give one after the other. Each of them takes something, so
there are no more of them than bytes. -/
def pieces (text : List Char) : List (List Char) := piecesUpTo text.length text

/-- `"%lx-%lx %c%c%c%c %lx %x:%x %lu %123s"` -/
def mapsFormat : List Directive :=
  [.hex, .literal '-', .hex, .blanks, .char, .char, .char, .char, .blanks, .hex, .blanks, .hex,
    .literal ':', .hex, .blanks, .dec, .blanks, .word 123]

/-- `should_skip_range` -/
def shouldSkipRange (blob start stop : Nat) : Bool := start ≤ blob && blob < stop

/-- The `flags` for a `file_path`, if the mapping is of interest. -/
def vmaFlags (path : List Char) : Option Nat :=
  if path.head? = some '/' then some flagFile
  else if path = [] then some flagAnon
  else if "[stack".toList <+: path then some flagStack
  else if "[heap".toList <+: path then some flagHeap
  else none

/-- `PROT_READ`, `PROT_WRITE` and `PROT_EXEC` -/
def vmaProt (readable writable executable : Bool) : Nat :=
  (if readable then 1 else 0) ||| (if writable then 2 else 0) ||| (if executable then 4 else 0)

/-- What becomes of a piece of the text. -/
inductive Verdict where
  /-- `sscanf` has found too few fields; this is what it returned. -/
  | stops (ret : Int)
  | aborts
  | passes
  | area (vma : ScannedVma)
  deriving DecidableEq, Repr

/-- `file_path`, which is empty to begin with. -/
def filePath : List Field → List Char
  | [.word text] => text
  | _ => []

/-- The body of the loop for one piece. -/
def judge (blob pageSize : Nat) (buf : List Char) : Verdict :=
  let (ret, fields) := sscanf mapsFormat buf
  if ret < 10 then .stops ret
  else
    match fields with
    | .number start :: .number stop :: .char r :: .char w :: .char x :: .char s ::
        _pgoff :: _devMaj :: _devMin :: _ino :: path =>
        if shouldSkipRange blob start ((stop + pageSize) % 2 ^ 64) then .passes
        else
          match vmaFlags (filePath path) with
          | none => .passes
          | some flags =>
              if s = 's' then .passes
              else if s ≠ 'p' then .aborts
              else .area ⟨start, stop, vmaProt (r == 'r') (w == 'w') (x == 'x'), flags⟩
    -- ten fields of this format are always as above
    | _ => .passes

/-- The loop of `scan_target_vmas` over the pieces. -/
def scanLoop (blob pageSize : Nat) :
    List (List Char) → List ScannedVma → Outcome (Int × List ScannedVma)
  | [], vmas => .returns (0, vmas)
  | buf :: rest, vmas =>
      match judge blob pageSize buf with
      | .stops ret => .returns (ret, vmas)
      | .aborts => .aborts
      | .passes => scanLoop blob pageSize rest vmas
      | .area vma =>
          -- the error is logged and the rest of the text read to no effect
          if vmas.length = maxVmas then scanLoop blob pageSize rest vmas
          else scanLoop blob pageSize rest (vmas ++ [vma])

/-- `scan_target_vmas`; the maps can be opened or not. -/
def scanTargetVmas (blob pageSize : Nat) (opened : Bool) (maps : List Char) :
    Outcome (Int × List ScannedVma) :=
  if !opened then .returns (-1, []) else scanLoop blob pageSize (pieces maps) []

/-- A line of `/proc/<pid>/maps` as the kernel prints it. -/
structure MapsLine where
  start : Nat
  stop : Nat
  readable : Bool
  writable : Bool
  executable : Bool
  shared : Bool
  pgoff : Nat
  devMaj : Nat
  devMin : Nat
  ino : Nat
  /-- Empty for a mapping without a name. -/
  name : List Char
  start_lt_stop : start < stop
  stop_lt : stop < 2 ^ 64
  pgoff_lt : pgoff < 2 ^ 64
  devMaj_lt : devMaj < 2 ^ 32
  devMin_lt : devMin < 2 ^ 32
  ino_lt : ino < 2 ^ 64
  name_plain : ∀ c ∈ name, c ≠ newline ∧ c.toNat ≠ 0
  name_head : ∀ c ∈ name.head?, isSpace c = false

def permission (set : Bool) (c : Char) : Char := if set then c else '-'

/-- The kernel's `"%08lx-%08lx %c%c%c%c %08lx %02x:%02x %lu "` -/
def MapsLine.header (line : MapsLine) : List Char :=
  writeNumber 16 8 line.start ++ '-' :: (writeNumber 16 8 line.stop ++
    ' ' :: permission line.readable 'r' :: permission line.writable 'w' ::
    permission line.executable 'x' :: (if line.shared then 's' else 'p') ::
    ' ' :: (writeNumber 16 8 line.pgoff ++
    ' ' :: (writeNumber 16 2 line.devMaj ++ ':' :: (writeNumber 16 2 line.devMin ++
    ' ' :: (writeNumber 10 1 line.ino ++ [' '])))))

/-- A name stands behind blanks up to the 73rd column. -/
def MapsLine.tail (line : MapsLine) : List Char :=
  if line.name = [] then []
  else List.replicate (72 - line.header.length + 1) ' ' ++ line.name

def MapsLine.text (line : MapsLine) : List Char := line.header ++ (line.tail ++ [newline])

/-- The maps of a process: the mappings come in the order of their addresses and do
not overlap. -/
structure Maps where
  lines : List MapsLine
  ordered : lines.Pairwise fun a b => a.stop ≤ b.start

def Maps.text (maps : Maps) : List Char := maps.lines.flatMap MapsLine.text

/-- The mapping of a line, if it is a private one of a file, without a name, a stack or a
heap, and not excluded. -/
def candidate (blob pageSize : Nat) (line : MapsLine) : Option ScannedVma :=
  if shouldSkipRange blob line.start ((line.stop + pageSize) % 2 ^ 64) || line.shared then none
  else
    (vmaFlags line.name).map fun flags =>
      ⟨line.start, line.stop, vmaProt line.readable line.writable line.executable, flags⟩

def Maps.candidates (maps : Maps) (blob pageSize : Nat) : List ScannedVma :=
  maps.lines.filterMap (candidate blob pageSize)

/-- If the scan succeeds, its list is the list of the candidates. -/
def Complete (maps : Maps) (blob pageSize : Nat) (opened : Bool) : Prop :=
  ∀ vmas, scanTargetVmas blob pageSize opened maps.text = .returns (0, vmas) →
    vmas = maps.candidates blob pageSize

section Pieces

variable {line body rest text : List Char} {n rounds : Nat}

/-- A text that ends with its only newline. -/
def IsLine (line : List Char) : Prop := ∃ body, line = body ++ [newline] ∧ newline ∉ body

theorem IsLine.ne_nil (h : IsLine line) : line ≠ [] := by
  obtain ⟨body, rfl, -⟩ := h
  simp

theorem IsLine.drop (h : IsLine line) (hn : n < line.length) : IsLine (line.drop n) := by
  obtain ⟨body, rfl, hbody⟩ := h
  rw [List.length_append, List.length_singleton] at hn
  refine ⟨body.drop n, ?_, fun hmem => hbody (List.mem_of_mem_drop hmem)⟩
  rw [List.drop_append_of_le_length (by omega)]

theorem fgets_line (h : IsLine line) (n : Nat) (rest : List Char) :
    fgets n (line ++ rest) = (line.take n, line.drop n ++ rest) := by
  obtain ⟨body, rfl, hbody⟩ := h
  induction body generalizing n with
  | nil =>
      rcases n with _ | n
      · rfl
      · simp [fgets]
  | cons c body ih =>
      obtain ⟨hc, hbody⟩ := List.ne_and_not_mem_of_not_mem_cons hbody
      rcases n with _ | n
      · rfl
      · have htail := ih n hbody
        simp only [List.append_assoc, List.singleton_append] at htail
        simp [fgets, hc.symm, htail]

theorem fgets_le (n : Nat) (text : List Char) : (fgets n text).2.length ≤ text.length := by
  induction n generalizing text with
  | zero => exact le_rfl
  | succ n ih =>
      rcases text with _ | ⟨c, text⟩
      · exact le_rfl
      · have := ih text
        simp only [fgets]
        split_ifs
        · exact Nat.le_succ _
        · exact this.trans (Nat.le_succ _)

theorem fgets_lt (c : Char) (text : List Char) :
    (fgets lineLimit (c :: text)).2.length ≤ text.length := by
  simp only [lineLimit, fgets]
  split_ifs
  · exact le_rfl
  · exact fgets_le 1022 text

theorem piecesUpTo_eq (hrounds : text.length ≤ rounds) : piecesUpTo rounds text = pieces text := by
  have hmore : ∀ {m n : Nat} {text : List Char}, text.length ≤ m → text.length ≤ n →
      piecesUpTo m text = piecesUpTo n text := by
    intro m
    induction m with
    | zero =>
        intro n text hm _
        obtain rfl := List.length_eq_zero_iff.mp (Nat.le_zero.mp hm)
        rcases n with _ | n <;> rfl
    | succ m ih =>
        intro n text hm hn
        rcases text with _ | ⟨c, text⟩
        · rcases n with _ | n <;> rfl
        · rcases n with _ | n
          · simp at hn
          · have hlt := fgets_lt c text
            rw [List.length_cons] at hm hn
            rw [piecesUpTo, piecesUpTo, @ih n _ (by omega) (by omega)]
  exact hmore hrounds le_rfl

theorem pieces_line (h : IsLine line) (rest : List Char) :
    pieces (line ++ rest) = line.take lineLimit :: pieces (line.drop lineLimit ++ rest) := by
  have hfgets := fgets_line h lineLimit rest
  obtain ⟨c, text, hcons⟩ : ∃ c text, line ++ rest = c :: text :=
    List.exists_cons_of_ne_nil (by simp [h.ne_nil])
  have hlt := fgets_lt c text
  rw [pieces, hcons, List.length_cons, piecesUpTo, piecesUpTo_eq hlt, ← hcons, hfgets]

theorem pieces_append (h : IsLine line) (rest : List Char) :
    pieces (line ++ rest) = pieces line ++ pieces rest := by
  induction hlen : line.length using Nat.strong_induction_on generalizing line with
  | _ len ih =>
      have hself := pieces_line h []
      rw [List.append_nil, List.append_nil] at hself
      rw [pieces_line h, hself, List.cons_append]
      congr 1
      rcases le_or_gt line.length lineLimit with hshort | hlong
      · rw [List.drop_of_length_le hshort]
        rfl
      · have hdrop := h.drop hlong
        refine ih (line.drop lineLimit).length ?_ hdrop rfl
        rw [List.length_drop, ← hlen]
        simp only [lineLimit] at *
        omega

end Pieces

section Headers

variable {base width n e : Nat} {line : MapsLine} {rest more : List Char}
  {format : List Directive}

theorem skipSpaces_cons_space (rest : List Char) : skipSpaces (' ' :: rest) = skipSpaces rest := rfl

theorem skipSpaces_of_head {c : Char} (h : isSpace c = false) :
    skipSpaces (c :: rest) = c :: rest := by
  simp [skipSpaces, h]

theorem delimits_cons {c : Char} (h : digitValue c = none ∧ c.toNat ≠ 120 ∧ c.toNat ≠ 88) :
    Delimits (c :: rest) := by
  intro c' hc'
  rw [List.head?_cons, Option.mem_some_iff] at hc'
  exact hc' ▸ h

theorem skipSpaces_writeNumber (hbase : base = 10 ∨ base = 16) (width n : Nat)
    (rest : List Char) :
    skipSpaces (writeNumber base width n ++ rest) = writeNumber base width n ++ rest := by
  obtain ⟨digits, htext, hlt, hne, -⟩ := writeNumber_eq_map (by omega : 1 < base) width n
  obtain ⟨d, digits, rfl⟩ := List.exists_cons_of_ne_nil hne
  rw [htext, List.map_cons, List.cons_append]
  have hd : d < 16 := by
    have := hlt d List.mem_cons_self
    omega
  exact skipSpaces_of_head (digitChar_plain hd).1

theorem scanFields_blank_hex (width : Nat) (hn : n < 2 ^ 64) (hrest : Delimits rest) :
    scanFields (.blanks :: .hex :: format) (' ' :: (writeNumber 16 width n ++ rest)) =
      (.number n :: (scanFields format rest).1, (scanFields format rest).2) := by
  rw [scanFields_blanks, skipSpaces_cons_space, skipSpaces_writeNumber (Or.inr rfl),
    scanFields_hex width hn hrest]

theorem scanFields_blank_dec (width : Nat) (hn : n < 2 ^ 64) (hrest : Delimits rest) :
    scanFields (.blanks :: .dec :: format) (' ' :: (writeNumber 10 width n ++ rest)) =
      (.number n :: (scanFields format rest).1, (scanFields format rest).2) := by
  rw [scanFields_blanks, skipSpaces_cons_space, skipSpaces_writeNumber (Or.inl rfl),
    scanFields_dec width hn hrest]

theorem scanFields_blank_char {c : Char} (hc : isSpace c = false) (rest : List Char) :
    scanFields (.blanks :: .char :: format) (' ' :: c :: rest) =
      (.char c :: (scanFields format rest).1, (scanFields format rest).2) := by
  rw [scanFields_blanks, skipSpaces_cons_space, skipSpaces_of_head hc, scanFields_char]

theorem permission_not_space (set : Bool) : isSpace (permission set 'r') = false := by
  cases set <;> decide

/-- What `sscanf` finds in the line. -/
def MapsLine.fields (line : MapsLine) : List Field :=
  [.number line.start, .number line.stop, .char (permission line.readable 'r'),
    .char (permission line.writable 'w'), .char (permission line.executable 'x'),
    .char (if line.shared then 's' else 'p'), .number line.pgoff, .number line.devMaj,
    .number line.devMin, .number line.ino]

theorem scanFields_header (line : MapsLine) (more : List Char) :
    scanFields mapsFormat (line.header ++ more) =
      (line.fields ++ (scanFields [.blanks, .word 123] (' ' :: more)).1,
        (scanFields [.blanks, .word 123] (' ' :: more)).2) := by
  have hdash : ∀ {rest : List Char}, Delimits ('-' :: rest) := delimits_cons (by decide)
  have hcolon : ∀ {rest : List Char}, Delimits (':' :: rest) := delimits_cons (by decide)
  have hblank : ∀ {rest : List Char}, Delimits (' ' :: rest) := delimits_cons (by decide)
  have hstart := line.start_lt_stop.trans line.stop_lt
  have hmaj := line.devMaj_lt.trans (by decide : 2 ^ 32 < 2 ^ 64)
  have hmin := line.devMin_lt.trans (by decide : 2 ^ 32 < 2 ^ 64)
  simp only [mapsFormat, MapsLine.header, List.append_assoc, List.cons_append, List.nil_append]
  rw [scanFields_hex 8 hstart hdash, scanFields_literal, scanFields_hex 8 line.stop_lt hblank,
    scanFields_blank_char (permission_not_space _), scanFields_char, scanFields_char,
    scanFields_char, scanFields_blank_hex 8 line.pgoff_lt hblank,
    scanFields_blank_hex 2 hmaj hcolon, scanFields_literal, scanFields_hex 2 hmin hblank,
    scanFields_blank_dec 1 line.ino_lt hblank]
  rfl

theorem writeNumber_length (base width e : Nat) (he : 0 < e) (hn : n < base ^ e) :
    (writeNumber base width n).length ≤ max width e := by
  have := Nat.toDigits_length base n e he hn
  simp only [writeNumber, List.leftpad, List.length_append, List.length_replicate]
  omega

theorem header_length (line : MapsLine) : line.header.length ≤ 95 := by
  have hstart := writeNumber_length 16 8 16 (by decide)
    (line.start_lt_stop.trans line.stop_lt)
  have hstop := writeNumber_length 16 8 16 (by decide)
    line.stop_lt
  have hpgoff := writeNumber_length 16 8 16 (by decide)
    line.pgoff_lt
  have hmaj := writeNumber_length 16 2 8 (by decide)
    line.devMaj_lt
  have hmin := writeNumber_length 16 2 8 (by decide)
    line.devMin_lt
  have hino := writeNumber_length 10 1 20 (by decide)
    (line.ino_lt.trans (by decide))
  simp only [MapsLine.header, List.length_append, List.length_cons, List.length_nil]
  omega

end Headers

section Paths

variable {line : MapsLine} {text name word rest : List Char} {m : Nat}

/-- What `%123s` stores, for what follows the ten fields. -/
def pathOf (text : List Char) : List Char :=
  ((skipSpaces text).takeWhile fun c => !isSpace c).take 123

theorem filePath_scanFields (text : List Char) :
    filePath (scanFields [.blanks, .word 123] text).1 = pathOf text ∧
      (scanFields [.blanks, .word 123] text).1.length ≤ 1 := by
  have hskip : skipSpaces (skipSpaces text) = skipSpaces text := List.dropWhile_idempotent _ _
  have hscan : (Directive.word 123).scan (skipSpaces text) =
      if pathOf text = [] then .textEnds
      else .passes [.word (pathOf text)] ((skipSpaces text).drop (pathOf text).length) := by
    simp only [Directive.scan, hskip]
    rfl
  rw [scanFields_blanks, scanFields, hscan]
  by_cases hpath : pathOf text = []
  · simp only [if_pos hpath]
    exact ⟨hpath.symm, Nat.zero_le 1⟩
  · simp only [if_neg hpath]
    exact ⟨rfl, le_rfl⟩

theorem isPrefix_takeWhile_iff {p : Char → Bool} (hword : ∀ c ∈ word, p c = true) :
    word <+: text.takeWhile p ↔ word <+: text := by
  constructor
  · exact fun h => h.trans (List.takeWhile_prefix p)
  · rintro ⟨rest, rfl⟩
    rw [List.takeWhile_append_of_pos hword]
    exact List.prefix_append _ _

theorem skipSpaces_name (hhead : ∀ c ∈ name.head?, isSpace c = false) (hname : name ≠ [])
    (hm : 0 < m) :
    skipSpaces ((name ++ [newline]).take m) = (name ++ [newline]).take m := by
  obtain ⟨c, name, rfl⟩ := List.exists_cons_of_ne_nil hname
  obtain ⟨m, rfl⟩ := Nat.exists_eq_succ_of_ne_zero hm.ne'
  rw [List.cons_append, Nat.succ_eq_add_one, List.take_succ_cons]
  exact skipSpaces_of_head (hhead c rfl)

theorem isPrefix_pathOf_iff (word : List Char) (hhead : ∀ c ∈ name.head?, isSpace c = false)
    (hname : name ≠ []) (hm : word.length ≤ m) (hpos : 0 < m)
    (hplain : word.all (fun c => !isSpace c) = true) (hlen : word.length ≤ 123) :
    word <+: pathOf ((name ++ [newline]).take m) ↔ word <+: name := by
  have hword : ∀ c ∈ word, isSpace c = false := by simpa using hplain
  have hline : word <+: name ++ [newline] ↔ word <+: name := by
    rw [List.prefix_concat_iff]
    refine or_iff_right ?_
    rintro rfl
    have := hword newline (by simp)
    simp [isSpace, newline] at this
  rw [pathOf, skipSpaces_name hhead hname hpos, List.prefix_take_iff,
    isPrefix_takeWhile_iff (by simpa using hword), List.prefix_take_iff, hline]
  exact ⟨fun h => h.1.1, fun h => ⟨⟨h, hm⟩, hlen⟩⟩

theorem vmaFlags_pathOf (hhead : ∀ c ∈ name.head?, isSpace c = false) (hname : name ≠ [])
    (hm : 6 ≤ m) : vmaFlags (pathOf ((name ++ [newline]).take m)) = vmaFlags name := by
  have hstack := isPrefix_pathOf_iff "[stack".toList hhead hname hm (by omega)
    (by decide) (by decide)
  have hheap := isPrefix_pathOf_iff "[heap".toList hhead hname
    (le_trans (by decide) hm) (by omega) (by decide) (by decide)
  have hfirst : (pathOf ((name ++ [newline]).take m)).head? = name.head? := by
    have hskip := skipSpaces_name hhead hname (by omega : 0 < m)
    obtain ⟨c, name, rfl⟩ := List.exists_cons_of_ne_nil hname
    obtain ⟨m, rfl⟩ := Nat.exists_eq_succ_of_ne_zero (by omega : m ≠ 0)
    rw [pathOf, hskip, List.cons_append, Nat.succ_eq_add_one, List.take_succ_cons]
    simp [hhead c rfl]
  have hnil : pathOf ((name ++ [newline]).take m) = [] ↔ name = [] := by
    rw [← List.head?_eq_none_iff, hfirst, List.head?_eq_none_iff]
  simp only [vmaFlags, hfirst, hnil, hstack, hheap]

theorem vmaFlags_tail (line : MapsLine) (hm : 79 ≤ m) :
    vmaFlags (pathOf (' ' :: (line.tail ++ [newline]).take m)) = vmaFlags line.name := by
  by_cases hname : line.name = []
  · rw [MapsLine.tail, if_pos hname, hname, List.nil_append,
      List.take_of_length_le (by rw [List.length_singleton]; omega)]
    rfl
  · have hblanks : ∀ c ∈ List.replicate (72 - line.header.length + 1) ' ', isSpace c = true := by
      intro c hc
      rw [List.eq_of_mem_replicate hc]
      decide
    have htake : (line.tail ++ [newline]).take m =
        List.replicate (72 - line.header.length + 1) ' ' ++
          (line.name ++ [newline]).take (m - (72 - line.header.length + 1)) := by
      rw [MapsLine.tail, if_neg hname, List.append_assoc, List.take_append, List.length_replicate,
        List.take_of_length_le (by rw [List.length_replicate]; omega)]
    have hpath : pathOf (' ' :: (line.tail ++ [newline]).take m) =
        pathOf ((line.name ++ [newline]).take (m - (72 - line.header.length + 1))) := by
      rw [pathOf, skipSpaces_cons_space, htake, skipSpaces, List.dropWhile_append_of_pos hblanks]
      rfl
    rw [hpath, vmaFlags_pathOf line.name_head hname (by omega)]

end Paths

section Heads

theorem take_text (line : MapsLine) :
    line.text.take lineLimit =
      line.header ++ (line.tail ++ [newline]).take (lineLimit - line.header.length) := by
  have := header_length line
  rw [MapsLine.text, List.take_append, List.take_of_length_le (by simp only [lineLimit]; omega)]

theorem permission_beq (set : Bool) :
    (permission set 'r' == 'r') = set ∧ (permission set 'w' == 'w') = set ∧
      (permission set 'x' == 'x') = set := by
  cases set <;> decide

theorem judge_head (blob pageSize : Nat) (line : MapsLine) :
    judge blob pageSize (line.text.take lineLimit) =
      match candidate blob pageSize line with
      | none => .passes
      | some vma => .area vma := by
  have hheader := header_length line
  have hflags := vmaFlags_tail line (m := lineLimit - line.header.length)
    (by simp only [lineLimit]; omega)
  obtain ⟨hpath, -⟩ := filePath_scanFields
    (' ' :: (line.tail ++ [newline]).take (lineLimit - line.header.length))
  rw [← hpath] at hflags
  rw [take_text, judge, sscanf, scanFields_header]
  generalize scanFields [.blanks, .word 123] _ = path at *
  have hret : ¬ ((if line.fields ++ path.1 = [] ∧ path.2 = true then (-1 : Int)
      else (line.fields ++ path.1).length) < 10) := by
    simp [MapsLine.fields]
    omega
  simp only [hret, if_false]
  simp only [MapsLine.fields, List.cons_append, List.nil_append, candidate, hflags,
    permission_beq]
  generalize shouldSkipRange blob line.start ((line.stop + pageSize) % 2 ^ 64) = skipped
  rcases vmaFlags line.name with _ | flags
  · cases skipped <;> cases line.shared <;> rfl
  · cases skipped <;> cases line.shared <;> rfl

theorem newline_notMem_writeNumber {base : Nat} (hbase : base = 10 ∨ base = 16) (width n : Nat) :
    newline ∉ writeNumber base width n := by
  obtain ⟨digits, htext, hlt, -⟩ := writeNumber_eq_map (by omega : 1 < base) width n
  rw [htext]
  intro hmem
  obtain ⟨d, hd, heq⟩ := List.mem_map.mp hmem
  have hspace := (digitChar_plain ((hlt d hd).trans_le (by omega : base ≤ 16))).1
  rw [heq] at hspace
  exact absurd hspace (by decide)

theorem newline_ne_permission (set : Bool) :
    newline ≠ permission set 'r' ∧ newline ≠ permission set 'w' ∧ newline ≠ permission set 'x' ∧
      newline ≠ if set then 's' else 'p' := by
  cases set <;> decide

theorem newline_notMem_header (line : MapsLine) : newline ∉ line.header := by
  have hhex := @newline_notMem_writeNumber 16 (Or.inr rfl)
  have hdec := @newline_notMem_writeNumber 10 (Or.inl rfl)
  have hblank : newline ≠ ' ' := by decide
  have hdash : newline ≠ '-' := by decide
  have hcolon : newline ≠ ':' := by decide
  simp only [MapsLine.header, List.mem_append, List.mem_cons, List.not_mem_nil, hhex, hdec, hblank,
    hdash, hcolon, newline_ne_permission, or_self, not_false_eq_true]

theorem isLine_text (line : MapsLine) : IsLine line.text := by
  refine ⟨line.header ++ line.tail, by simp [MapsLine.text], ?_⟩
  rw [List.mem_append, not_or]
  refine ⟨newline_notMem_header line, ?_⟩
  rw [MapsLine.tail]
  split_ifs
  · simp
  · intro hmem
    rcases List.mem_append.mp hmem with hblank | hname
    · exact absurd (List.eq_of_mem_replicate hblank) (by decide)
    · exact (line.name_plain newline hname).1 rfl

end Heads

/-- Whether a piece is the beginning of a line or comes from inside of one. -/
inductive Origin where
  | line
  | inside
  deriving DecidableEq, Repr

def MapsLine.pieces (line : MapsLine) : List (Origin × List Char) :=
  (.line, line.text.take lineLimit) ::
    (MapsScan.pieces (line.text.drop lineLimit)).map fun piece => (.inside, piece)

def Maps.pieces (maps : Maps) : List (Origin × List Char) := maps.lines.flatMap MapsLine.pieces

/-- The piece has the ten fields, and nothing ends the scan there. -/
def parsed (blob pageSize : Nat) (piece : Origin × List Char) : Bool :=
  match judge blob pageSize piece.2 with
  | .stops _ => false
  | .aborts => false
  | .passes => true
  | .area _ => true

/-- The area that the scan takes from a piece. -/
def areaOf (blob pageSize : Nat) (piece : Origin × List Char) : Option (Origin × ScannedVma) :=
  match judge blob pageSize piece.2 with
  | .area vma => some (piece.1, vma)
  | _ => none

/-- The text up to the first piece that is not parsed. -/
def Maps.read (maps : Maps) (blob pageSize : Nat) : List (Origin × List Char) :=
  maps.pieces.takeWhile (parsed blob pageSize)

/-- The pieces from the first one on that is not parsed. -/
def Maps.unread (maps : Maps) (blob pageSize : Nat) : List (Origin × List Char) :=
  maps.pieces.dropWhile (parsed blob pageSize)

/-- The text is parsed to its end, or to a piece in which `sscanf` finds no field at all. -/
def Silent (maps : Maps) (blob pageSize : Nat) : Prop :=
  ∀ piece ∈ (maps.unread blob pageSize).head?, judge blob pageSize piece.2 = .stops 0

/-- The areas of the text that is read, as far as there is room. -/
def stored (maps : Maps) (blob pageSize : Nat) : List (Origin × ScannedVma) :=
  ((maps.read blob pageSize).filterMap (areaOf blob pageSize)).take maxVmas

/-- The areas that are not stored: those behind the limit, and those behind a piece that
is not parsed. -/
def passedOver (maps : Maps) (blob pageSize : Nat) : List (Origin × ScannedVma) :=
  ((maps.read blob pageSize).filterMap (areaOf blob pageSize)).drop maxVmas ++
    (maps.unread blob pageSize).filterMap (areaOf blob pageSize)

def fromLines (found : List (Origin × ScannedVma)) : List ScannedVma :=
  (found.filter fun area => area.1 == .line).map Prod.snd

/-- The areas inside of a line. -/
def strays (found : List (Origin × ScannedVma)) : List ScannedVma :=
  (found.filter fun area => area.1 == .inside).map Prod.snd

/-- No area from a line stands behind one from inside a line. -/
def LinesFirst (found : List (Origin × ScannedVma)) : Prop :=
  found.Pairwise fun a b => b.1 = .line → a.1 = .line

section Scans

variable {blob pageSize : Nat} {vmas : List ScannedVma}

theorem areaOf_eq_some {piece : Origin × List Char} {area : Origin × ScannedVma} :
    areaOf blob pageSize piece = some area ↔
      judge blob pageSize piece.2 = .area area.2 ∧ piece.1 = area.1 := by
  rcases area with ⟨origin, vma⟩
  rw [areaOf]
  split
  · rename_i found hjudge
    simp [hjudge, and_comm]
  · rename_i hnot
    exact iff_of_false nofun fun h => hnot vma h.1

theorem scanLoop_eq (tagged : List (Origin × List Char)) (hroom : vmas.length ≤ maxVmas) :
    scanLoop blob pageSize (tagged.map Prod.snd) vmas =
      let found := (vmas ++ ((tagged.takeWhile (parsed blob pageSize)).filterMap
        (areaOf blob pageSize)).map Prod.snd).take maxVmas
      match (tagged.dropWhile (parsed blob pageSize)).head? with
      | none => .returns (0, found)
      | some piece =>
          match judge blob pageSize piece.2 with
          | .stops ret => .returns (ret, found)
          | _ => .aborts := by
  induction tagged generalizing vmas with
  | nil => simp [scanLoop, List.take_of_length_le hroom]
  | cons piece rest ih =>
      rcases hjudge : judge blob pageSize piece.2 with ret | _ | _ | vma
      · have hparsed : parsed blob pageSize piece = false := by rw [parsed, hjudge]
        simp [scanLoop, hjudge, hparsed, List.take_of_length_le hroom]
      · have hparsed : parsed blob pageSize piece = false := by rw [parsed, hjudge]
        simp [scanLoop, hjudge, hparsed]
      · have hparsed : parsed blob pageSize piece = true := by rw [parsed, hjudge]
        have hnone : areaOf blob pageSize piece = none := by rw [areaOf, hjudge]
        rw [List.takeWhile_cons_of_pos hparsed, List.dropWhile_cons_of_pos hparsed,
          List.filterMap_cons_none hnone, ← ih hroom]
        simp only [List.map_cons, scanLoop, hjudge]
      · have hparsed : parsed blob pageSize piece = true := by rw [parsed, hjudge]
        have hsome : areaOf blob pageSize piece = some (piece.1, vma) :=
          areaOf_eq_some.mpr ⟨hjudge, rfl⟩
        rw [List.takeWhile_cons_of_pos hparsed, List.dropWhile_cons_of_pos hparsed,
          List.filterMap_cons_some hsome]
        simp only [List.map_cons, scanLoop, hjudge]
        split_ifs with hfull
        · rw [ih hroom]
          simp only [List.take_append, hfull, Nat.sub_self, List.take_zero]
        · have hlonger : (vmas ++ [vma]).length ≤ maxVmas := by
            rw [List.length_append, List.length_singleton]
            omega
          rw [ih hlonger]
          simp only [List.append_assoc, List.singleton_append]

theorem pieces_eq (line : MapsLine) :
    MapsScan.pieces line.text = line.pieces.map Prod.snd := by
  have hself := pieces_line (isLine_text line) []
  rw [List.append_nil, List.append_nil] at hself
  rw [hself, MapsLine.pieces, List.map_cons, List.map_map]
  simp

theorem pieces_flatMap (lines : List MapsLine) :
    MapsScan.pieces (lines.flatMap MapsLine.text) =
      (lines.flatMap MapsLine.pieces).map Prod.snd := by
  induction lines with
  | nil => rfl
  | cons line rest ih =>
      rw [List.flatMap_cons, List.flatMap_cons, List.map_append,
        pieces_append (isLine_text line), ih, pieces_eq]

theorem scanTargetVmas_eq (maps : Maps) (blob pageSize : Nat) :
    scanTargetVmas blob pageSize true maps.text =
      match (maps.unread blob pageSize).head? with
      | none => .returns (0, (stored maps blob pageSize).map Prod.snd)
      | some piece =>
          match judge blob pageSize piece.2 with
          | .stops ret => .returns (ret, (stored maps blob pageSize).map Prod.snd)
          | _ => .aborts := by
  have hloop := @scanLoop_eq blob pageSize [] maps.pieces (Nat.zero_le _)
  rw [List.nil_append, ← List.map_take] at hloop
  refine Eq.trans ?_ hloop
  rw [scanTargetVmas, Maps.text, pieces_flatMap]
  rfl

theorem scanTargetVmas_eq_zero {maps : Maps} :
    scanTargetVmas blob pageSize true maps.text = .returns (0, vmas) ↔
      Silent maps blob pageSize ∧ vmas = (stored maps blob pageSize).map Prod.snd := by
  rw [scanTargetVmas_eq, Silent]
  rcases (maps.unread blob pageSize).head? with _ | piece
  · simp [eq_comm]
  · simp only [Option.mem_def, Option.some.injEq, forall_eq']
    rcases judge blob pageSize piece.2 with ret | _ | _ | vma
    · simp [eq_comm]
    · simp
    · simp
    · simp

theorem fromLines_append (found more : List (Origin × ScannedVma)) :
    fromLines (found ++ more) = fromLines found ++ fromLines more := by
  rw [fromLines, List.filter_append, List.map_append, fromLines, fromLines]

theorem fromLines_inside (blob pageSize : Nat) (pieces : List (List Char)) :
    fromLines ((pieces.map fun piece => (Origin.inside, piece)).filterMap
      (areaOf blob pageSize)) = [] := by
  rw [fromLines, List.map_eq_nil_iff, List.filter_eq_nil_iff]
  intro area harea
  obtain ⟨piece, hpiece, hsome⟩ := List.mem_filterMap.mp harea
  obtain ⟨text, -, rfl⟩ := List.mem_map.mp hpiece
  rw [← (areaOf_eq_some.mp hsome).2]
  exact Bool.false_ne_true

theorem candidates_eq (maps : Maps) (blob pageSize : Nat) :
    maps.candidates blob pageSize =
      fromLines (stored maps blob pageSize) ++ fromLines (passedOver maps blob pageSize) := by
  have hlines (lines : List MapsLine) : lines.filterMap (candidate blob pageSize) =
      fromLines ((lines.flatMap MapsLine.pieces).filterMap (areaOf blob pageSize)) := by
    induction lines with
    | nil => rfl
    | cons line rest ih =>
        rw [List.flatMap_cons, List.filterMap_append, fromLines_append, ← ih, MapsLine.pieces]
        have hinside := fromLines_inside blob pageSize (MapsScan.pieces (line.text.drop lineLimit))
        have hhead := judge_head blob pageSize line
        rcases hcandidate : candidate blob pageSize line with _ | vma
        · have hnone : areaOf blob pageSize (.line, line.text.take lineLimit) = none := by
            rw [areaOf, hhead, hcandidate]
          rw [List.filterMap_cons_none hcandidate, List.filterMap_cons_none hnone, hinside,
            List.nil_append]
        · have hsome : areaOf blob pageSize (.line, line.text.take lineLimit) =
              some (.line, vma) := by
            rw [areaOf_eq_some, hhead, hcandidate]
            exact ⟨rfl, rfl⟩
          rw [List.filterMap_cons_some hcandidate, List.filterMap_cons_some hsome]
          change vma :: _ = vma :: fromLines _ ++ _
          rw [hinside]
          rfl
  rw [Maps.candidates, hlines, ← fromLines_append, stored, passedOver, ← List.append_assoc,
    List.take_append_drop, ← List.filterMap_append, Maps.read, Maps.unread,
    List.takeWhile_append_dropWhile, Maps.pieces]

theorem candidate_eq_some {line : MapsLine} {vma : ScannedVma}
    (h : candidate blob pageSize line = some vma) :
    vma.start = line.start ∧ vma.stop = line.stop := by
  rw [candidate] at h
  split_ifs at h
  obtain ⟨flags, -, rfl⟩ := Option.map_eq_some_iff.mp h
  exact ⟨rfl, rfl⟩

theorem candidates_nodup (maps : Maps) (blob pageSize : Nat) :
    (maps.candidates blob pageSize).Nodup := by
  have hpairwise : maps.lines.Pairwise fun a b => a.start < b.start :=
    maps.ordered.imp fun {a b} h => a.start_lt_stop.trans_le h
  refine (List.pairwise_filterMap.mpr (hpairwise.imp ?_)).imp (R := fun a b => a.start < b.start) ?_
  · intro a b hlt vma hvma vma' hvma'
    rw [(candidate_eq_some hvma).1, (candidate_eq_some hvma').1]
    exact hlt
  · rintro a b hlt rfl
    exact lt_irrefl _ hlt

theorem LinesFirst.map_snd {found : List (Origin × ScannedVma)} (h : LinesFirst found) :
    found.map Prod.snd = fromLines found ++ strays found := by
  induction found with
  | nil => rfl
  | cons area rest ih =>
      obtain ⟨hfirst, hrest⟩ := List.pairwise_cons.mp h
      rcases area with ⟨_ | _, vma⟩
      · exact congrArg (vma :: ·) (ih hrest)
      · have hnone : fromLines rest = [] := by
          rw [fromLines, List.map_eq_nil_iff, List.filter_eq_nil_iff]
          intro area hmem hline
          exact absurd (hfirst area hmem (by simpa using hline)) (by simp)
        have hall := ih hrest
        rw [hnone, List.nil_append] at hall
        change vma :: rest.map Prod.snd = fromLines rest ++ vma :: strays rest
        rw [hnone, hall]
        rfl

theorem linesFirst_of_map_snd {found : List (Origin × ScannedVma)} {more : List ScannedVma}
    (hnodup : (fromLines found ++ more).Nodup)
    (heq : found.map Prod.snd = fromLines found ++ more) : LinesFirst found := by
  induction found with
  | nil => exact List.Pairwise.nil
  | cons area rest ih =>
      rcases area with ⟨_ | _, vma⟩
      · exact List.pairwise_cons.mpr ⟨fun _ _ _ => rfl,
          ih (List.nodup_cons.mp hnodup).2 (List.cons.inj heq).2⟩
      · -- a line behind it would have to be the first that is expected, once more
        have heq : vma :: rest.map Prod.snd = fromLines rest ++ more := heq
        have hnodup : (fromLines rest ++ more).Nodup := hnodup
        rw [← heq] at hnodup
        have hnone : ∀ area ∈ rest, area.1 ≠ .line := by
          rintro ⟨_, vma'⟩ hmem rfl
          have hfirst : vma' ∈ fromLines rest :=
            List.mem_map_of_mem (List.mem_filter.mpr ⟨hmem, rfl⟩)
          obtain ⟨first, others, hlines⟩ := List.exists_cons_of_ne_nil (List.ne_nil_of_mem hfirst)
          have hsame : vma = first := by
            rw [hlines] at heq
            exact (List.cons.inj heq).1
          have hrest : first ∈ rest.map Prod.snd := by
            have hline : first ∈ fromLines rest := hlines ▸ List.mem_cons_self
            obtain ⟨area, harea, rfl⟩ := List.mem_map.mp hline
            exact List.mem_map_of_mem (List.mem_filter.mp harea).1
          exact (List.nodup_cons.mp hnodup).1 (hsame ▸ hrest)
        refine List.pairwise_cons.mpr
          ⟨fun area hmem hline => absurd hline (hnone area hmem), ?_⟩
        exact List.pairwise_of_forall_mem_list fun _ _ b hb hline => absurd hline (hnone b hb)

theorem map_snd_eq_iff {found : List (Origin × ScannedVma)} {more : List ScannedVma}
    (hnodup : (fromLines found ++ more).Nodup) :
    found.map Prod.snd = fromLines found ++ more ↔ LinesFirst found ∧ strays found = more := by
  constructor
  · intro heq
    have hfirst := linesFirst_of_map_snd hnodup heq
    rw [hfirst.map_snd] at heq
    exact ⟨hfirst, List.append_cancel_left heq⟩
  · rintro ⟨hfirst, rfl⟩
    exact hfirst.map_snd

end Scans

theorem vmaFlags_mem {path : List Char} {flags : Nat} (h : vmaFlags path = some flags) :
    flags ∈ [flagFile, flagAnon, flagStack, flagHeap] := by
  simp only [vmaFlags] at h
  split_ifs at h
  all_goals
    cases h
    decide

theorem judge_area {blob pageSize : Nat} {buf : List Char} {vma : ScannedVma}
    (h : judge blob pageSize buf = .area vma) :
    shouldSkipRange blob vma.start ((vma.stop + pageSize) % 2 ^ 64) = false ∧
      vma.flags ∈ [flagFile, flagAnon, flagStack, flagHeap] := by
  simp only [judge] at h
  split at h
  · cases h
  · split at h
    · split at h
      · cases h
      · rename_i hskip
        split at h
        · cases h
        · rename_i hflags
          split_ifs at h
          cases h
          exact ⟨by simpa using hskip, vmaFlags_mem hflags⟩
    · cases h

theorem flags_of_mem_stored {maps : Maps} {blob pageSize : Nat} {vma : ScannedVma}
    (h : vma ∈ (stored maps blob pageSize).map Prod.snd) :
    vma.flags ∈ [flagFile, flagAnon, flagStack, flagHeap] := by
  obtain ⟨area, harea, rfl⟩ := List.mem_map.mp h
  obtain ⟨piece, -, hsome⟩ := List.mem_filterMap.mp (List.mem_of_mem_take harea)
  exact (judge_area (areaOf_eq_some.mp hsome).1).2

/-- A scan that does not fail is complete as long as no area is read from inside a line and
no candidate is behind a piece without any field; or if the areas from inside of lines, at
the end of the list, happen to be the candidates that are passed over. -/
theorem scan_complete_iff (maps : Maps) (blob pageSize : Nat) (opened : Bool) :
    Complete maps blob pageSize opened ↔
      (opened = true → Silent maps blob pageSize →
        LinesFirst (stored maps blob pageSize) ∧
          strays (stored maps blob pageSize) = fromLines (passedOver maps blob pageSize)) := by
  rcases opened with _ | _
  · simp [Complete, scanTargetVmas]
  · have hnodup := candidates_nodup maps blob pageSize
    rw [candidates_eq] at hnodup
    simp only [Complete, scanTargetVmas_eq_zero, candidates_eq, ← map_snd_eq_iff hnodup,
      true_implies]
    constructor
    · exact fun h hsilent => h _ ⟨hsilent, rfl⟩
    · rintro h vmas ⟨hsilent, rfl⟩
      exact h hsilent

def plainName (name : List Char) : Bool :=
  name.all (fun c => c != newline && c.toNat != 0) && name.head?.all fun c => !isSpace c

theorem pages_lt (first count : UInt8) :
    4096 * first.toNat < 4096 * (first.toNat + count.toNat + 1) := by
  omega

theorem pages_stop_lt (first count : UInt8) :
    4096 * (first.toNat + count.toNat + 1) < 2 ^ 64 := by
  have hfirst := first.toNat_lt
  have hcount := count.toNat_lt
  omega

/-- A private, read-only mapping of `count + 1` pages of 4 KiB, from the page
`first` on. -/
def mappingOf (first count : UInt8) (name : List Char) (hname : plainName name = true) :
    MapsLine where
  start := 4096 * first.toNat
  stop := 4096 * (first.toNat + count.toNat + 1)
  readable := true
  writable := false
  executable := false
  shared := false
  pgoff := 0
  devMaj := 8
  devMin := 1
  ino := 1
  name := name
  start_lt_stop := pages_lt first count
  stop_lt := pages_stop_lt first count
  pgoff_lt := by decide
  devMaj_lt := by decide
  devMin_lt := by decide
  ino_lt := by decide
  name_plain := by simpa using (Bool.and_eq_true_iff.mp hname).1
  name_head := by simpa [Option.all_eq_true] using (Bool.and_eq_true_iff.mp hname).2

/-- A path of 950 bytes, as many as the first piece of its line has room for. -/
def fullPath : List Char := (List.replicate 5 ('/' :: List.replicate 189 'a')).flatten

theorem longPath_plain : plainName (fullPath ++ ['x']) = true := by decide +kernel

theorem heap_plain : plainName "[heap]".toList = true := by decide +kernel

theorem plainName_nil : plainName [] = true := rfl

def longPathMaps : Maps where
  lines := [mappingOf 1 0 (fullPath ++ ['x']) longPath_plain,
    mappingOf 2 0 "[heap]".toList heap_plain]
  ordered := List.pairwise_pair.mpr le_rfl

theorem longPathMaps_incomplete :
    scanTargetVmas 0 4096 true longPathMaps.text = .returns (0, [⟨4096, 8192, 1, flagFile⟩]) ∧
      longPathMaps.candidates 0 4096 = [⟨4096, 8192, 1, flagFile⟩, ⟨8192, 12288, 1, flagHeap⟩] := by
  decide +kernel

end Memcr.MapsScan
