import Riscv32Simulator.Library.Text
import Riscv32Simulator.Source.SourceView

/-! `print_lines` shows the lines of a window, each cut to its buffer, and no others. -/

namespace Riscv32
open Format Text

/-! ## One line -/

abbrev lineFeed : BitVec 8 := 0x0A#8

def lineText (line : Bytes) : LineText where
  text := (line.take 1023).map shownByte
  truncated := 1023 < line.length

theorem lineText_add (line : Bytes) (ch : BitVec 8) : (lineText line).add ch = lineText (line ++ [ch]) := by
  have hlength : (lineText line).text.length = min 1023 line.length := by simp [lineText]
  unfold LineText.add
  rw [hlength]
  by_cases h : line.length < 1023
  · rw [if_pos (by rw [sourceLineLimit]; omega)]
    have hcut : 1023 ≥ (line ++ [ch]).length := by
      rw [List.length_append, List.length_singleton]
      omega
    rw [lineText, lineText, List.take_of_length_le hcut, List.take_of_length_le h.le, List.map_append]
    have hfalse : ¬ 1023 < (line ++ [ch]).length := by omega
    have hfalse' : ¬ 1023 < line.length := by omega
    simp only [hfalse, hfalse', decide_false, List.map_singleton]
  · rw [if_neg (by rw [sourceLineLimit]; omega)]
    have htrue : 1023 < (line ++ [ch]).length := by
      rw [List.length_append, List.length_singleton]
      omega
    rw [lineText, lineText, List.take_append_of_le_length (by omega)]
    simp only [htrue, decide_true]

theorem readSourceLine_newline {line : Bytes} (h : lineFeed ∉ line) (rest : Bytes) {bytes : ℕ}
    (hbytes : bytes + line.length < sourceReadLimit) (before : Bytes) :
    readSourceLine (line ++ lineFeed :: rest) bytes (lineText before) =
      (.newline, lineText (before ++ line), bytes + line.length, rest) := by
  induction line generalizing bytes before with
  | nil =>
    have hlt : bytes < sourceReadLimit := hbytes
    rw [List.nil_append, readSourceLine, if_neg (not_not.mpr hlt), if_pos rfl, List.append_nil]
    rfl
  | cons ch line ih =>
    rw [List.mem_cons, not_or] at h
    rw [List.length_cons] at hbytes
    rw [List.cons_append, readSourceLine, if_neg (not_not.mpr (by omega)), if_neg (Ne.symm h.1),
      lineText_add, ih h.2 (by omega), List.append_assoc, List.length_cons]
    congr 3
    omega

theorem readSourceLine_end {line : Bytes} (h : lineFeed ∉ line) {bytes : ℕ}
    (hbytes : bytes + line.length < sourceReadLimit) (before : Bytes) :
    readSourceLine line bytes (lineText before) =
      (.endOfFile, lineText (before ++ line), bytes + line.length, []) := by
  induction line generalizing bytes before with
  | nil =>
    have hlt : bytes < sourceReadLimit := hbytes
    rw [readSourceLine, if_pos hlt, List.append_nil]
    rfl
  | cons ch line ih =>
    rw [List.mem_cons, not_or] at h
    rw [List.length_cons] at hbytes
    rw [readSourceLine, if_neg (not_not.mpr (by omega)), if_neg (Ne.symm h.1), lineText_add,
      ih h.2 (by omega), List.append_assoc, List.length_cons]
    congr 3
    omega

theorem readSourceLine_limit {k : ℕ} {rest : Bytes} (h : lineFeed ∉ rest.take k) (hk : k ≤ rest.length)
    {bytes : ℕ} (hbytes : bytes + k = sourceReadLimit) (l : LineText) :
    (readSourceLine rest bytes l).1 = .readLimit := by
  induction k generalizing rest bytes l with
  | zero =>
    cases rest with
    | nil => rw [readSourceLine, if_neg (by omega)]
    | cons ch rest => rw [readSourceLine, if_pos (by omega)]
  | succ k ih =>
    cases rest with
    | nil => simp at hk
    | cons ch rest =>
      rw [List.take_succ_cons, List.mem_cons, not_or] at h
      rw [List.length_cons] at hk
      rw [readSourceLine, if_neg (not_not.mpr (by omega)), if_neg (Ne.symm h.1)]
      exact ih h.2 (by omega) (by omega) _

/-! ## All lines -/

/-- The lines that are read of a file of which `left` bytes may be read: past the limit those that
end before it. -/
def readableLines (left : ℕ) (file : Bytes) : List Bytes :=
  if file.length < left then lines lineFeed file else ((file.take left).splitOn lineFeed).dropLast

theorem readableLines_cons {line rest : Bytes} (h : lineFeed ∉ line) {left : ℕ}
    (hleft : line.length < left) : readableLines left (line ++ lineFeed :: rest) =
      line :: readableLines (left - (line.length + 1)) rest := by
  have hlength : (line ++ lineFeed :: rest).length = line.length + 1 + rest.length := by
    rw [List.length_append, List.length_cons]
    omega
  unfold readableLines
  by_cases hall : (line ++ lineFeed :: rest).length < left
  · rw [if_pos hall, if_pos (by omega), lines_append_cons h]
  · have htake : (line ++ lineFeed :: rest).take left =
        line ++ lineFeed :: rest.take (left - (line.length + 1)) := by
      have hrest : left - line.length = left - (line.length + 1) + 1 := by omega
      rw [List.take_append, List.take_of_length_le hleft.le, hrest, List.take_succ_cons]
    rw [if_neg hall, if_neg (by omega), htake, List.splitOn_append_cons_self_of_not_mem h,
      List.dropLast_cons_of_ne_nil (List.splitOn_ne_nil _ _)]

theorem readableLines_last {line : Bytes} (h : lineFeed ∉ line) {left : ℕ} (hleft : line.length < left) :
    readableLines left line = if line = [] then [] else [line] := by
  rw [readableLines, if_pos hleft]
  split_ifs with hnil
  · rw [hnil]
    rfl
  · exact lines_of_not_mem h hnil

theorem readableLines_limit {left : ℕ} {file : Bytes} (h : lineFeed ∉ file.take left)
    (hleft : left ≤ file.length) : readableLines left file = [] := by
  rw [readableLines, if_neg (not_lt.mpr hleft), List.splitOn_eq_singleton h]
  rfl

/-- A file starts with a line that ends within the limit, or is a last line, or goes on past it. -/
theorem readable_cases (left : ℕ) (file : Bytes) :
    (∃ line rest, file = line ++ lineFeed :: rest ∧ lineFeed ∉ line ∧ line.length < left) ∨
    (lineFeed ∉ file ∧ file.length < left) ∨ (lineFeed ∉ file.take left ∧ left ≤ file.length) := by
  by_cases hmem : lineFeed ∈ file.take left
  · obtain ⟨line, after, heq, hline⟩ := List.eq_append_cons_of_mem hmem
    refine .inl ⟨line, after ++ file.drop left, ?_, hline, ?_⟩
    · rw [← List.cons_append, ← List.append_assoc, ← heq, List.take_append_drop]
    · have hlength := congrArg List.length heq
      rw [List.length_take, List.length_append, List.length_cons] at hlength
      omega
  · by_cases hleft : file.length < left
    · rw [List.take_of_length_le hleft.le] at hmem
      exact .inr (.inl ⟨hmem, hleft⟩)
    · exact .inr (.inr ⟨hmem, not_lt.mp hleft⟩)

/-! ## The window -/

/-- A line as it is printed: what is no printable character is a question mark, and what has no room
is left out. -/
def shownLine (line : Bytes) : Bytes :=
  (line.take 1023).map shownByte ++
    (if 1023 < line.length then ascii " ... [line truncated]" else []) ++ ascii "\n"

def windowLines (first : BitVec 32) (n : ℕ) (ls : List Bytes) : List (Bytes × ℕ) :=
  (ls.zipIdx n).filter fun p => first.toNat ≤ p.2

def windowText (head : BitVec 32 → Bytes) (ps : List (Bytes × ℕ)) : Bytes :=
  ps.flatMap fun p => head (BitVec.ofNat 32 p.2) ++ shownLine p.1

def Printed.add (printed : Printed) (head : BitVec 32 → Bytes) (ps : List (Bytes × ℕ)) : Printed :=
  { printed with
    output := printed.output ++ windowText head ps
    shown := printed.shown || !ps.isEmpty }

theorem Printed.add_nil (printed : Printed) (head : BitVec 32 → Bytes) : printed.add head [] = printed := by
  simp [Printed.add, windowText]

theorem Printed.add_append (printed : Printed) (head : BitVec 32 → Bytes) (ps qs : List (Bytes × ℕ)) :
    printed.add head (ps ++ qs) = (printed.add head ps).add head qs := by
  cases ps <;> simp [Printed.add, windowText]

theorem windowLines_cons (first : BitVec 32) (n : ℕ) (l : Bytes) (ls : List Bytes) :
    windowLines first n (l :: ls) = windowLines first n [l] ++ windowLines first (n + 1) ls := by
  simp only [windowLines, List.zipIdx_cons, List.zipIdx_nil, List.filter_cons, List.filter_nil]
  split_ifs <;> rfl

theorem show_windowLines (printed : Printed) (head : BitVec 32 → Bytes) (first line : BitVec 32) (l : Bytes) :
    (if first ≤ line then printed.show (head line) (lineText l) else printed) =
      printed.add head (windowLines first line.toNat [l]) := by
  have hline : BitVec.ofNat 32 line.toNat = line := by simp
  by_cases h : first ≤ line
  · have hle : first.toNat ≤ line.toNat := h
    rw [if_pos h]
    simp only [windowLines, List.zipIdx_cons, List.zipIdx_nil, List.filter_cons, hle, decide_true, if_true,
      List.filter_nil, Printed.add, windowText, List.flatMap_cons, List.flatMap_nil, hline,
      Printed.show, shownLine, lineText, decide_eq_true_eq, List.append_assoc, List.append_nil,
      List.isEmpty_cons, Bool.not_false, Bool.or_true]
  · have hle : ¬ first.toNat ≤ line.toNat := h
    rw [if_neg h]
    simp only [windowLines, List.zipIdx_cons, List.zipIdx_nil, List.filter_cons, hle, decide_false,
      Bool.false_eq_true, if_false, List.filter_nil]
    exact (printed.add_nil head).symm

def meetsEnd (left remaining : ℕ) (file : Bytes) : Bool :=
  file.length < left && file.count lineFeed < remaining

def meetsLimit (left remaining : ℕ) (file : Bytes) : Bool :=
  left ≤ file.length && (readableLines left file).length < remaining

theorem meetsEnd_cons {line : Bytes} (h : lineFeed ∉ line) {left : ℕ} (hleft : line.length < left)
    (remaining : ℕ) (rest : Bytes) : meetsEnd left (remaining + 1) (line ++ lineFeed :: rest) =
      meetsEnd (left - (line.length + 1)) remaining rest := by
  have hlength : (line ++ lineFeed :: rest).length < left ↔ rest.length < left - (line.length + 1) := by
    rw [List.length_append, List.length_cons]
    omega
  have hcount : (line ++ lineFeed :: rest).count lineFeed = rest.count lineFeed + 1 := by
    rw [List.count_append, List.count_cons_self, List.count_eq_zero_of_not_mem h, Nat.zero_add]
  have hless : (line ++ lineFeed :: rest).count lineFeed < remaining + 1 ↔
      rest.count lineFeed < remaining := by
    omega
  rw [meetsEnd, meetsEnd, decide_eq_decide.mpr hlength, decide_eq_decide.mpr hless]

theorem meetsLimit_cons {line : Bytes} (h : lineFeed ∉ line) {left : ℕ} (hleft : line.length < left)
    (remaining : ℕ) (rest : Bytes) : meetsLimit left (remaining + 1) (line ++ lineFeed :: rest) =
      meetsLimit (left - (line.length + 1)) remaining rest := by
  have hlength : left ≤ (line ++ lineFeed :: rest).length ↔ left - (line.length + 1) ≤ rest.length := by
    rw [List.length_append, List.length_cons]
    omega
  have hless : (readableLines left (line ++ lineFeed :: rest)).length < remaining + 1 ↔
      (readableLines (left - (line.length + 1)) rest).length < remaining := by
    rw [readableLines_cons h hleft, List.length_cons, Nat.add_lt_add_iff_right]
  rw [meetsLimit, meetsLimit, decide_eq_decide.mpr hlength, decide_eq_decide.mpr hless]

theorem lineText_isEmpty (line : Bytes) :
    (lineText line).text = [] ∧ (lineText line).truncated = false ↔ line = [] := by
  cases line <;> simp [lineText]

/-- What the loop leaves behind it that prints `remaining` lines from line `n` on. -/
def Printed.window (printed : Printed) (head : BitVec 32 → Bytes) (first : BitVec 32) (failing : Bool)
    (remaining n left : ℕ) (file : Bytes) : Printed :=
  { printed.add head (windowLines first n ((readableLines left file).take remaining)) with
    limited := printed.limited || meetsLimit left remaining file
    error := if meetsEnd left remaining file then failing else printed.error }

section Window

variable (printed : Printed) (head : BitVec 32 → Bytes) (first : BitVec 32) (failing : Bool)

theorem Printed.window_zero (n left : ℕ) (file : Bytes) :
    printed.window head first failing 0 n left file = printed := by
  have hlimit : meetsLimit left 0 file = false := by simp [meetsLimit]
  have hend : meetsEnd left 0 file = false := by simp [meetsEnd]
  rw [Printed.window, List.take_zero, hlimit, hend, Bool.or_false]
  exact printed.add_nil head

theorem Printed.window_newline {line : Bytes} (h : lineFeed ∉ line) {left : ℕ}
    (hleft : line.length < left) (remaining n : ℕ) (rest : Bytes) :
    printed.window head first failing (remaining + 1) n left (line ++ lineFeed :: rest) =
      (printed.add head (windowLines first n [line])).window head first failing remaining (n + 1)
        (left - (line.length + 1)) rest := by
  rw [Printed.window, meetsEnd_cons h hleft, meetsLimit_cons h hleft, readableLines_cons h hleft,
    List.take_succ_cons, windowLines_cons first n line (List.take remaining _), Printed.add_append]
  rfl

theorem Printed.window_last {line : Bytes} (h : lineFeed ∉ line) {left : ℕ}
    (hleft : line.length < left) (remaining n : ℕ) :
    printed.window head first failing (remaining + 1) n left line =
      { printed.add head (windowLines first n (if line = [] then [] else [line])) with error := failing } := by
  have hend : meetsEnd left (remaining + 1) line = true := by
    simp [meetsEnd, List.count_eq_zero_of_not_mem h, hleft]
  have hlimit : meetsLimit left (remaining + 1) line = false := by
    simp [meetsLimit, not_le.mpr hleft]
  have hone : (if line = [] then [] else [line]).length ≤ remaining + 1 := by
    split_ifs <;> simp
  rw [Printed.window, hend, hlimit, readableLines_last h hleft, Bool.or_false,
    List.take_of_length_le hone]
  rfl

theorem Printed.window_limit {left : ℕ} {file : Bytes} (h : lineFeed ∉ file.take left)
    (hleft : left ≤ file.length) (remaining n : ℕ) :
    printed.window head first failing (remaining + 1) n left file = { printed with limited := true } := by
  have hend : meetsEnd left (remaining + 1) file = false := by simp [meetsEnd, hleft]
  have hlimit : meetsLimit left (remaining + 1) file = true := by
    simp [meetsLimit, hleft, readableLines_limit h hleft]
  rw [Printed.window, hend, hlimit, readableLines_limit h hleft, List.take_nil, Bool.or_true]
  exact Printed.add_nil { printed with limited := true } head

end Window

theorem printLinesLoop_eq (head : BitVec 32 → Bytes) (first : BitVec 32) (failing : Bool)
    (remaining : ℕ) {line : BitVec 32} (hline : line.toNat + remaining ≤ 2 ^ 32) {bytes : ℕ}
    (hbytes : bytes ≤ sourceReadLimit) (rest : Bytes) (printed : Printed) :
    printLinesLoop head first failing remaining line bytes rest printed =
      printed.window head first failing remaining line.toNat (sourceReadLimit - bytes) rest := by
  induction remaining generalizing line bytes rest printed with
  | zero => rw [printLinesLoop, Printed.window_zero]
  | succ remaining ih =>
    have hempty : lineText [] = {} := rfl
    rw [printLinesLoop]
    rcases readable_cases (sourceReadLimit - bytes) rest with
      ⟨l, after, rfl, hl, hleft⟩ | ⟨hl, hleft⟩ | ⟨hl, hleft⟩
    · have hcount : sourceReadLimit - (bytes + l.length + 1) = sourceReadLimit - bytes - (l.length + 1) := by
        omega
      rw [← hempty, readSourceLine_newline hl after (by omega), Printed.window_newline _ _ _ _ hl hleft]
      dsimp only
      rw [List.nil_append, show_windowLines]
      -- behind the last line of the window the number of the next one may wrap
      rcases Nat.eq_zero_or_pos remaining with rfl | hremaining
      · rw [printLinesLoop, Printed.window_zero]
      · have hnext : (line + 1).toNat = line.toNat + 1 := by
          rw [BitVec.toNat_add, Nat.mod_eq_of_lt]
          · rfl
          · have hone : (1 : BitVec 32).toNat = 1 := rfl
            omega
        rw [ih (by omega) (by omega), hcount, hnext]
    · rw [← hempty, readSourceLine_end hl (by omega), Printed.window_last _ _ _ _ hl hleft]
      dsimp only
      rw [List.nil_append]
      by_cases hnil : rest = []
      · rw [if_pos ((lineText_isEmpty rest).mpr hnil), if_pos hnil]
        exact (Printed.add_nil { printed with error := failing } head).symm
      · rw [if_neg (fun h => hnil ((lineText_isEmpty rest).mp h)), if_neg hnil, show_windowLines]
        rfl
    · have hsum : bytes + (sourceReadLimit - bytes) = sourceReadLimit := by omega
      have hresult := readSourceLine_limit hl hleft hsum {}
      rw [Printed.window_limit _ _ _ _ hl hleft]
      rcases hread : readSourceLine rest bytes {} with ⟨ending, l, bytes, after⟩
      rw [hread] at hresult
      obtain rfl : ending = .readLimit := hresult
      rfl

/-! ## The view of a source line -/

theorem readableLines_length_le (left : ℕ) (file : Bytes) : (readableLines left file).length ≤ left := by
  induction left using Nat.strong_induction_on generalizing file with
  | _ left ih =>
    rcases readable_cases left file with ⟨l, after, rfl, hl, hleft⟩ | ⟨hl, hleft⟩ | ⟨hl, hleft⟩
    · have hrest := ih (left - (l.length + 1)) (by omega) after
      rw [readableLines_cons hl hleft, List.length_cons]
      omega
    · rw [readableLines_last hl hleft]
      split_ifs with h
      · exact Nat.zero_le _
      · rw [List.length_singleton]
        omega
    · rw [readableLines_limit hl hleft]
      exact Nat.zero_le _

theorem zipIdx_take (ls : List Bytes) (n k : ℕ) :
    (ls.take k).zipIdx n = (ls.zipIdx n).filter fun p => p.2 < n + k := by
  induction ls generalizing n k with
  | nil => rw [List.take_nil]; rfl
  | cons l ls ih =>
    cases k with
    | zero =>
      symm
      rw [List.take_zero, List.zipIdx_nil, List.filter_eq_nil_iff]
      rintro ⟨l', m⟩ hmem
      have hle := (List.mem_zipIdx hmem).1
      rw [decide_eq_true_eq]
      exact not_lt.mpr hle
    | succ k =>
      rw [List.take_succ_cons, List.zipIdx_cons, List.zipIdx_cons, List.filter_cons_of_pos (by simp), ih]
      congr 2
      funext p
      rw [decide_eq_decide]
      omega

def linesAround (center : ℕ) (ls : List Bytes) : List (Bytes × ℕ) :=
  (ls.zipIdx 1).filter fun p => center ≤ p.2 + 4 && p.2 ≤ center + 4

def firstAround (center : BitVec 32) : BitVec 32 := if center > 4 then center - 4 else 1

def lastAround (center : BitVec 32) : BitVec 32 :=
  if center > 0xFFFFFFFF#32 - 4 then 0xFFFFFFFF#32 else center + 4

theorem windowLines_around (center : BitVec 32) {ls : List Bytes} (h : ls.length ≤ sourceReadLimit) :
    windowLines (firstAround center) 1 (ls.take (lastAround center).toNat) = linesAround center.toNat ls := by
  have hlimit : sourceReadLimit = 4194304 := rfl
  rw [windowLines, zipIdx_take, List.filter_filter, linesAround]
  refine List.filter_congr fun p hp => ?_
  obtain ⟨hpos, hlt, -⟩ := List.mem_zipIdx (x := p.1) (i := p.2) hp
  have hfirst : (firstAround center).toNat ≤ p.2 ↔ center.toNat ≤ p.2 + 4 := by
    unfold firstAround
    split_ifs with hcenter <;> bv_omega
  have hlast : p.2 < 1 + (lastAround center).toNat ↔ p.2 ≤ center.toNat + 4 := by
    unfold lastAround
    split_ifs with hcenter <;> bv_omega
  rw [decide_eq_decide.mpr hfirst, decide_eq_decide.mpr hlast]

def windowNotices (input : Input) (last : ℕ) (shown : Bool) : Bytes :=
  let limited := meetsLimit sourceReadLimit last input.rest
  (if meetsEnd sourceReadLimit last input.rest && input.failing then ascii "Source read error.\n" else []) ++
    (if limited then ascii "Source inspection limit reached (4MiB).\n" else []) ++
    (if !shown && !limited then
      ascii "Requested source line is unavailable in the current file.\n" else [])

theorem printLines_window {files : SourceFiles} {info : DebugInfo} {file : ℕ} {input : Input}
    (hopen : files (info.files.getD file []) = .ok input) (first last : BitVec 32)
    (current : Option DebugLine) (annotate : Bool) :
    printLines files info file first last current annotate =
      let ps := windowLines first 1 ((readableLines sourceReadLimit input.rest).take last.toNat)
      (!ps.isEmpty, windowText (lineHead info file current annotate) ps ++
        windowNotices input last.toNat (!ps.isEmpty)) := by
  have hline : (1 : BitVec 32).toNat + last.toNat ≤ 2 ^ 32 := by
    have hone : (1 : BitVec 32).toNat = 1 := rfl
    have hlast := last.isLt
    omega
  unfold printLines
  dsimp only
  rw [hopen]
  dsimp only
  rw [printLinesLoop_eq _ _ _ _ hline (Nat.zero_le _)]
  have hone : (1 : BitVec 32).toNat = 1 := rfl
  have herror : (if meetsEnd sourceReadLimit last.toNat input.rest then input.failing else false) =
      (meetsEnd sourceReadLimit last.toNat input.rest && input.failing) := by
    cases meetsEnd sourceReadLimit last.toNat input.rest <;> rfl
  simp only [Printed.window, Printed.add, windowNotices, hone, herror, Nat.sub_zero, Bool.false_or, List.nil_append,
    List.append_assoc, Bool.and_eq_true, Bool.not_eq_true, Bool.not_eq_true',
    Bool.not_eq_false, Bool.not_eq_false']

def viewHead (info : DebugInfo) (file : ℕ) : Bytes :=
  print [.text (ascii "File "), .decimal, .text (ascii ": "), .text (info.files.getD file []),
    .text (ascii "\n")] [file] ++
  ascii "Rows show the first mapped address; a source line can cover many instructions.\n"

/-- The line in the middle of the view: where none is given, the one of the address, in its file. -/
def centerLine (info : DebugInfo) (address center : BitVec 32) (file : ℕ) : BitVec 32 :=
  if center = 0 then (debugInfoLookup info address).elim 1 fun c => if c.file = file then c.line else 1
  else center

theorem sourceViewLines_eq (files : SourceFiles) {info : DebugInfo} {file : ℕ}
    (hfile : file < info.files.length) (hcount : info.files.length ≤ sizeMax) (address center : BitVec 32) :
    sourceViewLines files info address center file =
      let middle := centerLine info address center file
      viewHead info file ++ (printLines files info file (firstAround middle) (lastAround middle)
        (debugInfoLookup info address) true).2 := by
  have hsize : ¬ file = sizeMax := by omega
  unfold sourceViewLines centerLine
  cases debugInfoLookup info address with
  | none =>
    dsimp only
    rw [if_neg hsize]
    dsimp only
    rw [if_neg (not_le.mpr hfile)]
    rfl
  | some c =>
    dsimp only
    rw [if_neg hsize]
    dsimp only
    rw [if_neg (not_le.mpr hfile)]
    rfl

/-- The view of a source file shows the lines at most four away from the middle one, each once and in
order, with its own number, and nothing past the first 4 MiB of the file. -/
theorem source_view_shows_linesAround {files : SourceFiles} {info : DebugInfo} {file : ℕ} {input : Input}
    (hfile : file < info.files.length) (hcount : info.files.length ≤ sizeMax)
    (hopen : files (info.files.getD file []) = .ok input) (address center : BitVec 32) :
    sourceViewLines files info address center file =
      let middle := centerLine info address center file
      let ps := linesAround middle.toNat (readableLines sourceReadLimit input.rest)
      viewHead info file ++
        windowText (lineHead info file (debugInfoLookup info address) true) ps ++
        windowNotices input (lastAround middle).toNat (!ps.isEmpty) := by
  rw [sourceViewLines_eq files hfile hcount]
  dsimp only
  rw [printLines_window hopen]
  dsimp only
  rw [windowLines_around _ (readableLines_length_le _ _), List.append_assoc]

theorem source_view_shows_linesAround_seven :
    sourceViewLines (fun _ => .ok { rest := ascii "a\nb\nc\n\td\ne\x07\nf\ng" })
        { files := [ascii "x.c"] } 0 8 0 =
      ascii "File 0: x.c\nRows show the first mapped address; a source line can cover many instructions.\n" ++
      ascii "      4 [no mapped instruction] \td\n      5 [no mapped instruction] e?\n" ++
      ascii "      6 [no mapped instruction] f\n      7 [no mapped instruction] g\n" :=
  (source_view_shows_linesAround (by decide) (by decide) rfl 0 8).trans (by decide +kernel)

end Riscv32
