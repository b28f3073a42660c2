import Riscv32Simulator.Library.Text
import Riscv32Simulator.Monitor.Session

/-! The monitor obeys its input line by line and word by word, whatever the size of its buffers. -/

namespace Riscv32
open Checked Format Text

/-! ## Words -/

theorem splitArgs_eq (room : ℕ) (text : CText) :
    splitArgs room text = (words isDelimiter text).take room := by
  induction room generalizing text with
  | zero => rfl
  | succ room ih =>
    rw [splitArgs, strtok, ← words_dropWhile]
    by_cases hnil : text.dropWhile isDelimiter = []
    · rw [if_pos hnil, hnil]
      rfl
    · have hhead : ∀ x ∈ (text.dropWhile isDelimiter).head?, isDelimiter x = false := by
        intro x hx
        have hnot := List.head?_dropWhile_not isDelimiter text
        rw [hx] at hnot
        exact hnot
      rw [if_neg hnil, words_of_head hnil hhead, List.take_succ_cons]
      dsimp only
      rw [ih]

theorem obey_many (host : MonitorHost) (c : Console) {args : List CText} (h : 3 < args.length) :
    obey host c args = .ok (.inl (c.put (ascii "Too many arguments.\n"))) := by
  rw [obey, if_neg (by omega), if_pos h]

/-- More than three words are refused, so nothing is lost where only five of them are kept. -/
theorem obey_take (host : MonitorHost) (c : Console) (args : List CText) :
    obey host c (args.take 5) = obey host c args := by
  by_cases hlen : args.length ≤ 5
  · rw [List.take_of_length_le hlen]
  · have htake : 3 < (args.take 5).length := by
      rw [List.length_take]
      omega
    rw [obey_many host c htake, obey_many host c (by omega)]

/-! ## Lines -/

abbrev newline : BitVec 8 := 0x0A#8

def firstLine (input : Bytes) : Bytes := input.takeWhile fun ch => ch ≠ newline
def laterLines (input : Bytes) : Bytes := (input.dropWhile fun ch => ch ≠ newline).drop 1

/-- What waiting for a line means for the lines of the input. A line has at most 510 bytes; a null
byte in a line that a newline ends takes the next line with it. -/
def takeLine (host : MonitorHost) (t : Terminal) : Awaited × Terminal :=
  let line := firstLine t.input
  let after := { t with waits := t.waits + 1 }
  (host.signal t.waits).elim
    (if 511 ≤ line.length then (.tooLong, { after with input := laterLines t.input })
      else if ¬ t.input.contains newline ∧ (line.isEmpty ∨ t.failing) then
        (.ended, { after with input := [] })
      else if t.input.contains newline ∧ line.contains 0#8 then
        (.tooLong, { after with input := laterLines (laterLines t.input) })
      else (.line (cstring line), { after with input := laterLines t.input }))
    fun taken => (.interrupted, { after with input := t.input.drop (min taken (min 511 line.length)) })

def lineTurn (host : MonitorHost) (c : Console) : Except (Stop Empty) (Console ⊕ (ℕ × Console)) :=
  let prompted := c.terminal.put (ascii "rv32> ")
  let c := { c with terminal := (takeLine host prompted).2 }
  match (takeLine host prompted).1 with
  | .interrupted => .ok (.inl (c.put (ascii "Interrupted.\n")))
  | .ended => .ok (.inr (if c.terminal.failing then 2 else 0, c))
  | .tooLong => .ok (.inl (c.put (ascii "Command too long.\n")))
  | .line text => obey host c (words isDelimiter text)

theorem fgets_eq (n : ℕ) (input : Bytes) : fgets n input =
    if (firstLine input).length < n then
      (firstLine input ++ (if newline ∈ input then [newline] else []), laterLines input)
    else ((firstLine input).take n, input.drop n) := by
  induction n generalizing input with
  | zero => simp [fgets]
  | succ n ih =>
    cases input with
    | nil => simp [fgets, firstLine, laterLines]
    | cons ch rest =>
      by_cases hch : ch = newline
      · have hfgets : fgets (n + 1) (ch :: rest) = ([ch], rest) := if_pos hch
        rw [hfgets]
        simp [firstLine, laterLines, hch]
      · have hfgets : fgets (n + 1) (ch :: rest) = (ch :: (fgets n rest).1, (fgets n rest).2) :=
          if_neg hch
        have hline : firstLine (ch :: rest) = ch :: firstLine rest := by simp [firstLine, hch]
        have hlater : laterLines (ch :: rest) = laterLines rest := by simp [laterLines, hch]
        have hmem : newline ∈ ch :: rest ↔ newline ∈ rest := by simp [Ne.symm hch]
        rw [hfgets, ih, hline, hlater, List.length_cons]
        simp only [hmem, Nat.add_lt_add_iff_right]
        split_ifs <;> rfl

theorem newline_notMem_firstLine (input : Bytes) : newline ∉ firstLine input := by
  intro h
  simpa using takeWhile_all input newline h

theorem laterLines_eq_nil {input : Bytes} (h : newline ∉ input) : laterLines input = [] := by
  rw [laterLines, List.dropWhile_eq_nil_iff.2, List.drop_nil]
  intro ch hch
  simpa using fun heq : ch = newline => h (heq ▸ hch)

theorem laterLines_drop {n : ℕ} {input : Bytes} (h : n ≤ (firstLine input).length) :
    laterLines (input.drop n) = laterLines input := by
  induction n generalizing input with
  | zero => rfl
  | succ n ih =>
    cases input with
    | nil => rfl
    | cons ch rest =>
      by_cases hch : ch = newline
      · simp [firstLine, hch] at h
      · have hline : firstLine (ch :: rest) = ch :: firstLine rest := by simp [firstLine, hch]
        have hlater : laterLines (ch :: rest) = laterLines rest := by simp [laterLines, hch]
        rw [hline, List.length_cons] at h
        rw [List.drop_succ_cons, hlater, ih (by omega)]

theorem newline_mem_cstring {line : Bytes} (h : newline ∉ line) :
    newline ∈ cstring (line ++ [newline]) ↔ 0#8 ∉ line := by
  rw [cstring]
  constructor
  · intro hmem hzero
    obtain ⟨as, bs, rfl, has⟩ := List.eq_append_cons_of_mem hzero
    have hall : ∀ x ∈ as, (decide (x ≠ 0#8)) = true := by
      intro x hx
      simpa using fun heq : x = 0#8 => has (heq ▸ hx)
    rw [List.append_assoc, (takeWhile_append hall (by simp)).1] at hmem
    exact h (List.mem_append_left _ hmem)
  · intro hzero
    have hall : ∀ x ∈ line ++ [newline], (decide (x ≠ 0#8)) = true := by
      intro x hx
      rcases List.mem_append.1 hx with hx | hx
      · simpa using fun heq : x = 0#8 => hzero (heq ▸ hx)
      · rw [List.mem_singleton.1 hx]
        rfl
    rw [List.takeWhile_eq_self_iff.2 hall]
    simp

theorem length_taken (n : ℕ) (input : Bytes) :
    ((fgets n input).1.takeWhile fun ch => ch ≠ newline).length = min n (firstLine input).length := by
  have hall : ∀ ch ∈ firstLine input, decide (ch ≠ newline) = true := takeWhile_all input
  rw [fgets_eq]
  by_cases hlong : (firstLine input).length < n
  · rw [if_pos hlong, Nat.min_eq_right hlong.le]
    have hline : (firstLine input ++ if newline ∈ input then [newline] else []).takeWhile
        (fun ch => ch ≠ newline) = firstLine input := by
      refine (takeWhile_append hall ?_).1
      split_ifs <;> simp
    exact congrArg List.length hline
  · rw [if_neg hlong, List.takeWhile_eq_self_iff.2 fun x hx => hall x (List.mem_of_mem_take hx),
      List.length_take]

theorem awaitLine_some {host : MonitorHost} {t : Terminal} {taken : ℕ}
    (h : host.signal t.waits = some taken) : awaitLine host t = takeLine host t := by
  rw [takeLine, h, Option.elim, ← length_taken, awaitLine, h]
  rfl

theorem awaitLine_none {host : MonitorHost} {t : Terminal} {line rest : Bytes}
    (h : host.signal t.waits = none) (hgets : fgets 511 t.input = (line, rest)) : awaitLine host t =
      if (line.length < 511 ∧ line.getLast? ≠ some newline) ∧ (line = [] ∨ t.failing = true) then
        (.ended, { t with waits := t.waits + 1, input := [] })
      else if newline ∉ cstring line ∧ ¬(line.length < 511 ∧ line.getLast? ≠ some newline) then
        (.tooLong, { t with waits := t.waits + 1, input := laterLines rest })
      else (.line (cstring line), { t with waits := t.waits + 1, input := rest }) := by
  have hline : line = (fgets 511 t.input).1 := by rw [hgets]
  have hrest : rest = (fgets 511 t.input).2 := by rw [hgets]
  rw [awaitLine, h, hline, hrest]
  rfl

theorem takeLine_none {host : MonitorHost} {t : Terminal} (h : host.signal t.waits = none) :
    takeLine host t =
      if 511 ≤ (firstLine t.input).length then
        (.tooLong, { t with waits := t.waits + 1, input := laterLines t.input })
      else if newline ∉ t.input ∧ (firstLine t.input = [] ∨ t.failing = true) then
        (.ended, { t with waits := t.waits + 1, input := [] })
      else if newline ∈ t.input ∧ 0#8 ∈ firstLine t.input then
        (.tooLong, { t with waits := t.waits + 1, input := laterLines (laterLines t.input) })
      else (.line (cstring (firstLine t.input)),
        { t with waits := t.waits + 1, input := laterLines t.input }) := by
  simp only [takeLine, h, Option.elim, List.contains_iff_mem, List.isEmpty_iff]

theorem cstring_append_newline {line : Bytes} (h : 0#8 ∉ line) :
    cstring (line ++ [newline]) = cstring line ++ [newline] := by
  have hall : ∀ x ∈ line, (decide (x ≠ 0#8)) = true := by
    intro x hx
    simpa using fun heq : x = 0#8 => h (heq ▸ hx)
  rw [cstring, cstring, List.takeWhile_append_of_pos hall, List.takeWhile_eq_self_iff.2 hall]
  rfl

section Unsignalled

variable {host : MonitorHost} {t : Terminal} (hsig : host.signal t.waits = none)
include hsig

theorem awaitLine_whole (hlong : (firstLine t.input).length < 511) (hmem : newline ∈ t.input) :
    awaitLine host t = takeLine host t ∨ ∃ text after, takeLine host t = (.line text, after) ∧
      awaitLine host t = (.line (text ++ [newline]), after) := by
  have hseen := newline_mem_cstring (newline_notMem_firstLine t.input)
  have hlast : (firstLine t.input ++ [newline]).getLast? = some newline := by simp
  have hgets := fgets_eq 511 t.input
  rw [if_pos hlong, if_pos hmem] at hgets
  rw [awaitLine_none hsig hgets, if_neg fun h => h.1.2 hlast]
  by_cases hzero : 0#8 ∈ firstLine t.input
  · left
    rw [if_pos ⟨fun h => hseen.1 h hzero, fun h => h.2 hlast⟩, takeLine_none hsig,
      if_neg (Nat.not_le.2 hlong), if_neg fun h => h.1 hmem, if_pos ⟨hmem, hzero⟩]
  · right
    refine ⟨cstring (firstLine t.input),
      { t with waits := t.waits + 1, input := laterLines t.input }, ?_, ?_⟩
    · rw [takeLine_none hsig, if_neg (Nat.not_le.2 hlong), if_neg fun h => h.1 hmem,
        if_neg fun h => hzero h.2]
    · rw [if_neg fun h => h.1 (hseen.2 hzero), cstring_append_newline hzero]

theorem awaitLine_last (hlong : (firstLine t.input).length < 511) (hmem : newline ∉ t.input) :
    awaitLine host t = takeLine host t := by
  have hlast : (firstLine t.input).getLast? ≠ some newline :=
    fun h => newline_notMem_firstLine t.input (List.mem_of_getLast? h)
  have hgets := fgets_eq 511 t.input
  rw [if_pos hlong, if_neg hmem, List.append_nil] at hgets
  rw [awaitLine_none hsig hgets, takeLine_none hsig, if_neg (Nat.not_le.2 hlong),
    laterLines_eq_nil hmem]
  simp only [hlong, hlast, hmem, ne_eq, not_false_eq_true, not_true_eq_false, true_and,
    and_false, false_and, if_false]

theorem awaitLine_full (hlong : 511 ≤ (firstLine t.input).length) :
    awaitLine host t = takeLine host t := by
  have htake : ((firstLine t.input).take 511).length = 511 := by
    rw [List.length_take]
    omega
  have hcut : newline ∉ cstring ((firstLine t.input).take 511) := fun h =>
    newline_notMem_firstLine t.input (List.mem_of_mem_take ((List.takeWhile_prefix _).subset h))
  have hgets := fgets_eq 511 t.input
  rw [if_neg (Nat.not_lt.2 hlong)] at hgets
  rw [awaitLine_none hsig hgets, takeLine_none hsig, if_neg (fun h => by omega),
    if_pos ⟨hcut, fun h => by omega⟩, if_pos hlong, laterLines_drop hlong]

end Unsignalled

/-- The buffer gives what the line says, or that with its newline. -/
theorem awaitLine_or (host : MonitorHost) (t : Terminal) : awaitLine host t = takeLine host t ∨
    ∃ text after, takeLine host t = (.line text, after) ∧
      awaitLine host t = (.line (text ++ [newline]), after) := by
  cases hsig : host.signal t.waits with
  | some taken => exact .inl (awaitLine_some hsig)
  | none =>
    rcases Nat.lt_or_ge (firstLine t.input).length 511 with hlong | hlong
    · by_cases hmem : newline ∈ t.input
      · exact awaitLine_whole hsig hlong hmem
      · exact .inl (awaitLine_last hsig hlong hmem)
    · exact .inl (awaitLine_full hsig hlong)

theorem interactiveTurn_eq (host : MonitorHost) (c : Console) :
    interactiveTurn host c = lineTurn host c := by
  have hline := awaitLine_or host (c.terminal.put (ascii "rv32> "))
  rw [interactiveTurn, lineTurn]
  rcases hline with hsame | ⟨text, after, htake, hawait⟩
  · rw [hsame]
    dsimp only
    cases (takeLine host (c.terminal.put (ascii "rv32> "))).1 with
    | line text => exact (congrArg _ (splitArgs_eq 5 text)).trans (obey_take host _ _)
    | _ => rfl
  · rw [htake, hawait]
    dsimp only
    rw [splitArgs_eq, obey_take, words_append_of_pos text (by rfl)]

/-- For every input, every interrupt and every host the monitor does what its lines and words say:
the sizes of its buffers show only in the lines that are refused. -/
theorem interactive_reads_lines (host : MonitorHost) (fuel : ℕ) (c : Console) :
    interactive host fuel c =
      loop (lineTurn host) fuel (c.put (ascii "Monitor ready. Type help for commands.\n")) := by
  rw [interactive, funext (interactiveTurn_eq host)]

end Riscv32
