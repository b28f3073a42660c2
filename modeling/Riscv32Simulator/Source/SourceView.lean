import Riscv32Simulator.Library.Format
import Riscv32Simulator.Source.DebugInfo
import Riscv32Simulator.Source.ProgramIo

/-! `source_view.c`: source locations, source text and symbols, as they are printed. -/

namespace Riscv32
open Format

def sourceReadLimit : ℕ := 4 * memoryMib
def sourceLineLimit : ℕ := 1024
def symbolDisplayLimit : ℕ := 256

/-- `SIZE_MAX` stands for no file index. -/
def sizeMax : ℕ := 2 ^ 64 - 1

/-- What `fopen` gives for a path: a stream, or the text of the error. -/
abbrev SourceFiles : Type := CText → Except Bytes Input

/-! ## Lines of a source file -/

def shownByte (ch : BitVec 8) : BitVec 8 :=
  if ch = 0x09#8 ∨ (0x20#8 ≤ ch ∧ ch ≠ 0x7F#8) then ch else 0x3F#8

structure LineText where
  text : Bytes := []
  truncated : Bool := false
deriving DecidableEq, Repr

def LineText.add (l : LineText) (ch : BitVec 8) : LineText :=
  if l.text.length + 1 < sourceLineLimit then { l with text := l.text ++ [shownByte ch] }
  else { l with truncated := true }

inductive LineEnd
  | newline | endOfFile | readLimit
deriving DecidableEq, Repr

/-- The inner loop of `print_lines`: how it ends, the line, the bytes counted, and the rest of the
stream. -/
def readSourceLine : Bytes → (bytes : ℕ) → LineText → LineEnd × LineText × ℕ × Bytes
  | [], bytes, l => if bytes < sourceReadLimit then (.endOfFile, l, bytes, []) else (.readLimit, l, bytes, [])
  | ch :: rest, bytes, l =>
    if ¬ bytes < sourceReadLimit then (.readLimit, l, bytes, ch :: rest)
    else if ch = 0x0A#8 then (.newline, l, bytes, rest)
    else readSourceLine rest (bytes + 1) (l.add ch)

def lineHead (info : DebugInfo) (file : ℕ) (current : Option DebugLine) (annotate : Bool)
    (line : BitVec 32) : Bytes :=
  if annotate then
    (if current.any fun c => c.file = file && c.line = line then ascii "> " else ascii "  ") ++
      rightJustified 5 (decimal line.toNat) ++ ascii " " ++
      match debugInfoLineAddress info file line with
      | some mapped => print [.text (ascii "[0x"), .hex 8, .text (ascii "] ")] [mapped.toNat]
      | none => ascii "[no mapped instruction] "
  else ascii "  "

structure Printed where
  output : Bytes := []
  shown : Bool := false
  limited : Bool := false
  error : Bool := false
deriving DecidableEq, Repr

def Printed.show (printed : Printed) (head : Bytes) (l : LineText) : Printed :=
  { printed with
    output := printed.output ++ head ++ l.text ++
      (if l.truncated then ascii " ... [line truncated]" else []) ++ ascii "\n"
    shown := true }

/-- The outer loop of `print_lines`; `remaining` counts the lines from `line` to the last one. -/
def printLinesLoop (head : BitVec 32 → Bytes) (first : BitVec 32) (failing : Bool) :
    (remaining : ℕ) → (line : BitVec 32) → (bytes : ℕ) → Bytes → Printed → Printed
  | 0, _, _, _, printed => printed
  | remaining + 1, line, bytes, rest, printed =>
    match readSourceLine rest bytes {} with
    | (.readLimit, _, _, _) => { printed with limited := true }
    | (.endOfFile, l, _, _) =>
      let printed := { printed with error := failing }
      if l.text = [] ∧ l.truncated = false then printed
      else if first ≤ line then printed.show (head line) l else printed
    | (.newline, l, bytes, rest) =>
      printLinesLoop head first failing remaining (line + 1) (bytes + 1) rest
        (if first ≤ line then printed.show (head line) l else printed)

/-- Whether a line was shown, and the output. The rows of a line table name files of that table. -/
def printLines (files : SourceFiles) (info : DebugInfo) (file : ℕ) (first last : BitVec 32)
    (current : Option DebugLine) (annotate : Bool) : Bool × Bytes :=
  let path := info.files.getD file []
  match files path with
  | .error text =>
    (false, print [.text (ascii "Source file unavailable: "), .text path, .text (ascii " ("),
      .text text, .text (ascii "). Address mapping is still available.\n")] [])
  | .ok input =>
    let printed := printLinesLoop (lineHead info file current annotate) first input.failing
      last.toNat 1 0 input.rest {}
    (printed.shown, printed.output ++
      (if printed.error then ascii "Source read error.\n" else []) ++
      (if printed.limited then ascii "Source inspection limit reached (4MiB).\n" else []) ++
      (if ¬ printed.shown ∧ ¬ printed.limited then
        ascii "Requested source line is unavailable in the current file.\n" else []))

/-! ## Locations, files and symbols -/

def sourceViewLocation (files : SourceFiles) (info : DebugInfo) (address : BitVec 32)
    (showText : Bool) : Bytes :=
  match debugInfoLookup info address with
  | none => ascii "Source: <no instruction-to-source mapping>\n"
  | some line =>
    print [.text (ascii "Source: "), .text (info.files.getD line.file []), .text (ascii ":"), .decimal,
        .text (ascii ":"), .decimal, .text (ascii "\n")] [line.line.toNat, line.column.toNat] ++
      if showText then (printLines files info line.file line.line line.line (some line) false).2 else []

def sourceViewFiles (info : DebugInfo) : Bytes :=
  if info.files.length = 0 then ascii "No source files in this program's debug information.\n"
  else (List.range info.files.length).flatMap fun i =>
    print [.decimal, .text (ascii "  "), .text (info.files.getD i []), .text (ascii "\n")] [i]

def sourceViewLines (files : SourceFiles) (info : DebugInfo) (address center : BitVec 32)
    (file : ℕ) : Bytes :=
  let current := debugInfoLookup info address
  match if file = sizeMax then current.map (·.file) else some file with
  | none => ascii "No source location at this address. Use sources, then source LINE FILE_INDEX.\n"
  | some file =>
    if file ≥ info.files.length then ascii "Invalid source file index. Use sources.\n"
    else
      let center := if center = 0 then
          match current with
          | some c => if c.file = file then c.line else 1
          | none => 1
        else center
      let first := if center > 4 then center - 4 else 1
      let last := if center > 0xFFFFFFFF#32 - 4 then 0xFFFFFFFF#32 else center + 4
      print [.text (ascii "File "), .decimal, .text (ascii ": "), .text (info.files.getD file []),
          .text (ascii "\n")] [file] ++
        ascii "Rows show the first mapped address; a source line can cover many instructions.\n" ++
        (printLines files info file first last current true).2

def symbolText (symbol : DebugSymbol) : Bytes :=
  print [.text (ascii "0x"), .hex 8, .text (ascii "  size="), .decimal, .text (ascii "  "),
      .text (if symbol.function then ascii "function" else ascii "symbol"), .text (ascii "  "),
      .text symbol.name, .text (ascii "\n")] [symbol.address.toNat, symbol.size.toNat]

def symbolsLoop (name : Option CText) : List DebugSymbol → (shown : ℕ) → Bytes × ℕ
  | [], shown => ([], shown)
  | symbol :: rest, shown =>
    if name.any fun name => strcmp name symbol.name ≠ 0 then symbolsLoop name rest shown
    else if shown = symbolDisplayLimit then
      (ascii "Symbol display limited to 256 entries. Use symbols NAME.\n", shown)
    else
      let (output, n) := symbolsLoop name rest (shown + 1)
      (symbolText symbol ++ output, n)

def sourceViewSymbols (info : DebugInfo) (name : Option CText) : Bytes :=
  let (output, shown) := symbolsLoop name info.symbols 0
  output ++
    if shown = 0 then
      (if name.isNone then ascii "No symbols in this program.\n" else ascii "Symbol not found.\n")
    else []

end Riscv32
