import Riscv32Simulator.Library.Checked
import Riscv32Simulator.Source.Disassembly
import Riscv32Simulator.Source.Machine
import Riscv32Simulator.Source.Monitor

/-! `monitor.c`: the commands `mem` and `disasm`. -/

namespace Riscv32
open Checked Format

def maxInspectionBytes : BitVec 64 := 4096
def maxDisassemblyWords : BitVec 64 := 256

/-- The fields of the monitor that an inspection uses; the debug information may be null. -/
structure Monitor where
  machine : Machine
  debug : Option DebugInfo
deriving DecidableEq

/-- What was printed; the return after "Inspection failed." reports it. -/
abbrev Inspecting := Except (Stop Bytes)

def inspectionRange (ramSize : BitVec 64) (command : CText) (args : List CText) :
    Option (BitVec 64 × BitVec 64) :=
  let memory := command = ascii "mem"
  let maximum := if memory then maxInspectionBytes else maxDisassemblyWords
  if args.length < 2 ∨ args.length > 3 then none
  else
    match number (args.getD 1 []) (ramSize - 1) with
    | none => none
    | some address =>
      match (if args.length = 3 then number (args.getD 2 []) maximum
          else some (if memory then 32 else 8)) with
      | none => none
      | some length =>
        if length = 0 ∨ (if memory then length > ramSize - address
            else address % 4 ≠ 0 ∨ length > (ramSize - address) / 4) then none
        else some (address, length)

/-- One turn of the loop for `mem`. The array of RAM bytes is read without a check. -/
def inspectByte (memory : Memory) (address length : BitVec 64) (output : Bytes) (i : ℕ) :
    Inspecting Bytes := do
  let index := BitVec.ofNat 64 i
  let start := if index % 16 = 0 then
      print [.text (ascii "0x"), .hex 8, .text (ascii ":")] [(address + index).toNat]
    else []
  let byte ← readAt memory.contents (address + index).toNat
  let stop := if index % 16 = 15 ∨ index + 1 = length then ascii "\n" else []
  return output ++ start ++ print [.text (ascii " "), .hex 2] [byte.toNat] ++ stop

/-- The rows of a line table name files of that table. -/
def sourceLocation (debug : Option DebugInfo) (address : BitVec 32) : Bytes :=
  match debug.bind fun info =>
      (debugInfoLookup info address).map fun l => (info.files.getD l.file [], l.line) with
  | some (file, line) =>
    print [.text (ascii "  ; "), .text file, .text (ascii ":"), .decimal] [line.toNat]
  | none => ascii "  ; <no source mapping>"

def inspectWord (monitor : Monitor) (address : BitVec 64) (output : Bytes) (i : ℕ) :
    Inspecting Bytes :=
  let place := address + BitVec.ofNat 64 i * 4
  match memoryReadU32 monitor.machine.memory (place.setWidth 32) with
  | none => .error (.reported (output ++ ascii "Inspection failed.\n"))
  | some word =>
    let (ok, text) := instructionDisassemble word (some []) 128
    if ¬ ok then .error (.reported (output ++ ascii "Inspection failed.\n"))
    else .ok (output ++
      print [.text (ascii "0x"), .hex 8, .text (ascii "  "), .hex 8, .text (ascii "  ")]
        [place.toNat, word.toNat] ++
      text.getD [] ++ sourceLocation monitor.debug (place.setWidth 32) ++ ascii "\n")

def invalidInspection : Bytes :=
  ascii "Invalid inspection range. Use mem ADDRESS [BYTES] or disasm ADDRESS [COUNT].\n"

def inspect (monitor : Monitor) (command : CText) (args : List CText) :
    Inspecting (Monitor × Bytes) :=
  match inspectionRange (BitVec.ofNat 64 monitor.machine.memory.size) command args with
  | none => .ok (monitor, invalidInspection)
  | some (address, length) => do
    let output ← (List.range length.toNat).foldlM
      (fun output i =>
        if command = ascii "mem" then inspectByte monitor.machine.memory address length output i
        else inspectWord monitor address output i) []
    return (monitor, output)

end Riscv32
