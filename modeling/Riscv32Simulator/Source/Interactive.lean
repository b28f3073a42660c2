import Riscv32Simulator.Source.Help
import Riscv32Simulator.Source.Report

/-! `monitor.c`: the command loop. A Ctrl-C is seen where the code looks at `interrupted`. -/

namespace Riscv32
open Checked Format

/-! ## The host and the terminal -/

/-- `interrupted` answers each look of a run; `signal` tells for each wait for a line whether a
Ctrl-C cuts it short, and how many bytes of the line had been taken. Two things are taken for
granted of the host: the handler that `signal()` has installed stays so after a first Ctrl-C, and no
Ctrl-C comes while the rest of an overlong line is read away. -/
structure MonitorHost where
  files : SourceFiles
  interrupted : ℕ → Bool
  signal : ℕ → Option ℕ

structure Terminal where
  input : Bytes
  failing : Bool := false
  waits : ℕ := 0
  looks : ℕ := 0
  output : Bytes := []
deriving DecidableEq

/-- The structure `Monitor` of the source. -/
structure Session extends TraceView where
  machine : Machine
  limit : BitVec 64
deriving DecidableEq

structure Console where
  session : Session
  terminal : Terminal
deriving DecidableEq

def Terminal.put (t : Terminal) (text : Bytes) : Terminal := { t with output := t.output ++ text }

def Console.put (c : Console) (text : Bytes) : Console := { c with terminal := c.terminal.put text }

/-! ## Lines and words -/

/-- `fgets`: at most `n` bytes, and none behind a newline; the bytes taken and the rest. -/
def fgets : (n : ℕ) → Bytes → Bytes × Bytes
  | 0, input => ([], input)
  | _ + 1, [] => ([], [])
  | n + 1, ch :: rest =>
    if ch = 0x0A#8 then ([ch], rest)
    else ((ch :: (fgets n rest).1), (fgets n rest).2)

def cstring (buffer : Bytes) : CText := buffer.takeWhile fun c => c ≠ 0#8

def isDelimiter (c : BitVec 8) : Bool := c = 0x20#8 || c = 0x09#8 || c = 0x0D#8 || c = 0x0A#8

def strtok (text : CText) : Option (CText × CText) :=
  let text := text.dropWhile isDelimiter
  if text = [] then none
  else some (text.takeWhile (!isDelimiter ·), (text.dropWhile (!isDelimiter ·)).drop 1)

/-- The loop over `strtok`; `room` is what is left of the array of arguments. -/
def splitArgs : (room : ℕ) → CText → List CText
  | 0, _ => []
  | room + 1, text =>
    match strtok text with
    | none => []
    | some (part, rest) => part :: splitArgs room rest

/-! ## Commands -/

def shouldStop (host : MonitorHost) (c : TraceView × Terminal) : Bool × (TraceView × Terminal) :=
  (host.interrupted c.2.looks, (c.1, { c.2 with looks := c.2.looks + 1 }))

def traceTo (host : MonitorHost) (record : CpuStepRecord) (c : TraceView × Terminal) :
    TraceView × Terminal :=
  ((traceStep host.files record c.1).1, c.2.put (traceStep host.files record c.1).2)

def Session.forgetSource (s : Session) : Session := { s with sourceSeen := false }

def whereCommand (host : MonitorHost) (c : Console) (args : List CText) : Console :=
  let address := if args.length = 2 then number (args.getD 1 []) 0xFFFFFFFF
    else some (c.session.machine.cpu.programCounter.setWidth 64)
  let c := match address with
    | none => c.put (ascii "Invalid address.\n")
    | some address => c.put (sourceViewLocation host.files c.session.debug (address.setWidth 32) true)
  { c with session := c.session.forgetSource }

def sourceCommand (host : MonitorHost) (c : Console) (args : List CText) : Console :=
  let line := if args.length ≥ 2 then (number (args.getD 1 []) 0xFFFFFFFF).filter (· ≠ 0) else some 0
  let file := if args.length = 3 then
      (number (args.getD 2 []) (BitVec.ofNat 64 sizeMax)).filter (· ≠ BitVec.ofNat 64 sizeMax)
    else some (BitVec.ofNat 64 sizeMax)
  let c := match line, file with
    | some line, some file => c.put (sourceViewLines host.files c.session.debug
        c.session.machine.cpu.programCounter (line.setWidth 32) file.toNat)
    | _, _ => c.put (ascii "Use source [positive LINE] [FILE_INDEX].\n")
  { c with session := c.session.forgetSource }

def stopCommand (c : Console) : Console :=
  { c with session := { c.session with machine := machineStop c.session.machine } }.put
    (ascii "CPU stopped. Use step or run to resume.\n")

def resetCommand (c : Console) : Console :=
  let (ok, machine) := machineReset c.session.machine
  { c with session := { c.session with
      machine := machine, hasRecord := false, sourceSeen := false, lastSource := none } }.put
    (if ok then ascii "Loaded image and CPU restored.\n" else ascii "Reset failed.\n")

/-- An access outside the RAM would end the monitor here. -/
def inspectCommand (c : Console) (command : CText) (args : List CText) :
    Except (Stop Empty) Console :=
  match inspect { machine := c.session.machine, debug := some c.session.debug } command args with
  | .ok (_, text) => .ok (c.put text)
  | .error (.reported text) => .ok (c.put text)
  | .error .outside => .error .outside
  | .error .outOfFuel => .error .outOfFuel

def runMachine (host : MonitorHost) (c : Console) (limit : BitVec 64) (trace : Bool) : Console :=
  let (run, machine, view, terminal) := machineRun c.session.machine limit.toNat
    (some (shouldStop host)) (some (traceTo host))
    ({ c.session.toTraceView with trace := trace }, c.terminal)
  { session :=
      { toTraceView := { view with trace := c.session.trace }
        machine := machine
        limit := c.session.limit }
    terminal := terminal.put (reportStop run machine) }

def runCommand (host : MonitorHost) (c : Console) (stepping : Bool) (args : List CText) : Console :=
  let limit := if args.length = 2 then
      (number (args.getD 1 []) (BitVec.allOnes 64)).filter (· ≠ 0)
    else some (if stepping then 1 else c.session.limit)
  match limit with
  | none => c.put (ascii "Instruction limit must be a positive integer.\n")
  | some limit => runMachine host c limit (stepping || c.session.trace)

/-- The chain of comparisons behind `quit`; there are between one and three arguments. -/
def dispatch (host : MonitorHost) (c : Console) (args : List CText) : Except (Stop Empty) Console :=
  let command := args.headD []
  let count := args.length
  if command = ascii "help" ∧ count ≤ 2 then
    .ok (c.put (commandHelp (if count = 2 then some (args.getD 1 []) else none)))
  else if command = ascii "regs" ∧ count = 1 then
    .ok (c.put (showRegisters c.session.toTraceView c.session.machine))
  else if command = ascii "sources" ∧ count = 1 then .ok (c.put (sourceViewFiles c.session.debug))
  else if command = ascii "symbols" ∧ count ≤ 2 then
    .ok (c.put (sourceViewSymbols c.session.debug (if count = 2 then some (args.getD 1 []) else none)))
  else if command = ascii "where" ∧ count ≤ 2 then .ok (whereCommand host c args)
  else if command = ascii "source" ∧ count ≤ 3 then .ok (sourceCommand host c args)
  else if command = ascii "stop" ∧ count = 1 then .ok (stopCommand c)
  else if command = ascii "reset" ∧ count = 1 then .ok (resetCommand c)
  else if command = ascii "mem" ∨ command = ascii "disasm" then inspectCommand c command args
  else if (command = ascii "step" ∨ command = ascii "run") ∧ count ≤ 2 then
    .ok (runCommand host c (command = ascii "step") args)
  else .ok (c.put (ascii "Unknown command or wrong arguments. Type help.\n"))

/-! ## The loop -/

/-- What is done with the arguments of a line: the monitor goes on, or it is left. -/
def obey (host : MonitorHost) (c : Console) (args : List CText) :
    Except (Stop Empty) (Console ⊕ (ℕ × Console)) :=
  if args.length = 0 then .ok (.inl c)
  else if args.length > 3 then .ok (.inl (c.put (ascii "Too many arguments.\n")))
  else if args.headD [] = ascii "quit" ∧ args.length = 1 then .ok (.inr (0, c))
  else
    match dispatch host c args with
    | .ok c => .ok (.inl c)
    | .error e => .error e

def commandCapacity : ℕ := 512

inductive Awaited
  | interrupted
  | ended
  | tooLong
  | line (text : CText)
deriving DecidableEq, Repr

/-- `fgets`, and the tests of what it gave, up to the splitting of the line. -/
def awaitLine (host : MonitorHost) (t : Terminal) : Awaited × Terminal :=
  let line := (fgets (commandCapacity - 1) t.input).1
  let rest := (fgets (commandCapacity - 1) t.input).2
  -- the end of the stream is met where fewer bytes came than were asked for
  let atEnd := line.length < commandCapacity - 1 ∧ line.getLast? ≠ some 0x0A#8
  let after := { t with waits := t.waits + 1 }
  match host.signal t.waits with
  | some taken =>
    let taken := min taken (line.takeWhile fun ch => ch ≠ 0x0A#8).length
    (.interrupted, { after with input := t.input.drop taken })
  | none =>
    if atEnd ∧ (line = [] ∨ t.failing = true) then (.ended, { after with input := [] })
    else if 0x0A#8 ∉ cstring line ∧ ¬ atEnd then
      -- the drain goes on through the next newline
      (.tooLong, { after with input := (rest.dropWhile fun ch => ch ≠ 0x0A#8).drop 1 })
    else (.line (cstring line), { after with input := rest })

def interactiveTurn (host : MonitorHost) (c : Console) :
    Except (Stop Empty) (Console ⊕ (ℕ × Console)) :=
  let prompted := c.terminal.put (ascii "rv32> ")
  let c := { c with terminal := (awaitLine host prompted).2 }
  match (awaitLine host prompted).1 with
  | .interrupted => .ok (.inl (c.put (ascii "Interrupted.\n")))
  | .ended => .ok (.inr (if c.terminal.failing then 2 else 0, c))
  | .tooLong => .ok (.inl (c.put (ascii "Command too long.\n")))
  | .line text => obey host c (splitArgs 5 text)

def interactive (host : MonitorHost) (fuel : ℕ) (c : Console) : Except (Stop Empty) (ℕ × Console) :=
  loop (interactiveTurn host) fuel (c.put (ascii "Monitor ready. Type help for commands.\n"))

end Riscv32
