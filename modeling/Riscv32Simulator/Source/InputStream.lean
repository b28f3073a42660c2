import Riscv32Simulator.Library.Splice
import Riscv32Simulator.Source.ProgramIo

/-! `program_input_bytes` on a stream whose bytes arrive in pieces of any size. -/

namespace Riscv32.Pieces
open Checked Splice

/-- A stream and its indicators. Read number `k` delivers at most `(serve k).1` bytes, and at least
one while there are any; `(serve k).2` tells whether a read cut short by the end meets it at once. -/
structure File where
  rest : List (BitVec 8)
  failing : Bool := false
  serve : ℕ → ℕ × Bool
  reads : ℕ := 0
  eof : Bool := false
  error : Bool := false

namespace File

/-- Behind the last byte there is the end of file or, on a failing stream, an error. -/
def meetEnd (f : File) : File :=
  { f with eof := f.eof || !f.failing, error := f.error || f.failing }

def take (f : File) (n : ℕ) : List (BitVec 8) × File :=
  (f.rest.take n, { f with rest := f.rest.drop n, reads := f.reads + 1 })

/-- `fread` of `n` single bytes; a read of none does not touch the stream. -/
def fread (f : File) (n : ℕ) : List (BitVec 8) × File :=
  if n = 0 then ([], f)
  else
    let (got, after) := f.take (min n (max 1 (f.serve f.reads).1))
    if after.rest = [] ∧ got.length < n ∧ ((f.serve f.reads).2 = true ∨ got = []) then
      (got, after.meetEnd)
    else (got, after)

/-- `none` is `EOF`. -/
def fgetc (f : File) : Option (BitVec 8) × File :=
  match f.rest with
  | byte :: rest => (some byte, { f with rest := rest })
  | [] => (none, f.meetEnd)

end File

def storeAt (data : List (BitVec 8)) (i : ℕ) (ys : List (BitVec 8)) : Loading (List (BitVec 8)) :=
  if i + ys.length ≤ data.length then .ok (overwrite data i ys) else .error .outside

/-- What the host grants for each size, if anything: a block of that many bytes, not initialized. -/
structure Host where
  malloc : ℕ → Option (List (BitVec 8))
  length_malloc : ∀ size, ∀ block ∈ malloc size, block.length = size

/-- The grown block keeps its contents; what is behind them is that of a fresh block. -/
def Host.realloc (host : Host) (data : List (BitVec 8)) (size : ℕ) : Option (List (BitVec 8)) :=
  (host.malloc size).map fun fresh => data ++ fresh.drop data.length

structure Buffer where
  capacity : ℕ
  data : List (BitVec 8)
  used : ℕ := 0
  input : File

def inputBytesTurn (limit : ℕ) (host : Host) (b : Buffer) :
    Loading (Buffer ⊕ (List (BitVec 8) × ℕ)) := do
  let (got, input) := b.input.fread (b.capacity - b.used)
  let data ← storeAt b.data b.used got
  let used := b.used + got.length
  reject input.error "input read error"
  if input.eof then return .inr (data, used)
  else if used < b.capacity then
    return .inl { capacity := b.capacity, data := data, used := used, input := input }
  else
    match input.fgetc with
    | (none, input) =>
      reject input.error "input read error"
      return .inr (data, used)
    | (some byte, input) =>
      reject (b.capacity = limit) "input exceeds size limit or available RAM"
      let next := if b.capacity > limit / 2 then limit else b.capacity * 2
      match host.realloc data next with
      | none => .error (.reported ⟨0, "cannot grow file buffer"⟩)
      | some grown =>
        let data ← storeAt grown used [byte]
        return .inl { capacity := next, data := data, used := used + 1, input := input }

def start (input : File) (limit : ℕ) (host : Host) : Loading Buffer :=
  let capacity := if limit < 4096 then limit else 4096
  match host.malloc capacity with
  | none => .error (.reported ⟨0, "cannot allocate file buffer"⟩)
  | some data => .ok { capacity := capacity, data := data, input := input }

def programInputBytes (input : File) (limit : ℕ) (host : Host) :
    Loading (List (BitVec 8) × ℕ) := do
  let buffer ← start input limit host
  loop (inputBytesTurn limit host) (input.rest.length + 1) buffer

end Riscv32.Pieces
