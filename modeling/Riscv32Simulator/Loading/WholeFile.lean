import Riscv32Simulator.Source.ProgramIo

/-! `program_input_bytes` reads the whole stream, or refuses it. -/

namespace Riscv32
open Checked

structure Filling (input : Input) (limit : ℕ) (b : FileBuffer) : Prop where
  split : b.bytes ++ b.input.rest = input.rest
  failing : b.input.failing = input.failing
  room : b.bytes.length ≤ b.capacity
  capacity : b.capacity ≤ limit
  positive : b.capacity = 0 → limit = 0

structure ReadWhole (input : Input) (limit : ℕ) (bytes : List (BitVec 8)) : Prop where
  same : bytes = input.rest
  complete : input.failing = false
  fits : bytes.length ≤ limit

/-- The stream fails, or is longer than the limit, or the host grants no buffer. -/
def ReadRefused (input : Input) (limit : ℕ) (malloc : ℕ → Bool) : Prop :=
  input.failing = true ∨ limit < input.rest.length ∨ ∃ n, malloc n = false

theorem Filling.length {input : Input} {limit : ℕ} {b : FileBuffer} (h : Filling input limit b) :
    b.bytes.length + b.input.rest.length = input.rest.length := by
  rw [← List.length_append, h.split]

theorem meets_lastTurn {input : Input} {limit : ℕ} (malloc : ℕ → Bool) {b : FileBuffer}
    (h : Filling input limit b) (hshort : b.input.rest.length ≤ b.capacity - b.bytes.length) :
    Meets (Sum.elim
        (fun b' => Filling input limit b' ∧ b'.input.rest.length < b.input.rest.length)
        (ReadWhole input limit)) (fun _ => ReadRefused input limit malloc) (do
      reject b.input.failing "input read error"
      return .inr (b.bytes ++ b.input.rest.take (b.capacity - b.bytes.length))) := by
  have hroom := h.room
  have hcap := h.capacity
  have hlen := h.length
  refine (meets_rejectIf fun hf => .inl (h.failing.symm.trans hf)).bind fun _ hf => meets_pure ?_
  rw [List.take_of_length_le hshort]
  refine ⟨h.split, ?_, ?_⟩
  · rw [← h.failing]
    simpa using hf
  · rw [List.length_append]
    omega

theorem meets_inputBytesTurn {input : Input} {limit : ℕ} (malloc : ℕ → Bool) {b : FileBuffer}
    (h : Filling input limit b) :
    Meets (Sum.elim
        (fun b' => Filling input limit b' ∧ b'.input.rest.length < b.input.rest.length)
        (ReadWhole input limit)) (fun _ => ReadRefused input limit malloc)
      (inputBytesTurn limit malloc b) := by
  have hroom := h.room
  have hcap := h.capacity
  have hpos := h.positive
  have hall := h.length
  unfold inputBytesTurn
  refine meets_ite (fun hshort => ?_) fun hfull => ?_
  · rw [List.length_take] at hshort
    exact meets_lastTurn malloc h (by omega)
  · rw [List.length_take] at hfull
    -- the buffer is full: one more byte tells the end of the input from a file to grow for
    cases hrest : b.input.rest.drop (b.capacity - b.bytes.length) with
    | nil => exact meets_lastTurn malloc h (List.drop_eq_nil_iff.mp hrest)
    | cons byte rest =>
      have hlen := congrArg List.length hrest
      rw [List.length_drop, List.length_cons] at hlen
      refine (meets_rejectIf fun hlimit => .inr (.inl (by omega))).bind fun _ hlimit => ?_
      refine (meets_rejectIf fun hno => .inr (.inr ⟨_, by simpa using hno⟩)).bind
        fun _ _ => meets_pure ?_
      refine ⟨⟨?_, h.failing, ?_, ?_, ?_⟩, ?_⟩
      · rw [← h.split, List.append_assoc, List.append_assoc, List.singleton_append, ← hrest,
          List.take_append_drop]
      · dsimp only
        rw [List.length_append, List.length_append, List.length_take, List.length_singleton]
        split_ifs <;> omega
      · dsimp only
        split_ifs <;> omega
      · dsimp only
        split_ifs <;> omega
      · dsimp only
        omega

theorem meets_programInputBytes (input : Input) (limit : ℕ) (malloc : ℕ → Bool) :
    Meets (ReadWhole input limit) (fun _ => ReadRefused input limit malloc)
      (programInputBytes input limit malloc) := by
  refine (meets_rejectIf fun hno => .inr (.inr ⟨_, by simpa using hno⟩)).bind fun _ _ => ?_
  have hstart : Filling input limit
      { capacity := if limit < 4096 then limit else 4096, input := input } := by
    refine ⟨rfl, rfl, Nat.zero_le _, ?_, ?_⟩
    · dsimp only
      split_ifs <;> omega
    · dsimp only
      intro h
      split_ifs at h
      omega
  exact meets_loop (I := Filling input limit) (fun b => b.input.rest.length)
    (fun b hb => meets_inputBytesTurn malloc hb) hstart (Nat.lt_succ_self _)

end Riscv32
