import Mathlib

/-! Stores to runs of consecutive cells, and the cell contents as the last store that covers each. -/

namespace WriteLog

variable {α : Type*}

structure Entry (α : Type*) where
  start : ℕ
  cells : List α

def Entry.Covers (w : Entry α) (i : ℕ) : Prop := w.start ≤ i ∧ i < w.start + w.cells.length

instance (w : Entry α) (i : ℕ) : Decidable (w.Covers i) := inferInstanceAs (Decidable (_ ∧ _))

def put (init : ℕ → α) (w : Entry α) (i : ℕ) : α :=
  if w.Covers i then w.cells.getD (i - w.start) (init i) else init i

/-- What the last store that covers a cell left there, or what was there initially. -/
def lastWriter (init : ℕ → α) (log : List (Entry α)) (i : ℕ) : α :=
  match log.reverse.find? (fun w => decide (w.Covers i)) with
  | some w => w.cells.getD (i - w.start) (init i)
  | none => init i

theorem lastWriter_concat (init : ℕ → α) (log : List (Entry α)) (w : Entry α) (i : ℕ) :
    lastWriter init (log ++ [w]) i =
      if w.Covers i then w.cells.getD (i - w.start) (init i) else lastWriter init log i := by
  unfold lastWriter
  rw [List.reverse_append, List.reverse_singleton, List.singleton_append, List.find?_cons]
  by_cases h : w.Covers i
  · simp [h]
  · simp [h]

theorem getD_of_covers {w : Entry α} {i : ℕ} (h : w.Covers i) (d d' : α) :
    w.cells.getD (i - w.start) d = w.cells.getD (i - w.start) d' := by
  obtain ⟨h1, h2⟩ := h
  have hlt : i - w.start < w.cells.length := by omega
  rw [List.getD_eq_getElem _ _ hlt, List.getD_eq_getElem _ _ hlt]

theorem put_lastWriter (init : ℕ → α) (log : List (Entry α)) (w : Entry α) :
    put (lastWriter init log) w = lastWriter init (log ++ [w]) := by
  funext i
  rw [lastWriter_concat, put]
  split_ifs with h
  · exact getD_of_covers h _ _
  · rfl

end WriteLog
