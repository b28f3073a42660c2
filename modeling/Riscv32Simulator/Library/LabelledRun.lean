import Mathlib

/-! Runs of a deterministic step that may stop and that emits one label each time it is taken. -/

namespace LabelledRun

variable {S R V : Type*} (next : S → Option (R × S))

/-- `Run next s rs t`: from `s` the step is taken once for each label of `rs`, up to `t`. -/
inductive Run : S → List R → S → Prop
  | nil (s : S) : Run s [] s
  | cons {s u t : S} {r : R} {rs : List R} :
      next s = some (r, u) → Run u rs t → Run s (r :: rs) t

variable {next}

theorem Run.single {s t : S} {r : R} (h : next s = some (r, t)) : Run next s [r] t :=
  .cons h (.nil t)

theorem Run.append {s u t : S} {rs qs : List R} (h : Run next s rs u) (h' : Run next u qs t) :
    Run next s (rs ++ qs) t := by
  induction h with
  | nil => exact h'
  | cons hn _ ih => exact .cons hn (ih h')

theorem Run.unique {s t t' : S} {rs rs' : List R} (h : Run next s rs t) (h' : Run next s rs' t')
    (hl : rs.length = rs'.length) : rs = rs' ∧ t = t' := by
  induction h generalizing rs' with
  | nil =>
    cases h' with
    | nil => exact ⟨rfl, rfl⟩
    | cons => nomatch hl
  | cons hn _ ih =>
    cases h' with
    | nil => nomatch hl
    | cons hn' hr =>
      rw [hn] at hn'
      obtain ⟨rfl, rfl⟩ := Prod.mk.inj (Option.some.inj hn')
      obtain ⟨rfl, rfl⟩ := ih hr (Nat.succ.inj hl)
      exact ⟨rfl, rfl⟩

theorem Run.split {s t : S} {rs : List R} (h : Run next s rs t) (k : ℕ) :
    ∃ u, Run next s (rs.take k) u ∧ Run next u (rs.drop k) t := by
  induction h generalizing k with
  | nil s => exact ⟨s, by simpa using Run.nil s, by simpa using Run.nil s⟩
  | @cons s u t r rs hn hr ih =>
    cases k with
    | zero => exact ⟨s, .nil s, .cons hn hr⟩
    | succ k =>
      obtain ⟨v, h1, h2⟩ := ih k
      exact ⟨v, .cons hn h1, h2⟩

theorem Run.foldl_redo {view : S → V} {redo : V → R → V}
    (hredo : ∀ s r u, next s = some (r, u) → redo (view s) r = view u) {s t : S} {rs : List R}
    (h : Run next s rs t) : rs.foldl redo (view s) = view t := by
  induction h with
  | nil => rfl
  | cons hn _ ih => rw [List.foldl_cons, hredo _ _ _ hn, ih]

theorem Run.foldr_undo {view : S → V} {undo : R → V → V}
    (hundo : ∀ s r u, next s = some (r, u) → undo r (view u) = view s) {s t : S} {rs : List R}
    (h : Run next s rs t) : rs.foldr undo (view t) = view s := by
  induction h with
  | nil => rfl
  | cons hn _ ih => rw [List.foldr_cons, ih, hundo _ _ _ hn]

end LabelledRun
