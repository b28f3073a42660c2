import Mathlib

/-! A step that is taken again and again: the state after some steps, the label of each step, and two
systems that go on side by side. -/

namespace Iterated

variable {S T L M : Type*} (step : S → L × S) (step' : T → M × T)

def after (n : ℕ) (s : S) : S := (fun s => (step s).2)^[n] s

def label (n : ℕ) (s : S) : L := (step (after step n s)).1

theorem after_succ (n : ℕ) (s : S) : after step (n + 1) s = after step n (step s).2 :=
  Function.iterate_succ_apply ..

theorem after_succ' (n : ℕ) (s : S) : after step (n + 1) s = (step (after step n s)).2 :=
  Function.iterate_succ_apply' ..

theorem label_succ (n : ℕ) (s : S) : label step (n + 1) s = label step n (step s).2 := by
  rw [label, label, after_succ]

variable {step step'}

/-- Systems that stay side by side for one step, whenever the first one's label is harmless, stay
side by side for as long as its labels are. -/
theorem lockstep {R : S → T → Prop} {Q : L → M → Prop} {H : L → Prop}
    (h : ∀ s t, R s t → H (step s).1 → Q (step s).1 (step' t).1 ∧ R (step s).2 (step' t).2)
    {s : S} {t : T} (hst : R s t) {n : ℕ} (hn : ∀ k < n, H (label step k s)) :
    (∀ k < n, Q (label step k s) (label step' k t)) ∧
      ∀ k ≤ n, R (after step k s) (after step' k t) := by
  have hR : ∀ k ≤ n, R (after step k s) (after step' k t) := by
    intro k
    induction k with
    | zero => exact fun _ => hst
    | succ k ih =>
      intro hk
      rw [after_succ', after_succ']
      exact (h _ _ (ih (by omega)) (hn k hk)).2
  exact ⟨fun k hk => (h _ _ (hR k hk.le) (hn k hk)).1, hR⟩

end Iterated
