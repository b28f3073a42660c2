import Mathlib

/-! Computations that are refused exactly when a condition on their input fails. -/

namespace Refusing

universe u
variable {α σ τ : Type u}

/-- Where `ok` holds there is a result, and it is as `Q` says; otherwise there is none. -/
structure Yields (ok : Prop) (Q : σ → Prop) (r : Option σ) : Prop where
  result : ok → ∃ s, r = some s ∧ Q s
  refused : ¬ ok → r = none

variable {ok ok' : Prop} {Q : σ → Prop} {r : Option σ}

theorem yields_some {s : σ} (hok : ok) (h : Q s) : Yields ok Q (some s) :=
  ⟨fun _ => ⟨s, rfl, h⟩, fun hn => absurd hok hn⟩

theorem yields_none (hok : ¬ ok) : Yields ok Q none := ⟨fun h => absurd h hok, fun _ => rfl⟩

theorem Yields.congr (h : Yields ok Q r) (hok : ok ↔ ok') : Yields ok' Q r :=
  ⟨fun h' => h.result (hok.mpr h'), fun hn => h.refused (mt hok.mp hn)⟩

theorem Yields.imp {P : σ → Prop} (h : Yields ok P r) (hQ : ∀ s, P s → Q s) : Yields ok Q r := by
  refine ⟨fun hok => ?_, h.refused⟩
  obtain ⟨s, hs, hp⟩ := h.result hok
  exact ⟨s, hs, hQ s hp⟩

theorem Yields.bind {P : τ → Prop} {f : σ → Option τ} (h : Yields ok Q r)
    (hf : ∀ s, Q s → Yields ok' P (f s)) : Yields (ok ∧ ok') P (r.bind f) := by
  by_cases hok : ok
  · obtain ⟨s, rfl, hs⟩ := h.result hok
    exact (hf s hs).congr (and_iff_right hok).symm
  · rw [h.refused hok]
    exact yields_none fun hboth => hok hboth.1

theorem yields_ite {c : Prop} [Decidable c] {x y : Option σ} (hx : c → Yields ok Q x)
    (hy : ¬ c → Yields ok Q y) : Yields ok Q (if c then x else y) := by
  split_ifs with h
  · exact hx h
  · exact hy h

/-- A loop over a list is refused exactly when one of its turns is. The invariant speaks of the
part of the list that is done. -/
theorem yields_foldlM {accept : α → Prop} {I : List α → σ → Prop} {f : σ → α → Option σ} {xs : List α}
    (h : ∀ pre x post, xs = pre ++ x :: post → ∀ s, I pre s → Yields (accept x) (I (pre ++ [x])) (f s x))
    {s : σ} (hs : I [] s) : Yields (∀ x ∈ xs, accept x) (I xs) (xs.foldlM f s) := by
  suffices hall : ∀ pre post, xs = pre ++ post → ∀ s, I pre s →
      Yields (∀ x ∈ post, accept x) (I xs) (post.foldlM f s) by
    exact hall [] xs rfl s hs
  intro pre post
  induction post generalizing pre with
  | nil =>
    intro hsplit s hs
    rw [List.append_nil] at hsplit
    exact yields_some (by simp) (hsplit ▸ hs)
  | cons x post ih =>
    intro hsplit s hs
    have hnext := (h pre x post hsplit s hs).bind fun t ht =>
      ih (pre ++ [x]) (by rw [hsplit, List.append_assoc, List.singleton_append]) t ht
    rw [List.foldlM_cons]
    exact hnext.congr List.forall_mem_cons.symm

end Refusing
