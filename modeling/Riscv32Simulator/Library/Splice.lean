import Mathlib

/-! Overwriting a run of consecutive list entries, and reading runs back. -/

namespace Splice

variable {α : Type*}

/-- Write `ys` over the entries of `xs` from index `a` on; entries past the end are dropped. -/
def overwrite : List α → ℕ → List α → List α
  | xs, _, [] => xs
  | xs, a, y :: ys => overwrite (xs.set a y) (a + 1) ys

def slice (xs : List α) (a n : ℕ) : List α := (xs.drop a).take n

@[simp] theorem overwrite_nil (xs : List α) (a : ℕ) : overwrite xs a [] = xs := rfl

@[simp] theorem length_overwrite (xs : List α) (a : ℕ) (ys : List α) :
    (overwrite xs a ys).length = xs.length := by
  induction ys generalizing xs a with
  | nil => rfl
  | cons y ys ih => rw [overwrite, ih, List.length_set]

theorem overwrite_append (xs : List α) (a : ℕ) (ys zs : List α) :
    overwrite xs a (ys ++ zs) = overwrite (overwrite xs a ys) (a + ys.length) zs := by
  induction ys generalizing xs a with
  | nil => rfl
  | cons y ys ih =>
    rw [List.cons_append, overwrite, ih, overwrite, List.length_cons]
    congr 1
    omega

theorem getElem?_overwrite_of_outside (xs : List α) {a i : ℕ} (ys : List α)
    (h : i < a ∨ a + ys.length ≤ i) : (overwrite xs a ys)[i]? = xs[i]? := by
  induction ys generalizing xs a with
  | nil => rfl
  | cons y ys ih =>
    rw [List.length_cons] at h
    rw [overwrite, ih _ (by omega), List.getElem?_set_ne (by omega)]

theorem getElem?_overwrite_of_inside (xs : List α) {a i : ℕ} (ys : List α)
    (hi : i < ys.length) (h : a + i < xs.length) : (overwrite xs a ys)[a + i]? = ys[i]? := by
  induction ys generalizing xs a i with
  | nil => simp at hi
  | cons y ys ih =>
    rw [overwrite]
    cases i with
    | zero =>
      rw [getElem?_overwrite_of_outside _ _ (by omega)]
      simp only [Nat.add_zero] at h ⊢
      rw [List.getElem?_set_self h, List.getElem?_cons_zero]
    | succ i =>
      rw [List.length_cons] at hi
      have hh := ih (xs.set a y) (a := a + 1) (i := i) (by omega)
        (by rw [List.length_set]; omega)
      rwa [show a + 1 + i = a + (i + 1) by omega] at hh

theorem getElem?_overwrite (xs : List α) {a : ℕ} (ys : List α) (h : a + ys.length ≤ xs.length)
    (i : ℕ) : (overwrite xs a ys)[i]? =
      if a ≤ i ∧ i < a + ys.length then ys[i - a]? else xs[i]? := by
  split_ifs with hi
  · have hh := getElem?_overwrite_of_inside xs (a := a) (i := i - a) ys (by omega) (by omega)
    rwa [show a + (i - a) = i by omega] at hh
  · exact getElem?_overwrite_of_outside xs ys (by omega)

theorem getD_overwrite (xs : List α) {a : ℕ} (ys : List α) (h : a + ys.length ≤ xs.length)
    (i : ℕ) (d : α) : (overwrite xs a ys).getD i d =
      if a ≤ i ∧ i < a + ys.length then ys.getD (i - a) d else xs.getD i d := by
  simp only [List.getD_eq_getElem?_getD, getElem?_overwrite xs ys h]
  split_ifs <;> rfl

theorem length_slice (xs : List α) {a n : ℕ} (h : a + n ≤ xs.length) :
    (slice xs a n).length = n := by
  rw [slice, List.length_take, List.length_drop]
  omega

theorem getElem?_slice (xs : List α) (a n i : ℕ) :
    (slice xs a n)[i]? = if i < n then xs[a + i]? else none := by
  rw [slice, List.getElem?_take, List.getElem?_drop]

theorem getD_slice (xs : List α) {a n i : ℕ} (h : i < n) (d : α) :
    (slice xs a n).getD i d = xs.getD (a + i) d := by
  rw [List.getD_eq_getElem?_getD, getElem?_slice, if_pos h, List.getD_eq_getElem?_getD]

theorem slice_succ (xs : List α) {a n : ℕ} (d : α) (h : a < xs.length) :
    slice xs a (n + 1) = xs.getD a d :: slice xs (a + 1) n := by
  rw [slice, List.drop_eq_getElem_cons h, List.take_succ_cons, slice, List.getD_eq_getElem _ _ h]

theorem take_overwrite (xs : List α) {a : ℕ} (ys : List α) (h : a + ys.length ≤ xs.length) :
    (overwrite xs a ys).take (a + ys.length) = xs.take a ++ ys := by
  apply List.ext_getElem?
  intro i
  rw [List.getElem?_take, getElem?_overwrite xs ys h, List.getElem?_append, List.length_take,
    Nat.min_eq_left (by omega : a ≤ xs.length), List.getElem?_take]
  split_ifs with h1 h2 h3 h4
  · omega
  · rfl
  · rfl
  · omega
  · omega
  · exact (List.getElem?_eq_none (by omega)).symm

theorem overwrite_slice (xs : List α) {a n : ℕ} (h : a + n ≤ xs.length) :
    overwrite xs a (slice xs a n) = xs := by
  apply List.ext_getElem?
  intro i
  have hl := length_slice xs h
  rw [getElem?_overwrite xs _ (by omega), hl]
  split_ifs with hi
  · rw [getElem?_slice, if_pos (by omega), show a + (i - a) = i by omega]
  · rfl

theorem overwrite_overwrite (xs : List α) {a : ℕ} {ys zs : List α} (hl : ys.length = zs.length)
    (h : a + zs.length ≤ xs.length) : overwrite (overwrite xs a ys) a zs = overwrite xs a zs := by
  apply List.ext_getElem?
  intro i
  rw [getElem?_overwrite _ _ (by rwa [length_overwrite]), getElem?_overwrite xs zs h,
    getElem?_overwrite xs ys (hl ▸ h), hl]
  split_ifs <;> rfl

end Splice
