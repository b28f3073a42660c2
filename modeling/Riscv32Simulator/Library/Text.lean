import Mathlib

/-! Texts: the longest prefix that a predicate accepts, words between delimiters, and lines. -/

namespace Text

variable {α : Type*}

/-! ## Prefixes -/

theorem takeWhile_eq_nil {p : α → Bool} {ys : List α} (h : ∀ y ∈ ys.head?, p y = false) :
    ys.takeWhile p = [] ∧ ys.dropWhile p = ys := by
  cases ys with
  | nil => exact ⟨rfl, rfl⟩
  | cons y ys =>
    have hy := h y rfl
    simp [hy]

theorem takeWhile_append {p : α → Bool} {xs ys : List α} (hx : ∀ x ∈ xs, p x = true)
    (hy : ∀ y ∈ ys.head?, p y = false) :
    (xs ++ ys).takeWhile p = xs ∧ (xs ++ ys).dropWhile p = ys := by
  rw [List.takeWhile_append_of_pos hx, List.dropWhile_append_of_pos hx, (takeWhile_eq_nil hy).1,
    (takeWhile_eq_nil hy).2, List.append_nil]
  exact ⟨rfl, rfl⟩

theorem takeWhile_all {p : α → Bool} (xs : List α) : ∀ x ∈ xs.takeWhile p, p x = true :=
  fun _ => List.mem_takeWhile_imp

/-! ## Words -/

def words (p : α → Bool) (xs : List α) : List (List α) := (xs.splitOnP p).filter fun w => !w.isEmpty

theorem words_cons_of_pos {p : α → Bool} {x : α} (h : p x = true) (xs : List α) :
    words p (x :: xs) = words p xs := by
  rw [words, List.splitOnP_cons_eq_if_modifyHead, if_pos h]
  rfl

theorem words_dropWhile (p : α → Bool) (xs : List α) : words p (xs.dropWhile p) = words p xs := by
  induction xs with
  | nil => rfl
  | cons x xs ih =>
    rw [List.dropWhile_cons]
    split_ifs with h
    · rw [ih, words_cons_of_pos h]
    · rfl

theorem words_append_of_pos {p : α → Bool} (xs : List α) {x : α} (h : p x = true) :
    words p (xs ++ [x]) = words p xs := by
  rw [words, List.splitOnP_append_cons xs [] h, List.filter_append]
  exact List.append_nil _

theorem words_of_head {p : α → Bool} {xs : List α} (hne : xs ≠ []) (h : ∀ x ∈ xs.head?, p x = false) :
    words p xs =
      (xs.takeWhile (!p ·)) :: words p ((xs.dropWhile (!p ·)).drop 1) := by
  have hword : ∀ x ∈ xs.takeWhile (!p ·), p x = false := by
    intro x hx
    simpa using takeWhile_all xs x hx
  have hfirst : (xs.takeWhile (!p ·)).isEmpty = false := by
    cases xs with
    | nil => exact absurd rfl hne
    | cons x xs =>
      have hx := h x rfl
      simp [hx]
  have hsplit := List.takeWhile_append_dropWhile (p := (!p ·)) (l := xs)
  generalize xs.takeWhile (!p ·) = w at hword hfirst hsplit ⊢
  cases hrest : xs.dropWhile (!p ·) with
  | nil =>
    rw [hrest, List.append_nil] at hsplit
    rw [← hsplit, words, List.splitOnP_eq_singleton hword]
    simp [hfirst, words]
  | cons d rest =>
    have hd : p d = true := by
      have hhead := List.head?_dropWhile_not (!p ·) xs
      rw [hrest] at hhead
      simpa using hhead
    rw [hrest] at hsplit
    rw [← hsplit, words, List.splitOnP_append_cons_of_forall_mem hword d hd]
    simp [hfirst, words]

/-! ## Lines -/

variable [DecidableEq α] {sep : α}

def lines (sep : α) (xs : List α) : List (List α) :=
  if (xs.splitOn sep).getLast? = some [] then (xs.splitOn sep).dropLast else xs.splitOn sep

@[simp] theorem lines_nil : lines sep [] = [] := rfl

theorem lines_of_not_mem {xs : List α} (h : sep ∉ xs) (hne : xs ≠ []) : lines sep xs = [xs] := by
  rw [lines, List.splitOn_eq_singleton h, if_neg (by simpa using hne)]

theorem lines_append_cons {xs : List α} (h : sep ∉ xs) (ys : List α) :
    lines sep (xs ++ sep :: ys) = xs :: lines sep ys := by
  have hne : ys.splitOn sep ≠ [] := List.splitOn_ne_nil sep ys
  rw [lines, List.splitOn_append_cons_self_of_not_mem h, lines, List.getLast?_cons_of_ne_nil hne,
    List.dropLast_cons_of_ne_nil hne]
  split_ifs <;> rfl

/-- A text is empty, or an unterminated line, or a terminated line before another text. -/
theorem lines_induction (sep : α) {P : List α → Prop} (nil : P [])
    (last : ∀ xs, xs ≠ [] → sep ∉ xs → P xs)
    (line : ∀ xs ys, sep ∉ xs → P ys → P (xs ++ sep :: ys)) (xs : List α) : P xs := by
  induction h : xs.length using Nat.strong_induction_on generalizing xs with
  | _ n ih =>
    by_cases hmem : sep ∈ xs
    · obtain ⟨as, bs, rfl, has⟩ := List.eq_append_cons_of_mem hmem
      have hlen : bs.length < n := by
        rw [← h, List.length_append, List.length_cons]
        omega
      exact line as bs has (ih bs.length hlen bs rfl)
    · by_cases hne : xs = []
      · rwa [hne]
      · exact last xs hne hmem

end Text
