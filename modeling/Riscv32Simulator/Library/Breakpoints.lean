import Mathlib

/-! A function given by the points where its value changes: the last point at or before an argument
tells the value there, if that point opens a span and does not end one. -/

namespace Breakpoints

variable {α : Type*} (key : α → ℕ) (opens : α → Bool)

def lastAt (points : List α) (x : ℕ) : Option α := (points.filter (key · ≤ x)).getLast?

def valueAt (points : List α) (x : ℕ) : Option α := (lastAt key points x).filter opens

def spans : List α → List (α × ℕ)
  | a :: b :: rest =>
    if opens a ∧ key a < key b then (a, key b) :: spans (b :: rest) else spans (b :: rest)
  | _ => []

variable {key opens}

theorem lastAt_cons (a : α) (points : List α) (x : ℕ) : lastAt key (a :: points) x =
    (lastAt key points x).or (if key a ≤ x then some a else none) := by
  rw [lastAt, lastAt, List.filter_cons]
  by_cases ha : key a ≤ x
  · rw [if_pos (decide_eq_true ha), if_pos ha, List.getLast?_cons]
    cases (points.filter (key · ≤ x)).getLast? <;> rfl
  · rw [if_neg (by simpa using ha), if_neg ha, Option.or_none]

theorem lastAt_eq_none {points : List α} {x : ℕ} (h : ∀ a ∈ points, x < key a) :
    lastAt key points x = none := by
  rw [lastAt, List.filter_eq_nil_iff.mpr fun a ha => by simpa using h a ha]
  rfl

theorem spans_cons_closed {a : α} (ha : opens a = false) (points : List α) :
    spans key opens (a :: points) = spans key opens points := by
  cases points with
  | nil => rfl
  | cons b rest => rw [spans, if_neg (by simp [ha])]

theorem spans_bounds {points : List α} {s : α × ℕ} (hs : s ∈ spans key opens points) :
    opens s.1 = true ∧ key s.1 < s.2 ∧ s.1 ∈ points ∧ ∃ b ∈ points, s.2 = key b := by
  fun_induction spans key opens points with
  | case1 a b rest hab ih =>
    rcases List.mem_cons.mp hs with rfl | hs
    · exact ⟨hab.1, hab.2, by simp, b, by simp, rfl⟩
    · obtain ⟨h1, h2, h3, c, hc, h4⟩ := ih hs
      exact ⟨h1, h2, List.mem_cons_of_mem _ h3, c, List.mem_cons_of_mem _ hc, h4⟩
  | case2 a b rest hab ih =>
    obtain ⟨h1, h2, h3, c, hc, h4⟩ := ih hs
    exact ⟨h1, h2, List.mem_cons_of_mem _ h3, c, List.mem_cons_of_mem _ hc, h4⟩
  | case3 => simp at hs

theorem spans_disjoint {points : List α} (h : points.Pairwise fun a b => key a ≤ key b) :
    (spans key opens points).Pairwise fun s t => s.2 ≤ key t.1 := by
  fun_induction spans key opens points with
  | case1 a b rest hab ih =>
    obtain ⟨-, hrest⟩ := List.pairwise_cons.mp h
    refine .cons (fun s hs => ?_) (ih hrest)
    obtain ⟨-, -, hmem, -⟩ := spans_bounds hs
    rcases List.mem_cons.mp hmem with heq | hmem
    · exact heq ▸ le_rfl
    · exact (List.pairwise_cons.mp hrest).1 _ hmem
  | case2 a b rest hab ih => exact ih (List.pairwise_cons.mp h).2
  | case3 => exact .nil

theorem valueAt_eq_some_iff {points : List α} (h : points.Pairwise fun a b => key a ≤ key b)
    (hlast : ∀ a ∈ points.getLast?, opens a = false) (x : ℕ) (r : α) :
    valueAt key opens points x = some r ↔
      ∃ e, (r, e) ∈ spans key opens points ∧ key r ≤ x ∧ x < e := by
  induction points with
  | nil => simp [valueAt, lastAt, spans]
  | cons a points ih =>
    cases points with
    | nil =>
      have ha : opens a = false := hlast a rfl
      have hnone : valueAt key opens [a] x = none := by
        rw [valueAt, lastAt_cons]
        split_ifs <;> simp [lastAt, ha]
      have hspans : spans key opens [a] = [] := rfl
      rw [hnone, hspans]
      simp
    | cons b rest =>
      obtain ⟨hab, hrest⟩ := List.pairwise_cons.mp h
      have hle : key a ≤ key b := hab b List.mem_cons_self
      have hih := ih hrest hlast
      unfold valueAt at hih
      rw [valueAt, lastAt_cons, spans]
      by_cases hx : key b ≤ x
      · -- the span of `a` has ended, and a later point is in force
        obtain ⟨c, hc⟩ : ∃ c, lastAt key (b :: rest) x = some c := by
          rw [lastAt_cons, if_pos hx]
          cases lastAt key rest x <;> exact ⟨_, rfl⟩
        rw [hc] at hih
        rw [hc, Option.some_or, hih]
        split_ifs
        · constructor
          · rintro ⟨e, he, hr, hlt⟩
            exact ⟨e, List.mem_cons_of_mem _ he, hr, hlt⟩
          · rintro ⟨e, he, hr, hlt⟩
            rcases List.mem_cons.mp he with heq | he
            · obtain ⟨rfl, rfl⟩ := Prod.mk.inj heq
              omega
            · exact ⟨e, he, hr, hlt⟩
        · exact Iff.rfl
      · -- no later point counts, and `a` is in force when it opens a span
        have hnone : lastAt key (b :: rest) x = none := lastAt_eq_none fun c hc => by
          rcases List.mem_cons.mp hc with rfl | hc
          · omega
          · exact (not_le.mp hx).trans_le ((List.pairwise_cons.mp hrest).1 c hc)
        rw [hnone] at hih
        rw [hnone, Option.none_or]
        have hno : ∀ e, (r, e) ∈ spans key opens (b :: rest) → key r ≤ x → ¬ x < e :=
          fun e he hr hlt => by simpa using hih.mpr ⟨e, he, hr, hlt⟩
        by_cases ha : opens a = true ∧ key a ≤ x
        · obtain ⟨hopen, hax⟩ := ha
          rw [if_pos hax, if_pos ⟨hopen, by omega⟩]
          constructor
          · intro hr
            obtain ⟨rfl, -⟩ : a = r ∧ opens r = true := by simpa using hr
            exact ⟨key b, List.mem_cons_self, hax, by omega⟩
          · rintro ⟨e, he, hr, hlt⟩
            rcases List.mem_cons.mp he with heq | he
            · obtain ⟨rfl, rfl⟩ := Prod.mk.inj heq
              simp [hopen]
            · exact absurd hlt (hno e he hr)
        · refine iff_of_false (fun hr => ha ?_) ?_
          · split_ifs at hr with hax
            · obtain ⟨rfl, hopen⟩ : a = r ∧ opens r = true := by simpa using hr
              exact ⟨hopen, hax⟩
            · cases hr
          · rintro ⟨e, he, hr, hlt⟩
            split_ifs at he with hspan
            · rcases List.mem_cons.mp he with heq | he
              · obtain ⟨rfl, rfl⟩ := Prod.mk.inj heq
                exact ha ⟨hspan.1, hr⟩
              · exact hno e he hr hlt
            · exact hno e he hr hlt

end Breakpoints
