import Riscv32Simulator.Library.Checked

/-! Lists laid out as one piece after another, and loops that walk over the pieces. -/

namespace Tiling
open Checked

universe u v

variable {α : Type*}

inductive Tiles (P : List α → Prop) : List α → Prop
  | nil : Tiles P []
  | cons {piece rest : List α} : P piece → Tiles P rest → Tiles P (piece ++ rest)

def PrefixFree (P : List α → Prop) : Prop :=
  ∀ ⦃a b : List α⦄, P a → P b → ∀ ⦃x y : List α⦄, a ++ x = b ++ y → a = b

def Begins (P : List α → Prop) (xs : List α) : Prop := ∃ piece rest, xs = piece ++ rest ∧ P piece

theorem Tiles.nil_or_begins {P : List α → Prop} {xs : List α} (h : Tiles P xs) :
    xs = [] ∨ Begins P xs := by
  cases h with
  | nil => exact .inl rfl
  | cons hp hrest => exact .inr ⟨_, _, rfl, hp⟩

theorem Tiles.single {P : List α → Prop} {piece : List α} (h : P piece) : Tiles P piece := by
  have hh := Tiles.cons h .nil
  rwa [List.append_nil] at hh

theorem Tiles.append {P : List α → Prop} {xs ys : List α} (hx : Tiles P xs) (hy : Tiles P ys) :
    Tiles P (xs ++ ys) := by
  induction hx with
  | nil => exact hy
  | cons hp _ ih =>
    rw [List.append_assoc]
    exact .cons hp ih

section PrefixFree

variable {P : List α → Prop} (hfree : PrefixFree P)
include hfree

theorem tiles_cons_iff {piece rest : List α} (hne : piece ≠ []) (hp : P piece) :
    Tiles P (piece ++ rest) ↔ Tiles P rest := by
  refine ⟨fun h => ?_, .cons hp⟩
  generalize hxs : piece ++ rest = xs at h
  cases h with
  | nil => exact absurd (List.append_eq_nil_iff.mp hxs).1 hne
  | cons hp' hrest =>
    obtain rfl := hfree hp hp' hxs
    rwa [List.append_cancel_left hxs]

theorem tiles_append_iff (hnil : ¬ P []) {xs ys : List α} (hx : Tiles P xs) :
    Tiles P (xs ++ ys) ↔ Tiles P ys := by
  induction hx with
  | nil => rfl
  | cons hp _ ih =>
    rw [List.append_assoc, tiles_cons_iff hfree (fun hc => hnil (hc ▸ hp)) hp, ih]

/-- A loop whose turns each take the next piece, or refuse where no piece begins, accepts exactly
what is tiled. `rest` is what lies ahead of the cursor. -/
theorem meets_loop_tiles {ε : Type u} {σ β : Type v} (hnil : ¬ P []) (rest : σ → List α)
    {I : σ → Prop} {Q : β → Prop} {body : σ → Except (Stop ε) (σ ⊕ β)}
    (h : ∀ s, I s → Meets
      (Sum.elim (fun t => I t ∧ ∃ piece, rest s = piece ++ rest t ∧ P piece)
        fun b => rest s = [] ∧ Q b)
      (fun _ => rest s ≠ [] ∧ ¬ Begins P (rest s)) (body s))
    {fuel : ℕ} {s : σ} (hs : I s) (hfuel : (rest s).length < fuel) :
    Meets (fun b => Tiles P (rest s) ∧ Q b) (fun _ => ¬ Tiles P (rest s)) (loop body fuel s) := by
  -- the pieces taken so far do not matter for the rest, as no piece begins another
  refine meets_loop (I := fun t => I t ∧ (Tiles P (rest t) ↔ Tiles P (rest s)))
    (fun t => (rest t).length) (fun t ht => ?_) ⟨hs, Iff.rfl⟩ hfuel
  refine (h t ht.1).mono (fun r hr => ?_) fun e he => ?_
  · cases r with
    | inl t' =>
      obtain ⟨ht', piece, hrest, hp⟩ := hr
      have hne : piece ≠ [] := fun hc => hnil (hc ▸ hp)
      have hpos : 0 < piece.length := List.length_pos_iff.mpr hne
      refine ⟨⟨ht', ?_⟩, ?_⟩
      · rw [← ht.2, hrest, tiles_cons_iff hfree hne hp]
      · rw [hrest, List.length_append]
        omega
    | inr b =>
      refine ⟨ht.2.mp ?_, hr.2⟩
      rw [hr.1]
      exact .nil
  · rw [← ht.2]
    exact fun hc => hc.nil_or_begins.elim he.1 he.2

end PrefixFree

end Tiling
