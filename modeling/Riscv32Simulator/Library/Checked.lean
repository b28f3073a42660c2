import Mathlib

/-! Computations that read buffers by checked index and loop with fuel: how they can stop, and the
rules of their postconditions. -/

namespace Checked

universe u v

/-- An access outside its buffer, a loop that used up its fuel, or an error that is reported. -/
inductive Stop (ε : Type u)
  | outside
  | outOfFuel
  | reported (e : ε)
deriving DecidableEq, Repr

variable {ε : Type u} {α β σ : Type v}

def readAt (buffer : List β) (i : ℕ) : Except (Stop ε) β :=
  match buffer[i]? with
  | some b => .ok b
  | none => .error .outside

def rejectIf (c : Prop) [Decidable c] (e : ε) : Except (Stop ε) PUnit :=
  if c then .error (.reported e) else .ok ⟨⟩

def loop (body : σ → Except (Stop ε) (σ ⊕ α)) : ℕ → σ → Except (Stop ε) α
  | 0, _ => .error .outOfFuel
  | fuel + 1, s =>
    match body s with
    | .ok (.inl s) => loop body fuel s
    | .ok (.inr a) => .ok a
    | .error e => .error e

/-- A result is as `Q` says, a reported error as `E` says, and nothing else happens. -/
def Meets (Q : α → Prop) (E : ε → Prop) : Except (Stop ε) α → Prop
  | .ok a => Q a
  | .error (.reported e) => E e
  | .error _ => False

theorem Meets.ok_or_reported {Q : α → Prop} {E : ε → Prop} {x : Except (Stop ε) α}
    (h : Meets Q E x) : (∃ a, x = .ok a ∧ Q a) ∨ ∃ e, x = .error (.reported e) ∧ E e := by
  cases x with
  | ok a => exact .inl ⟨a, rfl, h⟩
  | error s =>
    cases s with
    | reported e => exact .inr ⟨e, rfl, h⟩
    | outside => exact absurd h id
    | outOfFuel => exact absurd h id

theorem Meets.of_ok {Q : α → Prop} {E : ε → Prop} {x : Except (Stop ε) α} (h : Meets Q E x) {a : α}
    (ha : x = .ok a) : Q a := by
  subst ha
  exact h

/-! ## Rules -/

section Rules

variable {Q : α → Prop} {E : ε → Prop}

theorem meets_pure {a : α} (h : Q a) : Meets Q E (pure a) := h

theorem meets_reported {e : ε} (h : E e) : Meets Q E (.error (.reported e)) := h

theorem Meets.mono {P : α → Prop} {F : ε → Prop} {x : Except (Stop ε) α} (h : Meets P F x)
    (hQ : ∀ a, P a → Q a) (hE : ∀ e, F e → E e) : Meets Q E x := by
  cases x with
  | ok a => exact hQ a h
  | error s =>
    cases s with
    | reported e => exact hE e h
    | outside => exact h
    | outOfFuel => exact h

theorem Meets.imp {P : α → Prop} {x : Except (Stop ε) α} (h : Meets P E x)
    (hQ : ∀ a, P a → Q a) : Meets Q E x := h.mono hQ fun _ => id

theorem Meets.bind {P : α → Prop} {R : β → Prop} {x : Except (Stop ε) α}
    {f : α → Except (Stop ε) β} (h : Meets P E x) (hf : ∀ a, P a → Meets R E (f a)) :
    Meets R E (x >>= f) := by
  cases x with
  | ok a => exact hf a h
  | error s =>
    cases s with
    | reported e => exact h
    | outside => exact h
    | outOfFuel => exact h

theorem meets_ite {c : Prop} [Decidable c] {x y : Except (Stop ε) α}
    (hx : c → Meets Q E x) (hy : ¬ c → Meets Q E y) : Meets Q E (if c then x else y) := by
  split_ifs with h
  · exact hx h
  · exact hy h

theorem meets_readAt {buffer : List β} {i : ℕ} (h : i < buffer.length) (d : β) :
    Meets (· = buffer.getD i d) E (readAt buffer i) := by
  rw [readAt, List.getD_eq_getElem?_getD, List.getElem?_eq_getElem h]
  exact rfl

theorem meets_rejectIf {c : Prop} [Decidable c] {e : ε} (h : c → E e) :
    Meets (fun _ => ¬ c) E (rejectIf c e) := by
  unfold rejectIf
  split_ifs with hc
  · exact h hc
  · exact hc

theorem meets_foldlM_range {I : ℕ → σ → Prop} {body : σ → ℕ → Except (Stop ε) σ} {n : ℕ}
    (h : ∀ i < n, ∀ s, I i s → Meets (I (i + 1)) E (body s i)) {s : σ} (h0 : I 0 s) :
    Meets (I n) E ((List.range n).foldlM body s) := by
  induction n with
  | zero => exact h0
  | succ n ih =>
    rw [List.range_succ, List.foldlM_append]
    refine (ih fun i hi => h i (Nat.lt_succ_of_lt hi)).bind fun t ht => ?_
    refine (h n (Nat.lt_succ_self n) t ht).bind fun u hu => ?_
    exact meets_pure hu

/-- A loop whose turns keep an invariant and lower a variant ends, with what its last turn gives. -/
theorem meets_loop {I : σ → Prop} {body : σ → Except (Stop ε) (σ ⊕ α)} (variant : σ → ℕ)
    (h : ∀ s, I s → Meets (Sum.elim (fun t => I t ∧ variant t < variant s) Q) E (body s))
    {fuel : ℕ} {s : σ} (hs : I s) (hfuel : variant s < fuel) : Meets Q E (loop body fuel s) := by
  induction fuel generalizing s with
  | zero => omega
  | succ fuel ih =>
    have hb := h s hs
    rw [loop]
    cases hr : body s with
    | ok r =>
      rw [hr] at hb
      cases r with
      | inl t => exact ih hb.1 (by have := hb.2; omega)
      | inr a => exact hb
    | error e =>
      rw [hr] at hb
      cases e with
      | reported e => exact hb
      | outside => exact hb
      | outOfFuel => exact hb

def Continues (body : σ → Except (Stop ε) (σ ⊕ α)) (s t : σ) : Prop := body s = .ok (.inl t)

theorem invariant_of_reached {I : σ → Prop} {body : σ → Except (Stop ε) (σ ⊕ α)}
    (h : ∀ s, I s → Meets (Sum.elim I Q) E (body s)) {s t : σ} (hs : I s)
    (hreach : Relation.ReflTransGen (Continues body) s t) : I t := by
  induction hreach with
  | refl => exact hs
  | tail _ hturn ih => exact (h _ ih).of_ok hturn

end Rules

end Checked
