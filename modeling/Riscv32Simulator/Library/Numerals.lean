import Mathlib

/-! Numbers written in decimal or hexadecimal, as lists of ASCII codes. -/

namespace Numerals

def isDecimal (c : ℕ) : Bool := 0x30 ≤ c && c ≤ 0x39

def isHex (c : ℕ) : Bool := isDecimal c || (0x41 ≤ c && c ≤ 0x46) || (0x61 ≤ c && c ≤ 0x66)

def digit (c : ℕ) : ℕ :=
  if c ≤ 0x39 then c - 0x30 else if c ≤ 0x46 then c - 0x41 + 10 else c - 0x61 + 10

def value (base : ℕ) (cs : List ℕ) : ℕ := cs.foldl (fun v c => base * v + digit c) 0

/-- Decimal digits, or `0x` or `0X` and hexadecimal digits, and the number written by them. -/
inductive Numeral : List ℕ → ℕ → Prop
  | decimal {cs : List ℕ} : cs ≠ [] → (∀ c ∈ cs, isDecimal c = true) → Numeral cs (value 10 cs)
  | hex {x : ℕ} {cs : List ℕ} : x = 0x78 ∨ x = 0x58 → cs ≠ [] → (∀ c ∈ cs, isHex c = true) →
      Numeral (0x30 :: x :: cs) (value 16 cs)

theorem isHex_of_isDecimal {c : ℕ} (h : isDecimal c = true) : isHex c = true := by
  rw [isHex, h, Bool.true_or, Bool.true_or]

theorem isHex_base {x : ℕ} (h : x = 0x78 ∨ x = 0x58) : isHex x = false := by
  rcases h with rfl | rfl <;> decide

theorem Numeral.unique {cs : List ℕ} {v w : ℕ} (h : Numeral cs v) (h' : Numeral cs w) : v = w := by
  cases h with
  | decimal _ hd =>
    cases h' with
    | decimal => rfl
    | @hex x cs hx _ _ =>
      have hdx := isHex_of_isDecimal (hd x (by simp))
      rw [isHex_base hx] at hdx
      cases hdx
  | @hex x cs hx _ _ =>
    cases h' with
    | decimal _ hd =>
      have hdx := isHex_of_isDecimal (hd x (by simp))
      rw [isHex_base hx] at hdx
      cases hdx
    | hex => rfl

theorem isHex_ascii {c : ℕ} (h : isHex c = true) : c < 128 := by
  simp only [isHex, isDecimal, Bool.or_eq_true, Bool.and_eq_true, decide_eq_true_eq] at h
  omega

theorem Numeral.ascii {cs : List ℕ} {v : ℕ} (h : Numeral cs v) : ∀ c ∈ cs, c < 128 := by
  cases h with
  | decimal _ hd => exact fun c hc => isHex_ascii (isHex_of_isDecimal (hd c hc))
  | @hex x cs hx _ hh =>
    rw [List.forall_mem_cons, List.forall_mem_cons]
    exact ⟨by omega, by omega, fun c hc => isHex_ascii (hh c hc)⟩

theorem Numeral.getLast? {cs : List ℕ} {v : ℕ} (h : Numeral cs v) :
    ∃ c ∈ cs.getLast?, isHex c = true := by
  cases h with
  | decimal hne hd =>
    refine ⟨cs.getLast hne, by rw [List.getLast?_eq_some_getLast hne]; rfl, ?_⟩
    exact isHex_of_isDecimal (hd _ (List.getLast_mem hne))
  | @hex x cs hx hne hh =>
    refine ⟨cs.getLast hne, ?_, hh _ (List.getLast_mem hne)⟩
    rw [List.getLast?_cons_cons, List.getLast?_cons_of_ne_nil hne, List.getLast?_eq_some_getLast hne]
    rfl

/-! ## Printing -/

def digits (base n : ℕ) : List ℕ := (Nat.toDigits base n).map fun c => c.toUpper.toNat

theorem digits_eq {base : ℕ} (h : 1 < base) (n : ℕ) : digits base n =
    (if n < base then [] else digits base (n / base)) ++ [(n % base).digitChar.toUpper.toNat] := by
  unfold digits
  rw [Nat.toDigits_eq_if h]
  split_ifs with hn
  · rw [Nat.mod_eq_of_lt hn]
    rfl
  · exact List.map_append

theorem digits_ne_nil (base n : ℕ) : digits base n ≠ [] := by
  rw [digits, ne_eq, List.map_eq_nil_iff]
  exact Nat.toDigits_ne_nil

theorem length_digits_le {base k n : ℕ} (h : 1 < base) (hk : 0 < k) (hn : n < base ^ k) :
    (digits base n).length ≤ k := by
  rw [digits, List.length_map]
  exact (Nat.length_toDigits_le_iff h hk).mpr hn

theorem forall_mem_digits {base : ℕ} {p : ℕ → Prop} (h : 1 < base)
    (hp : ∀ d < base, p d.digitChar.toUpper.toNat) (n : ℕ) : ∀ c ∈ digits base n, p c := by
  induction n using Nat.strong_induction_on with
  | _ n ih =>
    have hlast := hp (n % base) (Nat.mod_lt n (by omega))
    rw [digits_eq h]
    split_ifs with hn
    · simpa using hlast
    · have hlt : n / base < n := Nat.div_lt_self (by omega) h
      rw [List.forall_mem_append]
      exact ⟨ih _ hlt, by simpa using hlast⟩

theorem value_append (base : ℕ) (cs : List ℕ) (c : ℕ) :
    value base (cs ++ [c]) = base * value base cs + digit c := List.foldl_append

theorem digit_digitChar : ∀ d < 16, digit d.digitChar.toUpper.toNat = d := by
  decide

theorem value_digits {base : ℕ} (h : 1 < base) (hle : base ≤ 16) (n : ℕ) :
    value base (digits base n) = n := by
  induction n using Nat.strong_induction_on with
  | _ n ih =>
    have hmod : n % base < base := Nat.mod_lt n (by omega)
    have hdigit := digit_digitChar (n % base) (by omega)
    rw [digits_eq h, value_append, hdigit]
    split_ifs with hn
    · exact (Nat.zero_add _).trans (Nat.mod_eq_of_lt hn)
    · rw [ih _ (Nat.div_lt_self (by omega) h), Nat.div_add_mod]

theorem isDecimal_digits (n : ℕ) : ∀ c ∈ digits 10 n, isDecimal c = true :=
  forall_mem_digits (by decide) (by decide) n

theorem isHex_digits (n : ℕ) : ∀ c ∈ digits 16 n, isHex c = true :=
  forall_mem_digits (by decide) (by decide) n

theorem value_zeros (base k : ℕ) (cs : List ℕ) :
    value base (List.replicate k 0x30 ++ cs) = value base cs := by
  induction k with
  | zero => rfl
  | succ k ih => exact ih

end Numerals
