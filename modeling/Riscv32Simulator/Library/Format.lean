import Riscv32Simulator.Library.Numerals
import Riscv32Simulator.Library.Text

/-! Formatted printing of numbers, and scanning a text along the same format. -/

namespace Format
open Numerals

abbrev Bytes := List (BitVec 8)

def ascii (s : String) : Bytes := s.toList.map fun c => BitVec.ofNat 8 c.toNat

/-- Literal text, a signed decimal number, or upper-case hexadecimal digits padded with zeros. -/
inductive Directive
  | text (s : Bytes)
  | decimal
  | hex (width : ℕ)
deriving DecidableEq

def unsigned (base n : ℕ) : Bytes := (digits base n).map (BitVec.ofNat 8)

def decimal (v : ℤ) : Bytes :=
  if v < 0 then 0x2D#8 :: unsigned 10 v.natAbs else unsigned 10 v.natAbs

def hex (width n : ℕ) : Bytes :=
  List.replicate (width - (unsigned 16 n).length) 0x30#8 ++ unsigned 16 n

def print : List Directive → List ℤ → Bytes
  | .text s :: fs, vs => s ++ print fs vs
  | .decimal :: fs, v :: vs => decimal v ++ print fs vs
  | .hex width :: fs, v :: vs => hex width v.toNat ++ print fs vs
  | _, _ => []

def leftJustified (width : ℕ) (text : Bytes) : Bytes :=
  text ++ List.replicate (width - text.length) 0x20#8

def rightJustified (width : ℕ) (text : Bytes) : Bytes :=
  List.replicate (width - text.length) 0x20#8 ++ text

def scanUnsigned (p : ℕ → Bool) (base : ℕ) (t : Bytes) : Option (ℕ × Bytes) :=
  let ds := t.takeWhile fun c => p c.toNat
  if ds = [] then none
  else some (value base (ds.map BitVec.toNat), t.dropWhile fun c => p c.toNat)

def scanDecimal (t : Bytes) : Option (ℤ × Bytes) :=
  if t.head? = some 0x2D#8 then
    match scanUnsigned isDecimal 10 (t.drop 1) with
    | none => none
    | some (n, t) => some (-(n : ℤ), t)
  else
    match scanUnsigned isDecimal 10 t with
    | none => none
    | some (n, t) => some ((n : ℤ), t)

def scan : List Directive → Bytes → Option (List ℤ)
  | [], t => if t = [] then some [] else none
  | .text s :: fs, t => if s <+: t then scan fs (t.drop s.length) else none
  | .decimal :: fs, t =>
    match scanDecimal t with
    | none => none
    | some (v, t) => (scan fs t).map (v :: ·)
  | .hex _ :: fs, t =>
    match scanUnsigned isHex 16 t with
    | none => none
    | some (n, t) => (scan fs t).map ((n : ℤ) :: ·)

/-! ## Formats and their arguments -/

def endsNumber : List Directive → Bool
  | [] => true
  | .text (c :: _) :: _ => !isHex c.toNat
  | _ => false

def separated : List Directive → Bool
  | [] => true
  | .text _ :: fs => separated fs
  | .decimal :: fs | .hex _ :: fs => endsNumber fs && separated fs

inductive Takes : List Directive → List ℤ → Prop
  | nil : Takes [] []
  | text (s : Bytes) {fs vs} : Takes fs vs → Takes (.text s :: fs) vs
  | decimal (v : ℤ) {fs vs} : Takes fs vs → Takes (.decimal :: fs) (v :: vs)
  | hex (width n : ℕ) {fs vs} : Takes fs vs → Takes (.hex width :: fs) ((n : ℤ) :: vs)

/-! ## Scanning what was printed -/

theorem toNat_ofNat_of_isHex {c : ℕ} (h : isHex c = true) : (BitVec.ofNat 8 c).toNat = c := by
  have hlt := isHex_ascii h
  rw [BitVec.toNat_ofNat]
  omega

theorem map_toNat_ofNat {cs : List ℕ} (h : ∀ c ∈ cs, isHex c = true) :
    (cs.map (BitVec.ofNat 8)).map BitVec.toNat = cs := by
  rw [List.map_map]
  calc cs.map (BitVec.toNat ∘ BitVec.ofNat 8) = cs.map id :=
        List.map_congr_left fun c hc => toNat_ofNat_of_isHex (h c hc)
    _ = cs := List.map_id cs

theorem scanUnsigned_append {p : ℕ → Bool} {base : ℕ} {cs : List ℕ} {t : Bytes} (hne : cs ≠ [])
    (hp : ∀ c ∈ cs, p c = true) (hhex : ∀ c ∈ cs, isHex c = true)
    (ht : ∀ c ∈ t.head?, p c.toNat = false) :
    scanUnsigned p base (cs.map (BitVec.ofNat 8) ++ t) = some (value base cs, t) := by
  have hall : ∀ c ∈ cs.map (BitVec.ofNat 8), p c.toNat = true := by
    rw [List.forall_mem_map]
    intro c hc
    rw [toNat_ofNat_of_isHex (hhex c hc)]
    exact hp c hc
  have hne' : cs.map (BitVec.ofNat 8) ≠ [] := by simpa using hne
  obtain ⟨htake, hdrop⟩ := Text.takeWhile_append hall ht
  unfold scanUnsigned
  dsimp only
  rw [htake, hdrop, if_neg hne', map_toNat_ofNat hhex]

theorem head?_print {fs : List Directive} (h : endsNumber fs = true) (vs : List ℤ) :
    ∀ c ∈ (print fs vs).head?, isHex c.toNat = false := by
  cases fs with
  | nil => simp [print]
  | cons f fs =>
    cases f with
    | text s =>
      cases s with
      | nil => cases h
      | cons c s => simpa [print, endsNumber] using h
    | decimal => cases h
    | hex width => cases h

theorem isDecimal_of_not_isHex {c : ℕ} (h : isHex c = false) : isDecimal c = false := by
  cases hd : isDecimal c with
  | false => rfl
  | true => rw [isHex_of_isDecimal hd] at h; cases h

theorem hex_eq (width n : ℕ) : hex width n =
    (List.replicate (width - (unsigned 16 n).length) 0x30 ++ digits 16 n).map (BitVec.ofNat 8) := by
  rw [List.map_append, List.map_replicate]
  rfl

theorem head?_unsigned_append (n : ℕ) (t : Bytes) : (unsigned 10 n ++ t).head? ≠ some 0x2D#8 := by
  have hdec := isDecimal_digits n
  cases hcs : digits 10 n with
  | nil => exact absurd hcs (digits_ne_nil 10 n)
  | cons c cs =>
    rw [hcs] at hdec
    have hc := hdec c (List.mem_cons_self ..)
    rw [unsigned, hcs, List.map_cons, List.cons_append, List.head?_cons, ne_eq, Option.some.injEq]
    intro heq
    have hcode := congrArg BitVec.toNat heq
    rw [toNat_ofNat_of_isHex (isHex_of_isDecimal hc)] at hcode
    subst hcode
    cases hc

theorem scanUnsigned_unsigned (n : ℕ) {t : Bytes} (ht : ∀ c ∈ t.head?, isDecimal c.toNat = false) :
    scanUnsigned isDecimal 10 (unsigned 10 n ++ t) = some (n, t) := by
  have hd := isDecimal_digits n
  have hx : ∀ c ∈ digits 10 n, isHex c = true := fun c hc => isHex_of_isDecimal (hd c hc)
  rw [unsigned, scanUnsigned_append (digits_ne_nil 10 n) hd hx ht,
    value_digits (by decide) (by decide)]

theorem scanDecimal_decimal (v : ℤ) {t : Bytes} (ht : ∀ c ∈ t.head?, isDecimal c.toNat = false) :
    scanDecimal (decimal v ++ t) = some (v, t) := by
  have hscan := scanUnsigned_unsigned v.natAbs ht
  unfold scanDecimal decimal
  by_cases hneg : v < 0
  · rw [if_pos hneg, List.cons_append, List.head?_cons, if_pos rfl, List.drop_one, List.tail_cons,
      hscan]
    dsimp only
    rw [Int.natCast_natAbs, abs_of_neg hneg, neg_neg]
  · rw [if_neg hneg, if_neg (head?_unsigned_append v.natAbs t), hscan]
    dsimp only
    rw [Int.natCast_natAbs, abs_of_nonneg (by omega)]

theorem scanUnsigned_hex (width n : ℕ) {t : Bytes} (ht : ∀ c ∈ t.head?, isHex c.toNat = false) :
    scanUnsigned isHex 16 (hex width n ++ t) = some (n, t) := by
  have hzeros : ∀ c ∈ List.replicate (width - (unsigned 16 n).length) 0x30, isHex c = true := by
    intro c hc
    rw [List.eq_of_mem_replicate hc]
    rfl
  have hall := List.forall_mem_append.mpr ⟨hzeros, isHex_digits n⟩
  have hne : List.replicate (width - (unsigned 16 n).length) 0x30 ++ digits 16 n ≠ [] :=
    List.append_ne_nil_of_right_ne_nil _ (digits_ne_nil 16 n)
  rw [hex_eq, scanUnsigned_append hne hall hall ht, value_zeros, value_digits (by decide) (by decide)]

/-- Scanning a printed text along its format gives the arguments back. -/
theorem scan_print {fs : List Directive} {vs : List ℤ} (h : Takes fs vs)
    (hs : separated fs = true) : scan fs (print fs vs) = some vs := by
  induction h with
  | nil => rfl
  | @text s fs vs _ ih =>
    rw [print, scan, if_pos (List.prefix_append s _), List.drop_left]
    exact ih hs
  | @decimal v fs vs _ ih =>
    obtain ⟨hends, hsep⟩ := Bool.and_eq_true_iff.mp hs
    have hhead : ∀ c ∈ (print fs vs).head?, isDecimal c.toNat = false :=
      fun c hc => isDecimal_of_not_isHex (head?_print hends vs c hc)
    rw [print, scan, scanDecimal_decimal v hhead]
    dsimp only
    rw [ih hsep, Option.map_some]
  | @hex width n fs vs _ ih =>
    obtain ⟨hends, hsep⟩ := Bool.and_eq_true_iff.mp hs
    rw [print, scan, Int.toNat_natCast, scanUnsigned_hex width n (head?_print hends vs)]
    dsimp only
    rw [ih hsep, Option.map_some]

/-! ## Lengths of printed numbers of 32 bits -/

def Directive.room : Directive → ℕ
  | .text s => s.length
  | .decimal => 11
  | .hex width => max width 8

theorem length_unsigned_le {base k n : ℕ} (h : 1 < base) (hk : 0 < k) (hn : n < base ^ k) :
    (unsigned base n).length ≤ k := by
  rw [unsigned, List.length_map]
  exact length_digits_le h hk hn

theorem length_decimal_le {v : ℤ} (h : v.natAbs < 2 ^ 32) : (decimal v).length ≤ 11 := by
  have hlen : (unsigned 10 v.natAbs).length ≤ 10 :=
    length_unsigned_le (by decide) (by decide) (h.trans (by decide))
  unfold decimal
  split_ifs
  · rw [List.length_cons]
    omega
  · omega

theorem length_hex_le (width : ℕ) {n : ℕ} (h : n < 2 ^ 32) : (hex width n).length ≤ max width 8 := by
  have hlen : (unsigned 16 n).length ≤ 8 := length_unsigned_le (by decide) (by decide) h
  rw [hex, List.length_append, List.length_replicate]
  omega

theorem length_print_le {fs : List Directive} {vs : List ℤ} (h : ∀ v ∈ vs, v.natAbs < 2 ^ 32) :
    (print fs vs).length ≤ (fs.map Directive.room).sum := by
  induction fs generalizing vs with
  | nil => simp [print]
  | cons f fs ih =>
    rw [List.map_cons, List.sum_cons]
    cases f with
    | text s =>
      rw [print, List.length_append]
      exact Nat.add_le_add_left (ih h) _
    | decimal =>
      cases vs with
      | nil => simp [print]
      | cons v vs =>
        obtain ⟨hv, hvs⟩ := List.forall_mem_cons.mp h
        rw [print, List.length_append]
        exact Nat.add_le_add (length_decimal_le hv) (ih hvs)
    | hex width =>
      cases vs with
      | nil => simp [print]
      | cons v vs =>
        obtain ⟨hv, hvs⟩ := List.forall_mem_cons.mp h
        rw [print, List.length_append]
        exact Nat.add_le_add (length_hex_le width (by omega)) (ih hvs)

end Format
