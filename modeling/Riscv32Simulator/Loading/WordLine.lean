import Riscv32Simulator.Library.Text
import Riscv32Simulator.Source.Words

/-! One line of a word file: its grammar, and `read_words` on it. -/

namespace Riscv32
open Text

def hexDigit (c : BitVec 8) : ℕ :=
  if c.toNat ≤ 0x39 then c.toNat - 0x30
  else if c.toNat ≤ 0x46 then c.toNat - 0x41 + 10
  else c.toNat - 0x61 + 10

def hexValue (digits : List (BitVec 8)) : ℕ := digits.foldl (fun v c => 16 * v + hexDigit c) 0

inductive LineMeaning : List (BitVec 8) → Option (BitVec 32) → Prop
  | blank {spaces : List (BitVec 8)} : (∀ c ∈ spaces, isspace c = true) → LineMeaning spaces none
  | comment {spaces text : List (BitVec 8)} : (∀ c ∈ spaces, isspace c = true) →
      LineMeaning (spaces ++ 0x23#8 :: text) none
  | word {spaces base digits trail tail : List (BitVec 8)} : (∀ c ∈ spaces, isspace c = true) →
      base = [] ∨ base = [0x30#8, 0x78#8] ∨ base = [0x30#8, 0x58#8] →
      (∀ c ∈ digits, isxdigit c = true) → 1 ≤ digits.length → digits.length ≤ 8 →
      (∀ c ∈ trail, isspace c = true) → tail = [] ∨ tail.head? = some 0x23#8 →
      LineMeaning (spaces ++ (base ++ (digits ++ (trail ++ tail))))
        (some (BitVec.ofNat 32 (hexValue digits)))

/-! ## Digits -/

theorem digitValue_eq : ∀ c : BitVec 8, isxdigit c = true →
    digitValue c = BitVec.ofNat 32 (hexDigit c) ∧ hexDigit c < 16 := by
  decide

theorem isxdigit_not_special : ∀ c : BitVec 8, isxdigit c = true →
    isspace c = false ∧ c ≠ 0x23#8 ∧ c ≠ 0x00#8 ∧ c ≠ 0x78#8 ∧ c ≠ 0x58#8 := by
  decide

def shiftIn (word : BitVec 32) (c : BitVec 8) : BitVec 32 := word <<< 4 ||| digitValue c

theorem shiftIn_ofNat {v : ℕ} (hv : v < 16 ^ 7) {c : BitVec 8} (hc : isxdigit c = true) :
    shiftIn (BitVec.ofNat 32 v) c = BitVec.ofNat 32 (16 * v + hexDigit c) := by
  obtain ⟨hd, hlt⟩ := digitValue_eq c hc
  have hor := Nat.shiftLeft_add_eq_or_of_lt (i := 4) hlt v
  rw [Nat.shiftLeft_eq] at hor
  apply BitVec.eq_of_toNat_eq
  rw [shiftIn, hd, BitVec.toNat_or, BitVec.toNat_shiftLeft, BitVec.toNat_ofNat, BitVec.toNat_ofNat,
    BitVec.toNat_ofNat, Nat.mod_eq_of_lt (by omega : v < 2 ^ 32),
    Nat.mod_eq_of_lt (by omega : hexDigit c < 2 ^ 32), Nat.shiftLeft_eq,
    Nat.mod_eq_of_lt (by omega), ← hor]
  omega

theorem foldl_shiftIn {digits : List (BitVec 8)} (h : ∀ c ∈ digits, isxdigit c = true) {k v : ℕ}
    (hv : v < 16 ^ k) (hk : k + digits.length ≤ 8) :
    digits.foldl shiftIn (BitVec.ofNat 32 v) =
      BitVec.ofNat 32 (digits.foldl (fun v c => 16 * v + hexDigit c) v) := by
  induction digits generalizing k v with
  | nil => rfl
  | cons c digits ih =>
    rw [List.length_cons] at hk
    have hc := h c (List.mem_cons_self ..)
    have hlt := (digitValue_eq c hc).2
    have hpow : 16 ^ k ≤ 16 ^ 7 := Nat.pow_le_pow_right (by decide) (by omega)
    rw [List.foldl_cons, List.foldl_cons, shiftIn_ofNat (by omega) hc]
    refine ih (fun d hd => h d (List.mem_cons_of_mem _ hd)) (k := k + 1) ?_ (by omega)
    rw [pow_succ]
    omega

theorem readDigits_eq (p : List (BitVec 8)) (word : BitVec 32) {n : ℕ} (hn : n ≤ 8) :
    readDigits p word n =
      if n + (p.takeWhile isxdigit).length ≤ 8 then
        .ok ((p.takeWhile isxdigit).foldl shiftIn word, n + (p.takeWhile isxdigit).length,
          p.dropWhile isxdigit)
      else .error "word exceeds 32 bits" := by
  induction p generalizing word n with
  | nil => simp [readDigits, hn]
  | cons c p ih =>
    rw [readDigits]
    cases hc : isxdigit c with
    | false => simp [hc, hn]
    | true =>
      simp only [List.takeWhile_cons_of_pos hc, List.dropWhile_cons_of_pos hc, List.length_cons,
        List.foldl_cons, if_true]
      by_cases hlt : n + 1 > 8
      · rw [if_pos hlt, if_neg (by omega)]
      · rw [if_neg hlt, ih _ (by omega)]
        simp only [Nat.add_assoc, Nat.add_comm 1]
        rfl

/-! ## Lines -/

theorem head?_of_firstChar {f : BitVec 8 → Bool} {p : List (BitVec 8)} {b : Bool}
    (h : f (firstChar p) = b) : ∀ y ∈ p.head?, f y = b := by
  cases p with
  | nil => nofun
  | cons c p =>
    intro y hy
    obtain rfl := Option.some.inj hy
    exact h

theorem skipSpace_append {spaces p : List (BitVec 8)} (hs : ∀ c ∈ spaces, isspace c = true)
    (h : isspace (firstChar p) = false) : skipSpace (spaces ++ p) = p :=
  (takeWhile_append hs (head?_of_firstChar h)).2

theorem isxdigit_of_stop : ∀ c : BitVec 8, isspace c = true ∨ c = 0x00#8 ∨ c = 0x23#8 →
    isxdigit c = false ∧ c ≠ 0x78#8 ∧ c ≠ 0x58#8 := by
  decide

theorem firstChar_stop {trail tail : List (BitVec 8)} (ht : ∀ c ∈ trail, isspace c = true)
    (hl : tail = [] ∨ tail.head? = some 0x23#8) :
    isspace (firstChar (trail ++ tail)) = true ∨ firstChar (trail ++ tail) = 0x00#8 ∨
      firstChar (trail ++ tail) = 0x23#8 := by
  cases trail with
  | cons c trail => exact .inl (ht c (List.mem_cons_self ..))
  | nil =>
    rcases hl with rfl | hl
    · exact .inr (.inl rfl)
    · obtain ⟨text, rfl⟩ := List.head?_eq_some_iff.mp hl
      exact .inr (.inr rfl)

theorem skipPrefix_digits {digits rest : List (BitVec 8)}
    (hd : ∀ c ∈ digits, isxdigit c = true) (hne : digits ≠ [])
    (hr : firstChar rest ≠ 0x78#8 ∧ firstChar rest ≠ 0x58#8) :
    skipPrefix (digits ++ rest) = digits ++ rest := by
  obtain ⟨d, ds, rfl⟩ := List.exists_cons_of_ne_nil hne
  have hsecond : firstChar (ds ++ rest) ≠ 0x78#8 ∧ firstChar (ds ++ rest) ≠ 0x58#8 := by
    cases ds with
    | nil => exact hr
    | cons c ds => exact (isxdigit_not_special c (hd c (by simp))).2.2.2
  refine if_neg fun h => ?_
  rcases h.2 with h2 | h2
  · exact hsecond.1 h2
  · exact hsecond.2 h2

theorem basePrefix_read {base digits rest : List (BitVec 8)}
    (hbase : base = [] ∨ base = [0x30#8, 0x78#8] ∨ base = [0x30#8, 0x58#8])
    (hd : ∀ c ∈ digits, isxdigit c = true) (hne : digits ≠ [])
    (hr : firstChar rest ≠ 0x78#8 ∧ firstChar rest ≠ 0x58#8) :
    (isspace (firstChar (base ++ (digits ++ rest))) = false ∧
      firstChar (base ++ (digits ++ rest)) ≠ 0x23#8 ∧
      firstChar (base ++ (digits ++ rest)) ≠ 0x00#8) ∧
    skipPrefix (base ++ (digits ++ rest)) = digits ++ rest := by
  have hzero := isxdigit_not_special 0x30#8 rfl
  rcases hbase with rfl | rfl | rfl
  · have hprefix := skipPrefix_digits hd hne hr
    obtain ⟨d, ds, rfl⟩ := List.exists_cons_of_ne_nil hne
    have hc := isxdigit_not_special d (hd d (by simp))
    exact ⟨⟨hc.1, hc.2.1, hc.2.2.1⟩, hprefix⟩
  · exact ⟨⟨hzero.1, hzero.2.1, hzero.2.2.1⟩, if_pos ⟨rfl, .inl rfl⟩⟩
  · exact ⟨⟨hzero.1, hzero.2.1, hzero.2.2.1⟩, if_pos ⟨rfl, .inr rfl⟩⟩

theorem endWord_of_tail {trail tail : List (BitVec 8)} {n : ℕ} (hn : 1 ≤ n)
    (ht : ∀ c ∈ trail, isspace c = true) (hl : tail = [] ∨ tail.head? = some 0x23#8)
    (word : BitVec 32) : endWord word n (trail ++ tail) = .ok (some word) := by
  rw [endWord, if_neg (by omega)]
  rcases hl with rfl | hl
  · rw [skipSpace_append ht rfl]
    exact if_neg fun hc => hc.1 rfl
  · obtain ⟨text, rfl⟩ := List.head?_eq_some_iff.mp hl
    rw [skipSpace_append ht rfl]
    exact if_neg fun hc => hc.2 rfl

theorem readWord_of_meaning {line : List (BitVec 8)} {m : Option (BitVec 32)}
    (h : LineMeaning line m) : readWord line = .ok m := by
  cases h with
  | blank hs =>
    have hskip : skipSpace line = [] := by
      have hh := skipSpace_append hs (p := []) rfl
      rwa [List.append_nil] at hh
    rw [readWord, hskip]
    rfl
  | comment hs =>
    rw [readWord, skipSpace_append hs rfl]
    rfl
  | @word spaces base digits trail tail hs hbase hd hpos hlen ht hl =>
    have hstop := firstChar_stop ht hl
    obtain ⟨hnodigit, hnox⟩ := isxdigit_of_stop _ hstop
    have hne : digits ≠ [] := List.ne_nil_of_length_pos hpos
    obtain ⟨hfirst, hprefix⟩ := basePrefix_read hbase hd hne hnox
    have hspan := takeWhile_append hd (head?_of_firstChar hnodigit)
    rw [readWord, skipSpace_append hs hfirst.1]
    have hbody : ¬ (firstChar (base ++ (digits ++ (trail ++ tail))) = 0x23#8 ∨
        firstChar (base ++ (digits ++ (trail ++ tail))) = 0x00#8) :=
      not_or.mpr ⟨hfirst.2.1, hfirst.2.2⟩
    have hvalue : digits.foldl shiftIn (BitVec.ofNat 32 0) = BitVec.ofNat 32 (hexValue digits) :=
      foldl_shiftIn hd (k := 0) (by decide) (by omega)
    simp only [if_neg hbody, hprefix, readDigits_eq _ _ (Nat.zero_le 8), hspan.1, hspan.2,
      Nat.zero_add, if_pos hlen]
    exact (endWord_of_tail hpos ht hl _).trans (congrArg (fun w => Except.ok (some w)) hvalue)

theorem skipPrefix_cases (p : List (BitVec 8)) :
    ∃ base, (base = [] ∨ base = [0x30#8, 0x78#8] ∨ base = [0x30#8, 0x58#8]) ∧
      p = base ++ skipPrefix p := by
  unfold skipPrefix
  split_ifs with h
  · match p, h with
    | c :: d :: p, h =>
      obtain rfl : c = 0x30#8 := h.1
      rcases h.2 with hx | hx
      · obtain rfl : d = 0x78#8 := hx
        exact ⟨[0x30#8, 0x78#8], .inr (.inl rfl), rfl⟩
      · obtain rfl : d = 0x58#8 := hx
        exact ⟨[0x30#8, 0x58#8], .inr (.inr rfl), rfl⟩
  · exact ⟨[], .inl rfl, rfl⟩

theorem firstChar_cases {p : List (BitVec 8)} (hnul : 0x00#8 ∉ p) {c : BitVec 8}
    (h : firstChar p = c ∨ firstChar p = 0x00#8) : p = [] ∨ p.head? = some c := by
  cases p with
  | nil => exact .inl rfl
  | cons d p =>
    rcases h with h | h
    · obtain rfl : d = c := h
      exact .inr rfl
    · obtain rfl : d = 0x00#8 := h
      exact absurd (List.mem_cons_self ..) hnul

theorem endWord_ok {word : BitVec 32} {n : ℕ} {p : List (BitVec 8)} {m : Option (BitVec 32)}
    (h : endWord word n p = .ok m) : 1 ≤ n ∧
      (firstChar (skipSpace p) = 0x23#8 ∨ firstChar (skipSpace p) = 0x00#8) ∧ some word = m := by
  simp only [endWord] at h
  split_ifs at h with hn hend
  refine ⟨Nat.pos_of_ne_zero hn, ?_, Except.ok.inj h⟩
  by_contra hc
  exact hend ⟨fun h0 => hc (.inr h0), fun h1 => hc (.inl h1)⟩

theorem meaning_of_readWord {line : List (BitVec 8)} (hnul : 0x00#8 ∉ line)
    {m : Option (BitVec 32)} (h : readWord line = .ok m) : LineMeaning line m := by
  have hline : line.takeWhile isspace ++ skipSpace line = line := List.takeWhile_append_dropWhile
  have hs := takeWhile_all (p := isspace) line
  have hnulp : 0x00#8 ∉ skipSpace line := fun hc =>
    hnul (hline ▸ List.mem_append_right _ hc)
  unfold readWord at h
  rw [← hline]
  generalize line.takeWhile isspace = spaces at hs
  generalize skipSpace line = p at h hnulp
  -- no digits: a comment, or nothing up to the end
  by_cases hp : firstChar p = 0x23#8 ∨ firstChar p = 0x00#8
  · rw [if_pos hp] at h
    obtain rfl := Except.ok.inj h
    rcases firstChar_cases hnulp hp with rfl | hhead
    · rw [List.append_nil]
      exact .blank hs
    · obtain ⟨text, rfl⟩ := List.head?_eq_some_iff.mp hhead
      exact .comment hs
  · obtain ⟨base, hbase, hbody⟩ := skipPrefix_cases p
    rw [if_neg hp, readDigits_eq _ _ (Nat.zero_le 8), Nat.zero_add] at h
    have hdigits := takeWhile_all (p := isxdigit) (skipPrefix p)
    have hspan : (skipPrefix p).takeWhile isxdigit ++ (skipPrefix p).dropWhile isxdigit =
      skipPrefix p := List.takeWhile_append_dropWhile
    rw [hbody, ← hspan] at hnulp ⊢
    generalize (skipPrefix p).takeWhile isxdigit = digits at h hdigits
    generalize (skipPrefix p).dropWhile isxdigit = q at h hnulp
    have htail : q.takeWhile isspace ++ skipSpace q = q := List.takeWhile_append_dropWhile
    have ht := takeWhile_all (p := isspace) q
    -- eight digits at most, then spaces up to the end or a comment
    by_cases hlen : digits.length ≤ 8
    · rw [if_pos hlen] at h
      obtain ⟨hpos, hstop, rfl⟩ := endWord_ok h
      have hvalue : digits.foldl shiftIn 0 = BitVec.ofNat 32 (hexValue digits) :=
        foldl_shiftIn hdigits (k := 0) (v := 0) (by decide) (by omega)
      rw [hvalue, ← htail]
      rw [← htail] at hnulp
      exact .word hs hbase hdigits hpos hlen ht
        (firstChar_cases (fun hc => hnulp (by simp [hc])) hstop)
    · rw [if_neg hlen] at h
      nomatch h

theorem readWord_iff {line : List (BitVec 8)} (hnul : 0x00#8 ∉ line) (m : Option (BitVec 32)) :
    readWord line = .ok m ↔ LineMeaning line m :=
  ⟨meaning_of_readWord hnul, readWord_of_meaning⟩

end Riscv32
