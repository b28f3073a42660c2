import Riscv32Simulator.Loading.WordLine
import Riscv32Simulator.Source.MemoryLaws

/-! A whole word file: which texts `program_read_words` accepts, the image they leave, and the line
it names when it refuses one. -/

namespace Riscv32
open Text

def LineHolds (line : List (BitVec 8)) (m : Option (BitVec 32)) : Prop :=
  line.length ≤ 511 ∧ 0x00#8 ∉ line ∧ LineMeaning line m

open Classical in
noncomputable def wordCount (lines : List (List (BitVec 8))) : ℕ :=
  lines.countP fun line => decide (∃ w, LineMeaning line (some w))

/-- Line `i`, counted from 0, has no accepted form, or its word does not fit any more. -/
def LineFails (available used : ℕ) (lines : List (List (BitVec 8))) (i : ℕ) : Prop :=
  ∃ line, lines[i]? = some line ∧ ((∀ m, ¬ LineHolds line m) ∨
    (∃ w, LineMeaning line (some w)) ∧ available < 4 * (used + wordCount (lines.take (i + 1))))

/-! ## Images -/

def imageBytes (words : List (BitVec 32)) : List (BitVec 8) :=
  words.flatMap fun w => LittleEndian.bytes 4 w.toNat

theorem length_imageBytes (words : List (BitVec 32)) :
    (imageBytes words).length = 4 * words.length := by
  induction words with
  | nil => rfl
  | cons w words ih =>
    rw [imageBytes, List.flatMap_cons, List.length_append, LittleEndian.length_bytes, ← imageBytes,
      ih, List.length_cons]
    omega

def placed (ramSize : ℕ) (loadAddress entry : BitVec 32) (words : List (BitVec 32)) : Program where
  memory := (Memory.zeroed ramSize).splice loadAddress.toNat (imageBytes words)
  loadAddress := loadAddress
  entry := entry
  imageSize := 4 * words.length

section Placing

variable {ramSize : ℕ} {loadAddress entry : BitVec 32} (hsize : memorySizeValid ramSize = true)
  (haligned : loadAddress.toNat % 4 = 0) (hinside : loadAddress.toNat + 4 ≤ ramSize)

include hsize haligned hinside

theorem placeWord_placed (lineNumber : ℕ) (words : List (BitVec 32)) (w : BitVec 32) :
    placeWord (ramSize - loadAddress.toNat) lineNumber (placed ramSize loadAddress entry words) w =
      if 4 * (words.length + 1) ≤ ramSize - loadAddress.toNat then
        .ok (placed ramSize loadAddress entry (words ++ [w]))
      else .error ⟨lineNumber, "program does not fit in RAM"⟩ := by
  have hmax := ((memorySizeValid_iff ramSize).mp hsize).2.1
  have hword : memoryWordSize = 4 := rfl
  rw [placeWord, placed]
  by_cases hfits : 4 * (words.length + 1) ≤ ramSize - loadAddress.toNat
  · have haddress : (loadAddress + BitVec.ofNat 32 (4 * words.length)).toNat =
        loadAddress.toNat + 4 * words.length := by
      rw [BitVec.toNat_add, BitVec.toNat_ofNat]
      omega
    have hvalid : memoryAccessValid
        ((Memory.zeroed ramSize).splice loadAddress.toNat (imageBytes words))
        (loadAddress + BitVec.ofNat 32 (4 * words.length)) 4 = true := by
      rw [memoryAccessValid_splice, memoryAccessValid_iff, haddress, Memory.size_zeroed]
      exact ⟨by rw [memoryReady, Memory.size_zeroed, hsize]; rfl, by decide, by omega, by omega⟩
    simp only [if_neg (by omega : ¬ 4 * words.length > ramSize - loadAddress.toNat - memoryWordSize),
      memoryWriteU32_eq, hvalid, if_true, ← leBytes_four, haddress, if_pos hfits]
    rw [← length_imageBytes words, ← Memory.splice_append, placed, imageBytes, imageBytes,
      List.flatMap_append, List.flatMap_singleton, ← imageBytes, length_imageBytes,
      List.length_append, List.length_singleton]
    rfl
  · have hgt : 4 * words.length > ramSize - loadAddress.toNat - memoryWordSize := by omega
    rw [if_neg hfits]
    exact if_pos hgt

end Placing

/-! ## Reading one line -/

def Buffered (line : List (BitVec 8)) : Prop := line.length ≤ 511 ∧ 0x00#8 ∉ line

section Loop

variable {available : ℕ} (n : ℕ) (program : Program)

theorem readWordsLoop_buffered {piece line : List (BitVec 8)} (hp : 0x0A#8 ∉ piece)
    (h : Buffered (line ++ piece)) (rest : List (BitVec 8)) :
    readWordsLoop false available (piece ++ rest) line n program =
      readWordsLoop false available rest (line ++ piece) n program := by
  induction piece generalizing line with
  | nil => rw [List.append_nil, List.nil_append]
  | cons c piece ih =>
    have hc : c ≠ 0x0A#8 := fun hc => hp (hc ▸ List.mem_cons_self ..)
    have h0 : c ≠ 0x00#8 := fun hc => h.2 (by simp [hc])
    have hl : line.length + 1 ≠ 512 := by
      have hh := h.1
      rw [List.length_append, List.length_cons] at hh
      omega
    rw [List.append_cons] at h ⊢
    rw [List.cons_append, readWordsLoop, if_neg hc, if_neg h0, if_neg hl]
    exact ih (fun hc => hp (List.mem_cons_of_mem _ hc)) h

theorem readWordsLoop_start {xs : List (BitVec 8)} (hp : 0x0A#8 ∉ xs) (h : Buffered xs)
    (rest : List (BitVec 8)) : readWordsLoop false available (xs ++ rest) [] n program =
      readWordsLoop false available rest xs n program := by
  have hb : Buffered ([] ++ xs) := h
  exact readWordsLoop_buffered n program hp hb rest

theorem readWordsLoop_overflow {piece line : List (BitVec 8)} (hp : 0x0A#8 ∉ piece)
    (hline : Buffered line) (h : ¬ Buffered (line ++ piece)) (rest : List (BitVec 8)) :
    ∃ message, readWordsLoop false available (piece ++ rest) line n program =
      .error ⟨n + 1, message⟩ := by
  induction piece generalizing line with
  | nil =>
    rw [List.append_nil] at h
    exact absurd hline h
  | cons c piece ih =>
    have hc : c ≠ 0x0A#8 := fun hc => hp (hc ▸ List.mem_cons_self ..)
    rw [List.cons_append, readWordsLoop, if_neg hc]
    split_ifs with h0 hl
    · exact ⟨_, rfl⟩
    · exact ⟨_, rfl⟩
    · rw [List.append_cons] at h
      refine ih (fun hc => hp (List.mem_cons_of_mem _ hc)) ⟨?_, ?_⟩ h
      · have hh := hline.1
        rw [List.length_append, List.length_singleton]
        omega
      · simpa using ⟨hline.2, Ne.symm h0⟩

theorem readWordsLoop_unterminated {piece line : List (BitVec 8)} (hp : 0x0A#8 ∉ piece)
    (hne : line ++ piece ≠ []) : readWordsLoop false available piece line n program =
      readWordsLoop false available (piece ++ [0x0A#8]) line n program := by
  induction piece generalizing line with
  | nil =>
    have hl : line.length ≠ 0 := by simpa using hne
    rw [readWordsLoop, if_neg Bool.false_ne_true, if_neg hl, List.nil_append, readWordsLoop,
      if_pos rfl]
    cases readLine available (n + 1) line program <;> rfl
  | cons c piece ih =>
    have hc : c ≠ 0x0A#8 := fun hc => hp (hc ▸ List.mem_cons_self ..)
    rw [List.cons_append, readWordsLoop, readWordsLoop, if_neg hc, if_neg hc,
      ih (fun hc => hp (List.mem_cons_of_mem _ hc)) (by simp)]

theorem readWordsLoop_line {xs : List (BitVec 8)} (hp : 0x0A#8 ∉ xs) {m : Option (BitVec 32)}
    (h : LineHolds xs m) (rest : List (BitVec 8)) :
    readWordsLoop false available (xs ++ 0x0A#8 :: rest) [] n program =
      (m.elim (.ok program) (placeWord available (n + 1) program)).bind
        fun program => readWordsLoop false available rest [] (n + 1) program := by
  rw [readWordsLoop_start n program hp ⟨h.1, h.2.1⟩, readWordsLoop, if_pos rfl, readLine,
    (readWord_iff h.2.1 m).mpr h.2.2]
  cases m with
  | none => rfl
  | some w =>
    simp only [Option.elim]
    cases placeWord available (n + 1) program w <;> rfl

theorem readWordsLoop_fails {xs : List (BitVec 8)} (hp : 0x0A#8 ∉ xs) (h : ∀ m, ¬ LineHolds xs m)
    (rest : List (BitVec 8)) : ∃ message,
      readWordsLoop false available (xs ++ 0x0A#8 :: rest) [] n program =
        .error ⟨n + 1, message⟩ := by
  by_cases hb : Buffered xs
  · rw [readWordsLoop_start n program hp hb, readWordsLoop, if_pos rfl, readLine]
    cases hr : readWord xs with
    | error message => exact ⟨message, rfl⟩
    | ok m => exact absurd ⟨hb.1, hb.2, (readWord_iff hb.2 m).mp hr⟩ (h m)
  · exact readWordsLoop_overflow n program hp ⟨Nat.zero_le _, List.not_mem_nil⟩ hb _

end Loop

/-! ## Reading all lines -/

theorem LineHolds.unique {line : List (BitVec 8)} {m m' : Option (BitVec 32)} (h : LineHolds line m)
    (h' : LineMeaning line m') : m = m' :=
  Except.ok.inj ((readWord_of_meaning h.2.2).symm.trans (readWord_of_meaning h'))

theorem lineHolds_rightUnique : Relator.RightUnique LineHolds :=
  fun _ _ _ h h' => h.unique h'.2.2

theorem wordCount_cons {line : List (BitVec 8)} {m : Option (BitVec 32)} (h : LineHolds line m)
    (lines : List (List (BitVec 8))) :
    wordCount (line :: lines) = m.toList.length + wordCount lines := by
  classical
  rw [wordCount, List.countP_cons, ← wordCount, Nat.add_comm]
  congr 1
  cases m with
  | none =>
    refine if_neg fun hw => ?_
    obtain ⟨w, hw⟩ := of_decide_eq_true hw
    nomatch h.unique hw
  | some w => exact if_pos (decide_eq_true ⟨w, h.2.2⟩)

theorem lineFails_succ {available used : ℕ} {line : List (BitVec 8)} {m : Option (BitVec 32)}
    (h : LineHolds line m) (lines : List (List (BitVec 8))) (i : ℕ) :
    LineFails available used (line :: lines) (i + 1) ↔
      LineFails available (used + m.toList.length) lines i := by
  rw [LineFails, LineFails, List.getElem?_cons_succ, List.take_succ_cons, wordCount_cons h,
    Nat.add_assoc]

theorem lineFails_zero {available used : ℕ} {line : List (BitVec 8)} {m : Option (BitVec 32)}
    (h : LineHolds line m) (lines : List (List (BitVec 8))) :
    LineFails available used (line :: lines) 0 ↔
      m ≠ none ∧ available < 4 * (used + m.toList.length) := by
  have hcount : wordCount ((line :: lines).take 1) = m.toList.length := wordCount_cons h []
  constructor
  · rintro ⟨line', hline, hf⟩
    obtain rfl : line = line' := Option.some.inj hline
    rcases hf with hf | ⟨⟨w, hw⟩, hlt⟩
    · exact absurd h (hf m)
    · rw [Nat.zero_add, hcount] at hlt
      exact ⟨by rw [h.unique hw]; nofun, hlt⟩
  · rintro ⟨hm, hlt⟩
    obtain ⟨w, rfl⟩ := Option.ne_none_iff_exists'.mp hm
    exact ⟨line, rfl, .inr ⟨⟨w, h.2.2⟩, by rwa [Nat.zero_add, hcount]⟩⟩

theorem lineFails_of_not_holds {available used : ℕ} {line : List (BitVec 8)}
    (h : ∀ m, ¬ LineHolds line m) (lines : List (List (BitVec 8))) :
    LineFails available used (line :: lines) 0 := ⟨line, rfl, .inl h⟩

theorem holds_of_not_lineFails {available used : ℕ} (hused : 4 * used ≤ available)
    {lines : List (List (BitVec 8))} (h : ∀ i, ¬ LineFails available used lines i) :
    ∃ ms, List.Forall₂ LineHolds lines ms ∧
      4 * (used + (ms.flatMap Option.toList).length) ≤ available := by
  induction lines generalizing used with
  | nil => exact ⟨[], .nil, hused⟩
  | cons line lines ih =>
    obtain ⟨m, hm⟩ : ∃ m, LineHolds line m := by
      by_contra hc
      exact h 0 (lineFails_of_not_holds (not_exists.mp hc) lines)
    have hfits : 4 * (used + m.toList.length) ≤ available := by
      by_contra hc
      refine h 0 ((lineFails_zero hm lines).mpr ⟨?_, by omega⟩)
      rintro rfl
      exact hc hused
    obtain ⟨ms, hms, hle⟩ := ih hfits fun i hi => h (i + 1) ((lineFails_succ hm lines i).mpr hi)
    refine ⟨m :: ms, .cons hm hms, ?_⟩
    rwa [List.flatMap_cons, List.length_append, ← Nat.add_assoc]

/-- A text is a rendering of words that fit, or it has a first failing line. -/
theorem holds_or_lineFails (available : ℕ) (lines : List (List (BitVec 8))) :
    (∃ ms, List.Forall₂ LineHolds lines ms ∧ 4 * (ms.flatMap Option.toList).length ≤ available) ∨
      ∃ i, IsLeast {j | LineFails available 0 lines j} i := by
  by_cases h : ∃ i, LineFails available 0 lines i
  · exact .inr ⟨_, Nat.sInf_mem h, fun _ => Nat.sInf_le⟩
  · obtain ⟨ms, hms, hfits⟩ := holds_of_not_lineFails (Nat.zero_le _) (not_exists.mp h)
    rw [Nat.zero_add] at hfits
    exact .inl ⟨ms, hms, hfits⟩

section Spec

variable {ramSize : ℕ} {loadAddress entry : BitVec 32}

/-- From every image built so far, the loop places the words of all lines of a text, or stops at the
first line that fails. -/
def ReadsLines (ramSize : ℕ) (loadAddress entry : BitVec 32) (bytes : List (BitVec 8)) : Prop :=
  ∀ (n : ℕ) (words : List (BitVec 32)), 4 * words.length ≤ ramSize - loadAddress.toNat →
    (∀ ms, List.Forall₂ LineHolds (lines 0x0A#8 bytes) ms →
      4 * (words.length + (ms.flatMap Option.toList).length) ≤ ramSize - loadAddress.toNat →
      readWordsLoop false (ramSize - loadAddress.toNat) bytes [] n
          (placed ramSize loadAddress entry words) =
        checkWords (placed ramSize loadAddress entry (words ++ ms.flatMap Option.toList))) ∧
    ∀ i, IsLeast {j | LineFails (ramSize - loadAddress.toNat) words.length
        (lines 0x0A#8 bytes) j} i →
      ∃ message, readWordsLoop false (ramSize - loadAddress.toNat) bytes [] n
          (placed ramSize loadAddress entry words) = .error ⟨n + i + 1, message⟩

theorem readsLines_nil : ReadsLines ramSize loadAddress entry [] := by
  intro n words _
  constructor
  · intro ms hms _
    obtain rfl := List.forall₂_nil_left_iff.mp hms
    rw [List.flatMap_nil, List.append_nil]
    rfl
  · rintro i ⟨⟨line, hline, -⟩, -⟩
    nomatch hline

section Placing

variable (hsize : memorySizeValid ramSize = true) (haligned : loadAddress.toNat % 4 = 0)
  (hinside : loadAddress.toNat + 4 ≤ ramSize)

include hsize haligned hinside

theorem readWordsLoop_placed {xs : List (BitVec 8)} (hxs : 0x0A#8 ∉ xs) {m : Option (BitVec 32)}
    (hm : LineHolds xs m) (rest : List (BitVec 8)) (n : ℕ) {words : List (BitVec 32)}
    (hfits : 4 * (words.length + m.toList.length) ≤ ramSize - loadAddress.toNat) :
    readWordsLoop false (ramSize - loadAddress.toNat) (xs ++ 0x0A#8 :: rest) [] n
        (placed ramSize loadAddress entry words) =
      readWordsLoop false (ramSize - loadAddress.toNat) rest [] (n + 1)
        (placed ramSize loadAddress entry (words ++ m.toList)) := by
  rw [readWordsLoop_line n _ hxs hm]
  cases m with
  | none =>
    rw [Option.toList_none, List.append_nil]
    rfl
  | some w =>
    rw [Option.elim, placeWord_placed hsize haligned hinside]
    exact congrArg (Except.bind · _) (if_pos hfits)

theorem readsLines_line {xs ys : List (BitVec 8)} (hxs : 0x0A#8 ∉ xs)
    (ih : ReadsLines ramSize loadAddress entry ys) :
    ReadsLines ramSize loadAddress entry (xs ++ 0x0A#8 :: ys) := by
  intro n words hwords
  rw [lines_append_cons hxs]
  constructor
  · intro ms hms hfits
    obtain ⟨m, ms', hm, hms', rfl⟩ := List.forall₂_cons_left_iff.mp hms
    rw [List.flatMap_cons, List.length_append] at hfits
    rw [readWordsLoop_placed hsize haligned hinside hxs hm ys n (by omega), List.flatMap_cons,
      ← List.append_assoc]
    refine (ih (n + 1) (words ++ m.toList) ?_).1 ms' hms' ?_
    · rw [List.length_append]
      omega
    · rw [List.length_append]
      omega
  · rintro i ⟨hi, hleast⟩
    -- this line is the first to fail, or the failing one is in the rest of the text
    by_cases hx : ∃ m, LineHolds xs m
    · obtain ⟨m, hm⟩ := hx
      by_cases hfits : 4 * (words.length + m.toList.length) ≤ ramSize - loadAddress.toNat
      · cases i with
        | zero =>
          have hlt := ((lineFails_zero hm _).mp hi).2
          omega
        | succ i =>
          have hle : 4 * (words ++ m.toList).length ≤ ramSize - loadAddress.toNat := by
            rwa [List.length_append]
          rw [readWordsLoop_placed hsize haligned hinside hxs hm ys n hfits,
            show n + (i + 1) + 1 = n + 1 + i + 1 by omega]
          refine (ih (n + 1) (words ++ m.toList) hle).2 i ?_
          simp only [List.length_append, ← lineFails_succ hm (lines 0x0A#8 ys)]
          exact ⟨hi, fun j hj => Nat.succ_le_succ_iff.mp (hleast hj)⟩
      · have hm0 : m ≠ none := by
          rintro rfl
          exact hfits hwords
        obtain ⟨w, rfl⟩ := Option.ne_none_iff_exists'.mp hm0
        have h0 := hleast ((lineFails_zero hm _).mpr ⟨hm0, by omega⟩)
        obtain rfl : i = 0 := Nat.le_zero.mp h0
        refine ⟨"program does not fit in RAM", ?_⟩
        rw [readWordsLoop_line n _ hxs hm, Option.elim, placeWord_placed hsize haligned hinside]
        exact congrArg (Except.bind · _) (if_neg hfits)
    · have h0 := hleast (lineFails_of_not_holds (not_exists.mp hx) _)
      obtain rfl : i = 0 := Nat.le_zero.mp h0
      exact readWordsLoop_fails n _ hxs (not_exists.mp hx) ys

theorem readsLines (bytes : List (BitVec 8)) : ReadsLines ramSize loadAddress entry bytes := by
  induction bytes using lines_induction 0x0A#8 with
  | nil => exact readsLines_nil
  | line xs ys hxs ih => exact readsLines_line hsize haligned hinside hxs ih
  | last xs hne hxs =>
    have hh : ReadsLines ramSize loadAddress entry (xs ++ 0x0A#8 :: []) :=
      readsLines_line hsize haligned hinside hxs readsLines_nil
    intro n words hwords
    rw [lines_of_not_mem hxs hne, readWordsLoop_unterminated n _ hxs (by simpa using hne)]
    have hn := hh n words hwords
    rwa [lines_append_cons hxs, lines_nil] at hn

end Placing

end Spec

/-! ## The file -/

theorem programAddressValid_ok {ramSize : ℕ} {loadAddress entry : BitVec 32}
    (h : programAddressValid ramSize loadAddress entry = .ok ()) :
    memorySizeValid ramSize = true ∧ loadAddress.toNat % 4 = 0 ∧ loadAddress.toNat + 4 ≤ ramSize ∧
      entry.toNat % 4 = 0 ∧ loadAddress.toNat ≤ entry.toNat ∧ entry.toNat + 4 ≤ ramSize := by
  unfold programAddressValid at h
  split_ifs at h with hs hl he
  simp only [Bool.not_eq_true, Bool.not_eq_false'] at hs
  have hmin := ((memorySizeValid_iff ramSize).mp hs).1
  have hword : memoryWordSize = 4 := rfl
  rw [hword] at hl he
  rw [not_or] at hl
  rw [not_or, not_or] at he
  have hle : loadAddress.toNat ≤ entry.toNat := BitVec.not_lt.mp he.2.1
  exact ⟨hs, by omega, by omega, by omega, hle, by omega⟩

/-- A loaded image: the words little-endian from the load address on, zeros everywhere else. -/
structure IsImage (ramSize : ℕ) (loadAddress entry : BitVec 32) (words : List (BitVec 32))
    (program : Program) : Prop where
  sameLoadAddress : program.loadAddress = loadAddress
  sameEntry : program.entry = entry
  ready : memoryReady program.memory = true
  size : program.memory.size = ramSize
  imageSize : program.imageSize = 4 * words.length
  word : ∀ i w, words[i]? = some w → ∀ k < 4,
    program.memory.byte (loadAddress.toNat + 4 * i + k) = BitVec.ofNat 8 (w.toNat / 256 ^ k)
  zero : ∀ a, a < loadAddress.toNat ∨ loadAddress.toNat + 4 * words.length ≤ a →
    program.memory.byte a = 0

theorem getD_imageBytes {words : List (BitVec 32)} {i : ℕ} {w : BitVec 32}
    (h : words[i]? = some w) {k : ℕ} (hk : k < 4) :
    (imageBytes words).getD (4 * i + k) 0 = BitVec.ofNat 8 (w.toNat / 256 ^ k) := by
  induction words generalizing i with
  | nil => nomatch h
  | cons v words ih =>
    have hv : (LittleEndian.bytes 4 v.toNat).length = 4 := LittleEndian.length_bytes ..
    rw [imageBytes, List.flatMap_cons, ← imageBytes]
    cases i with
    | zero =>
      obtain rfl : v = w := Option.some.inj h
      rw [Nat.mul_zero, Nat.zero_add, List.getD_append _ _ _ _ (by omega),
        LittleEndian.getD_bytes hk]
    | succ i =>
      rw [List.getElem?_cons_succ] at h
      rw [List.getD_append_right _ _ _ _ (by omega), hv, ← ih h]
      congr 1
      omega

theorem placed_isImage {ramSize : ℕ} {loadAddress entry : BitVec 32} {words : List (BitVec 32)}
    (hsize : memorySizeValid ramSize = true)
    (hfits : 4 * words.length ≤ ramSize - loadAddress.toNat) (hload : loadAddress.toNat ≤ ramSize) :
    IsImage ramSize loadAddress entry words (placed ramSize loadAddress entry words) := by
  have hbyte (a : ℕ) : (placed ramSize loadAddress entry words).memory.byte a =
      if loadAddress.toNat ≤ a ∧ a < loadAddress.toNat + 4 * words.length then
        (imageBytes words).getD (a - loadAddress.toNat) 0 else 0 := by
    rw [placed, Memory.byte_splice (Memory.isSome_zeroed ramSize)
      (by rw [length_imageBytes, Memory.size_zeroed]; omega), length_imageBytes, Memory.byte_zeroed]
  have hready : memoryReady (placed ramSize loadAddress entry words).memory = true := by
    rw [placed, memoryReady_splice, memoryReady, Memory.size_zeroed, hsize]
    rfl
  refine ⟨rfl, rfl, hready, rfl, rfl, fun i w hw k hk => ?_, fun a ha => ?_⟩
  · have hi : i < words.length := (List.getElem?_eq_some_iff.mp hw).1
    rw [hbyte, if_pos (by omega), ← getD_imageBytes hw hk]
    congr 1
    omega
  · rw [hbyte, if_neg (by omega)]

theorem checkWords_placed {ramSize : ℕ} {loadAddress entry : BitVec 32}
    (hentry : loadAddress.toNat ≤ entry.toNat) (words : List (BitVec 32)) :
    checkWords (placed ramSize loadAddress entry words) =
      if words.length = 0 then .error ⟨0, "program is empty"⟩
      else if entry.toNat - loadAddress.toNat < 4 * words.length then
        .ok (placed ramSize loadAddress entry words)
      else .error ⟨0, "entry must point inside the loaded program"⟩ := by
  have hsub : (entry - loadAddress).toNat = entry.toNat - loadAddress.toNat :=
    BitVec.toNat_sub_of_le hentry
  have hzero : 4 * words.length = 0 ↔ words.length = 0 := by omega
  have hge : (entry - loadAddress).toNat ≥ 4 * words.length ↔
      ¬ entry.toNat - loadAddress.toNat < 4 * words.length := by rw [hsub, not_lt]
  unfold checkWords
  refine if_congr hzero rfl ?_
  exact (if_congr hge rfl rfl).trans (ite_not ..)

theorem programReadWords_eq {ramSize : ℕ} {loadAddress entry : BitVec 32}
    (hvalid : programAddressValid ramSize loadAddress entry = .ok ()) (bytes : List (BitVec 8)) :
    programReadWords { rest := bytes } ramSize loadAddress entry true =
      readWordsLoop false (ramSize - loadAddress.toNat) bytes [] 0
        (placed ramSize loadAddress entry []) := by
  have hinit : memoryInit Memory.empty ramSize true = some (Memory.zeroed ramSize) := by
    rw [memoryInit_empty, (programAddressValid_ok hvalid).1]
    rfl
  have hempty : (Memory.zeroed ramSize).splice loadAddress.toNat (imageBytes []) =
    Memory.zeroed ramSize := Memory.splice_nil ..
  rw [programReadWords, hvalid, hinit, placed, hempty]
  rfl

theorem programReadWords_holds {ramSize : ℕ} {loadAddress entry : BitVec 32}
    (hvalid : programAddressValid ramSize loadAddress entry = .ok ()) {bytes : List (BitVec 8)}
    {ms : List (Option (BitVec 32))} (hms : List.Forall₂ LineHolds (lines 0x0A#8 bytes) ms)
    (hfits : 4 * (ms.flatMap Option.toList).length ≤ ramSize - loadAddress.toNat) :
    programReadWords { rest := bytes } ramSize loadAddress entry true =
      checkWords (placed ramSize loadAddress entry (ms.flatMap Option.toList)) := by
  obtain ⟨hsize, haligned, hinside, -⟩ := programAddressValid_ok hvalid
  have hreads : ReadsLines ramSize loadAddress entry bytes := readsLines hsize haligned hinside bytes
  obtain ⟨hok, -⟩ := hreads 0 [] (Nat.zero_le _)
  simp only [List.length_nil, Nat.zero_add, List.nil_append] at hok
  rw [programReadWords_eq hvalid]
  exact hok ms hms hfits

theorem programReadWords_fails {ramSize : ℕ} {loadAddress entry : BitVec 32}
    (hvalid : programAddressValid ramSize loadAddress entry = .ok ()) {bytes : List (BitVec 8)}
    {i : ℕ} (hi : IsLeast {j | LineFails (ramSize - loadAddress.toNat) 0 (lines 0x0A#8 bytes) j} i) :
    ∃ message, programReadWords { rest := bytes } ramSize loadAddress entry true =
      .error ⟨i + 1, message⟩ := by
  obtain ⟨hsize, haligned, hinside, -⟩ := programAddressValid_ok hvalid
  have hreads : ReadsLines ramSize loadAddress entry bytes := readsLines hsize haligned hinside bytes
  obtain ⟨-, hfail⟩ := hreads 0 [] (Nat.zero_le _)
  simp only [List.length_nil, Nat.zero_add] at hfail
  rw [programReadWords_eq hvalid]
  exact hfail i hi

/-- Exactly the texts of the word format are accepted, and the image holds their words. A refusal
because of a line names the first line that fails. -/
theorem programReadWords_language {ramSize : ℕ} {loadAddress entry : BitVec 32}
    (hvalid : programAddressValid ramSize loadAddress entry = .ok ()) (bytes : List (BitVec 8)) :
    let result := programReadWords { rest := bytes } ramSize loadAddress entry true
    let available := ramSize - loadAddress.toNat
    ((∃ program, result = .ok program) ↔
      ∃ ms, List.Forall₂ LineHolds (lines 0x0A#8 bytes) ms ∧
        1 ≤ (ms.flatMap Option.toList).length ∧
        4 * (ms.flatMap Option.toList).length ≤ available ∧
        entry.toNat - loadAddress.toNat < 4 * (ms.flatMap Option.toList).length) ∧
    (∀ program ms, result = .ok program → List.Forall₂ LineHolds (lines 0x0A#8 bytes) ms →
      IsImage ramSize loadAddress entry (ms.flatMap Option.toList) program) ∧
    (∀ i, IsLeast {j | LineFails available 0 (lines 0x0A#8 bytes) j} i →
      ∃ message, result = .error ⟨i + 1, message⟩) ∧
    ∀ e, result = .error e → (∀ i, ¬ LineFails available 0 (lines 0x0A#8 bytes) i) → e.line = 0 := by
  obtain ⟨hsize, -, -, -, hentry, -⟩ := programAddressValid_ok hvalid
  intro result available
  have hcases := holds_or_lineFails available (lines 0x0A#8 bytes)
  have hfail : ∀ i, IsLeast {j | LineFails available 0 (lines 0x0A#8 bytes) j} i →
      ∃ message, result = .error ⟨i + 1, message⟩ := fun i hi => programReadWords_fails hvalid hi
  -- an accepted text has no failing line, and the final checks let it through
  have hread : ∀ program, result = .ok program →
      ∃ ms, List.Forall₂ LineHolds (lines 0x0A#8 bytes) ms ∧
        4 * (ms.flatMap Option.toList).length ≤ available ∧
        checkWords (placed ramSize loadAddress entry (ms.flatMap Option.toList)) = .ok program := by
    intro program hr
    rcases hcases with ⟨ms, hms, hfits⟩ | ⟨i, hi⟩
    · exact ⟨ms, hms, hfits, (programReadWords_holds hvalid hms hfits).symm.trans hr⟩
    · obtain ⟨message, he⟩ := hfail i hi
      cases hr.symm.trans he
  refine ⟨⟨?_, ?_⟩, ?_, hfail, ?_⟩
  · rintro ⟨program, hr⟩
    obtain ⟨ms, hms, hfits, hcheck⟩ := hread program hr
    rw [checkWords_placed hentry] at hcheck
    split_ifs at hcheck with h0 hin
    exact ⟨ms, hms, Nat.pos_of_ne_zero h0, hfits, hin⟩
  · rintro ⟨ms, hms, hpos, hfits, hin⟩
    refine ⟨placed ramSize loadAddress entry (ms.flatMap Option.toList),
      (programReadWords_holds hvalid hms hfits).trans ?_⟩
    rw [checkWords_placed hentry, if_neg (by omega), if_pos hin]
  · intro program ms hr hms
    obtain ⟨ms', hms', hfits, hcheck⟩ := hread program hr
    obtain rfl : ms = ms' := List.right_unique_forall₂' lineHolds_rightUnique hms hms'
    rw [checkWords_placed hentry] at hcheck
    split_ifs at hcheck
    rw [← Except.ok.inj hcheck]
    exact placed_isImage hsize hfits (by omega)
  · intro e hr hnone
    rcases hcases with ⟨ms, hms, hfits⟩ | ⟨i, hi⟩
    · have hcheck := (programReadWords_holds hvalid hms hfits).symm.trans hr
      rw [checkWords_placed hentry] at hcheck
      split_ifs at hcheck <;> rw [← Except.error.inj hcheck]
    · exact absurd hi.1 (hnone i)

def addiText : List (BitVec 8) :=
  [0x23#8, 0x0A#8, 0x20#8, 0x30#8, 0x78#8, 0x35#8, 0x30#8, 0x38#8, 0x30#8, 0x39#8, 0x33#8]

theorem lineHolds_addiText :
    List.Forall₂ LineHolds (lines 0x0A#8 addiText) [none, some 0x00508093#32] := by
  have hlines : lines 0x0A#8 addiText = [[0x23#8],
      [0x20#8, 0x30#8, 0x78#8, 0x35#8, 0x30#8, 0x38#8, 0x30#8, 0x39#8, 0x33#8]] := by decide
  rw [hlines]
  exact .cons ⟨by decide, by decide, meaning_of_readWord (by decide) rfl⟩
    (.cons ⟨by decide, by decide, meaning_of_readWord (by decide) rfl⟩ .nil)

theorem programReadWords_language_addi :
    ∃ program, programReadWords { rest := addiText } 8 0 0 true = .ok program ∧
      IsImage 8 0 0 [0x00508093#32] program := by
  have hvalid : programAddressValid 8 0 0 = .ok () := rfl
  obtain ⟨haccepts, himage, -⟩ := programReadWords_language hvalid addiText
  obtain ⟨program, hp⟩ := haccepts.mpr ⟨_, lineHolds_addiText, by decide, by decide, by decide⟩
  exact ⟨program, hp, himage program _ hp lineHolds_addiText⟩

end Riscv32
