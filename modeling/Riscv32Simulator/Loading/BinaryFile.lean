import Riscv32Simulator.Loading.ElfReading
import Riscv32Simulator.Loading.WholeFile
import Riscv32Simulator.Loading.WordFile

/-! Raw binaries: which ones `program_read_binary` accepts, and their agreement with word files. -/

namespace Riscv32
open Checked Splice Text

/-- Zeroed RAM with a binary placed from the load address on. -/
def binaryProgram (ramSize : ℕ) (loadAddress entry : BitVec 32) (bytes : List (BitVec 8)) :
    Program where
  memory := (Memory.zeroed ramSize).splice loadAddress.toNat bytes
  loadAddress := loadAddress
  entry := entry
  imageSize := bytes.length
  format := .binary

structure BinaryAccepted (ramSize : ℕ) (loadAddress entry : BitVec 32) (bytes : List (BitVec 8)) :
    Prop where
  address : programAddressValid ramSize loadAddress entry = .ok ()
  fits : loadAddress.toNat + bytes.length ≤ ramSize
  entry : entry.toNat + 4 ≤ loadAddress.toNat + bytes.length

theorem programAddressValid_ok_iff {ramSize : ℕ} {loadAddress entry : BitVec 32} :
    programAddressValid ramSize loadAddress entry = .ok () ↔
      memorySizeValid ramSize = true ∧ loadAddress.toNat % 4 = 0 ∧
        loadAddress.toNat + 4 ≤ ramSize ∧ entry.toNat % 4 = 0 ∧
        loadAddress.toNat ≤ entry.toNat ∧ entry.toNat + 4 ≤ ramSize := by
  refine ⟨programAddressValid_ok, fun ⟨h1, h2, h3, h4, h5, h6⟩ => ?_⟩
  have hword : memoryWordSize = 4 := rfl
  have hlt : ¬ entry < loadAddress := BitVec.not_lt.mpr h5
  rw [programAddressValid, h1, hword, if_neg (by decide), if_neg (by omega), if_neg]
  rw [not_or, not_or]
  exact ⟨by omega, hlt, by omega⟩

theorem meets_programReadBinary (input : Input) (ramSize : ℕ) (loadAddress entry : BitVec 32)
    (malloc : ℕ → Bool) (calloc : Bool) :
    Meets (fun program => BinaryAccepted ramSize loadAddress entry input.rest ∧
        program = binaryProgram ramSize loadAddress entry input.rest)
      (fun _ => ReadRefused input (ramSize - loadAddress.toNat) malloc ∨
        ¬ (BinaryAccepted ramSize loadAddress entry input.rest ∧ calloc = true))
      (programReadBinary input ramSize loadAddress entry malloc calloc) := by
  unfold programReadBinary
  cases hvalid : programAddressValid ramSize loadAddress entry with
  | error e =>
    refine meets_reported (.inr fun hc => ?_)
    nomatch hvalid.symm.trans hc.1.address
  | ok u =>
    obtain ⟨hsize, -, hload, -, hentry, -⟩ := programAddressValid_ok hvalid
    refine ((meets_programInputBytes input _ malloc).mono (fun _ => id) ?_).bind ?_
    · exact fun _ => .inl
    intro bytes hread
    obtain rfl := hread.same
    have hfits := hread.fits
    have hsub : (entry - loadAddress).toNat = entry.toNat - loadAddress.toNat :=
      BitVec.toNat_sub_of_le hentry
    have hword : memoryWordSize = 4 := rfl
    -- the entry word must lie inside the bytes that were read
    refine (meets_rejectIf fun hbad => ?_).bind fun _ hgood => ?_
    · refine .inr fun hc => ?_
      have hh := hc.1.entry
      omega
    have haccepted : BinaryAccepted ramSize loadAddress entry input.rest :=
      ⟨hvalid, by omega, by omega⟩
    rw [memoryInit_empty, hsize, Bool.true_and]
    cases calloc with
    | false => exact meets_reported (.inr fun hc => Bool.false_ne_true hc.2)
    | true =>
      refine (meets_memcpyFrom (Memory.isSome_zeroed ramSize) (Nat.zero_add _).le
        haccepted.fits).bind fun memory hmemory => meets_pure ⟨haccepted, ?_⟩
      rw [hmemory, slice, List.drop_zero, List.take_length, binaryProgram]

/-- With all memory granted and no read errors the accepted binaries are loaded and no others. -/
theorem programReadBinary_eq (bytes : List (BitVec 8)) (ramSize : ℕ)
    (loadAddress entry : BitVec 32) :
    (BinaryAccepted ramSize loadAddress entry bytes ∧
      programReadBinary { rest := bytes } ramSize loadAddress entry (fun _ => true) true =
        .ok (binaryProgram ramSize loadAddress entry bytes)) ∨
    (¬ BinaryAccepted ramSize loadAddress entry bytes ∧
      ∃ e, programReadBinary { rest := bytes } ramSize loadAddress entry (fun _ => true) true =
        .error (.reported e)) := by
  obtain ⟨p, hok, haccepted, rfl⟩ | ⟨e, herror, hno⟩ :=
    (meets_programReadBinary { rest := bytes } ramSize loadAddress entry (fun _ => true)
      true).ok_or_reported
  · exact .inl ⟨haccepted, hok⟩
  · refine .inr ⟨fun hc => ?_, e, herror⟩
    have hfits := hc.fits
    rcases hno with (hfailing | hlong | ⟨_, hno⟩) | hno
    · exact Bool.false_ne_true hfailing
    · dsimp only at hlong
      omega
    · exact Bool.false_ne_true hno.symm
    · exact hno ⟨hc, rfl⟩

/-! ## Word files -/

/-- The images agree in everything but the format. -/
structure SameLoad (p q : Program) : Prop where
  memory : p.memory = q.memory
  loadAddress : p.loadAddress = q.loadAddress
  entry : p.entry = q.entry
  imageSize : p.imageSize = q.imageSize

theorem placed_sameLoad (ramSize : ℕ) (loadAddress entry : BitVec 32) (words : List (BitVec 32)) :
    SameLoad (placed ramSize loadAddress entry words)
      (binaryProgram ramSize loadAddress entry (imageBytes words)) :=
  ⟨rfl, rfl, rfl, (length_imageBytes words).symm⟩

theorem programReadWords_rendering {text : List (BitVec 8)} {ms : List (Option (BitVec 32))}
    (hms : List.Forall₂ LineHolds (lines 0x0A#8 text) ms) (ramSize : ℕ)
    (loadAddress entry : BitVec 32) :
    (BinaryAccepted ramSize loadAddress entry (imageBytes (ms.flatMap Option.toList)) ∧
      programReadWords { rest := text } ramSize loadAddress entry true =
        .ok (placed ramSize loadAddress entry (ms.flatMap Option.toList))) ∨
    (¬ BinaryAccepted ramSize loadAddress entry (imageBytes (ms.flatMap Option.toList)) ∧
      ∃ e, programReadWords { rest := text } ramSize loadAddress entry true = .error e) := by
  generalize hwords : ms.flatMap Option.toList = words
  by_cases hvalid : programAddressValid ramSize loadAddress entry = .ok ()
  · obtain ⟨-, h4, hload, h4', hentry, -⟩ := programAddressValid_ok hvalid
    have hlen := length_imageBytes words
    by_cases hfits : 4 * words.length ≤ ramSize - loadAddress.toNat
    · have hcheck := programReadWords_holds hvalid hms (by rwa [hwords])
      rw [hwords, checkWords_placed hentry] at hcheck
      rw [hcheck]
      by_cases hin : entry.toNat - loadAddress.toNat < 4 * words.length
      · rw [if_neg (by omega), if_pos hin]
        exact .inl ⟨⟨hvalid, by omega, by omega⟩, rfl⟩
      · rw [if_neg hin]
        refine .inr ⟨fun hc => hin ?_, ?_⟩
        · have hh := hc.entry
          omega
        · split_ifs <;> exact ⟨_, rfl⟩
    · refine .inr ⟨fun hc => hfits ?_, ?_⟩
      · have hh := hc.fits
        omega
      · rcases holds_or_lineFails (ramSize - loadAddress.toNat) (lines 0x0A#8 text) with
          ⟨ms', hms', hfits'⟩ | ⟨i, hi⟩
        · obtain rfl : ms = ms' := List.right_unique_forall₂' lineHolds_rightUnique hms hms'
          rw [hwords] at hfits'
          exact absurd hfits' hfits
        · obtain ⟨message, herror⟩ := programReadWords_fails hvalid hi
          exact ⟨_, herror⟩
  · refine .inr ⟨fun hc => hvalid hc.address, ?_⟩
    -- words are not looked at before the addresses are valid
    unfold programReadWords
    cases h : programAddressValid ramSize loadAddress entry with
    | error e => exact ⟨e, rfl⟩
    | ok u => exact absurd h hvalid

/-- A word file and the raw binary of its words are both refused or give the same image. -/
theorem words_and_binary_agree {words : List (BitVec 32)} {text : List (BitVec 8)}
    {ms : List (Option (BitVec 32))} (hms : List.Forall₂ LineHolds (lines 0x0A#8 text) ms)
    (hwords : ms.flatMap Option.toList = words) (ramSize : ℕ) (loadAddress entry : BitVec 32) :
    (∃ p q, programReadWords { rest := text } ramSize loadAddress entry true = .ok p ∧
      programReadBinary { rest := imageBytes words } ramSize loadAddress entry (fun _ => true) true =
        .ok q ∧ SameLoad p q) ∨
    ∃ e e', programReadWords { rest := text } ramSize loadAddress entry true = .error e ∧
      programReadBinary { rest := imageBytes words } ramSize loadAddress entry (fun _ => true) true =
        .error (.reported e') := by
  have htext := programReadWords_rendering hms ramSize loadAddress entry
  rw [hwords] at htext
  rcases programReadBinary_eq (imageBytes words) ramSize loadAddress entry with
    ⟨haccepted, hq⟩ | ⟨hno, e', he'⟩
  · rcases htext with ⟨-, hp⟩ | ⟨hno, -⟩
    · exact .inl ⟨_, _, hp, hq, placed_sameLoad ramSize loadAddress entry words⟩
    · exact absurd haccepted hno
  · rcases htext with ⟨haccepted, -⟩ | ⟨-, e, he⟩
    · exact absurd haccepted hno
    · exact .inr ⟨e, e', he, he'⟩

theorem words_and_binary_agree_addi :
    ∃ p q, programReadWords { rest := addiText } 8 0 0 true = .ok p ∧
      programReadBinary { rest := imageBytes [0x00508093#32] } 8 0 0 (fun _ => true) true = .ok q ∧
      SameLoad p q := by
  have hwords : [none, some 0x00508093#32].flatMap Option.toList = [0x00508093#32] := rfl
  rcases words_and_binary_agree lineHolds_addiText hwords 8 0 0 with h | ⟨_, _, -, he⟩
  · exact h
  · have hok : (programReadBinary { rest := imageBytes [0x00508093#32] } 8 0 0 (fun _ => true)
        true).isOk = true := by decide +kernel
    rw [he] at hok
    exact absurd hok Bool.false_ne_true

end Riscv32
