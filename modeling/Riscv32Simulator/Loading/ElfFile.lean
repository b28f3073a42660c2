import Riscv32Simulator.Loading.ElfImage
import Riscv32Simulator.Loading.WholeFile

/-! Whole ELF files: what `program_read_elf` loads, and what an accepted file may ask for. -/

namespace Riscv32
open Checked Splice Tiling

/-! ## Images -/

theorem meets_programReadElf (input : Input) (ramSize : ℕ) (malloc : ℕ → Bool) (calloc : Bool) :
    Meets (fun program => ReadWhole input elfFileLimit input.rest ∧
        IsElfImage input.rest ramSize program ∧ ElfAccepted input.rest ramSize)
      (fun _ => ReadRefused input elfFileLimit malloc ∨
        ¬ (ElfAccepted input.rest ramSize ∧ calloc = true))
      (programReadElf input ramSize malloc calloc) := by
  refine (meets_rejectIf fun hbad => ?_).bind fun _ _ => ?_
  · refine .inr fun hc => ?_
    rw [hc.1.ramSize] at hbad
    exact absurd hbad (by decide)
  refine ((meets_programInputBytes input elfFileLimit malloc).mono (fun _ => id) ?_).bind ?_
  · exact fun _ => .inl
  intro file hread
  obtain rfl := hread.same
  refine (meets_loadElf input.rest ramSize calloc).mono ?_ ?_
  · exact fun _ h => ⟨hread, h.1, h.2.1⟩
  · exact fun _ => .inr

theorem programReadElf_image {input : Input} {ramSize : ℕ} {malloc : ℕ → Bool} {calloc : Bool}
    {program : Program} (h : programReadElf input ramSize malloc calloc = .ok program) :
    IsElfImage input.rest ramSize program :=
  ((meets_programReadElf input ramSize malloc calloc).of_ok h).2.1

/-- An executable segment at 4 and a second one at 16, each with one word in the file and one that is
zero; the word at 12 lies between them. -/
def twoSegmentElf : List (BitVec 8) :=
  [0x7F#8, 0x45#8, 0x4C#8, 0x46#8, 1, 1, 1, 0, 0, 0, 0, 0, 0, 0, 0, 0,
    2, 0, 243, 0, 1, 0, 0, 0, 4, 0, 0, 0, 52, 0, 0, 0, 0, 0, 0, 0, 0, 0, 0, 0,
    52, 0, 32, 0, 2, 0, 40, 0, 0, 0, 0, 0,
    1, 0, 0, 0, 116, 0, 0, 0, 4, 0, 0, 0, 4, 0, 0, 0, 4, 0, 0, 0, 8, 0, 0, 0, 5, 0, 0, 0, 4, 0, 0, 0,
    1, 0, 0, 0, 120, 0, 0, 0, 16, 0, 0, 0, 16, 0, 0, 0, 4, 0, 0, 0, 8, 0, 0, 0, 6, 0, 0, 0, 4, 0, 0, 0,
    0x73, 0, 0, 0, 1, 2, 3, 4]

def twoSegmentMemory : List (BitVec 8) :=
  [0, 0, 0, 0, 0x73#8, 0, 0, 0, 0, 0, 0, 0, 0, 0, 0, 0, 1, 2, 3, 4, 0, 0, 0, 0, 0, 0, 0, 0, 0, 0, 0, 0]

theorem programReadElf_image_twoSegmentElf :
    ∃ program, programReadElf { rest := twoSegmentElf } 32 (fun _ => true) true = .ok program ∧
      program.memory.contents = twoSegmentMemory ∧ IsElfImage twoSegmentElf 32 program := by
  have hload : (programReadElf { rest := twoSegmentElf } 32 (fun _ => true) true).map
      (fun p => p.memory.contents) = .ok twoSegmentMemory := by
    decide +kernel
  cases h : programReadElf { rest := twoSegmentElf } 32 (fun _ => true) true with
  | ok program =>
    rw [h] at hload
    exact ⟨program, rfl, Except.ok.inj hload, programReadElf_image h⟩
  | error e =>
    rw [h] at hload
    cases hload

/-! ## Attributes of accepted files -/

theorem slice_between (before bytes after : List (BitVec 8)) :
    slice (before ++ (bytes ++ after)) before.length bytes.length = bytes := by
  rw [slice, List.drop_left, List.take_left]

theorem meets_attributes_between (before bytes after : List (BitVec 8)) :
    Meets (fun _ => AttributeSection Uleb32 bytes) (fun _ => ¬ AttributeSection Uleb32 bytes)
      (attributes (before ++ (bytes ++ after)) before.length bytes.length) := by
  have hinside : before.length + bytes.length ≤ (before ++ (bytes ++ after)).length := by
    rw [List.length_append, List.length_append]
    omega
  have hh := meets_attributes hinside
  rwa [slice_between] at hh

theorem SectionsAccepted.attributes {file : List (BitVec 8)} (h : SectionsAccepted file) {i : ℕ}
    (hi : i < sectionCount file)
    (htype : fileWord file (sectionAt file i + 4) = 0x70000003#32) :
    AttributeSection Uleb32 (sectionBytes file (sectionAt file i)) := by
  rcases h with ⟨hzero, -⟩ | ⟨-, -, -, -, hall⟩
  · rw [sectionCount, hzero] at hi
    exact absurd hi (Nat.not_lt_zero i)
  · exact (hall i hi).attributes htype

theorem tiles_unknown {e : List (BitVec 8)} {tag : ℕ} {value : AttributeValue}
    (he : Entry Uleb32 e tag value) (htag : tag ∉ [4, 5, 6]) {xs : List (BitVec 8)}
    (hxs : Tiles (Attribute Uleb32) xs) (ys : List (BitVec 8)) :
    Tiles (Attribute Uleb32) (xs ++ (e ++ ys)) ↔ Tiles (Attribute Uleb32) (xs ++ ys) := by
  have hfree := attribute_prefixFree uleb32_selfDelimiting
  have hnil := attribute_nonempty uleb32_selfDelimiting
  simp only [List.mem_cons, List.not_mem_nil, or_false, not_or] at htag
  have hattribute : Attribute Uleb32 e :=
    ⟨tag, value, he, compatible_of_unknown htag.1 htag.2.1 htag.2.2 value⟩
  rw [tiles_append_iff hfree hnil hxs, tiles_append_iff hfree hnil hxs,
    tiles_cons_iff hfree (fun hc => hnil (hc ▸ hattribute)) hattribute]

theorem tiles_other_vendor {length vendor : List (BitVec 8)} (body : List (BitVec 8))
    (hlength : length.length = 4)
    (hvalue : LittleEndian.value length = (length ++ (vendor ++ 0 :: body)).length)
    (hvendor : 0 ∉ vendor) (hother : vendor ≠ vendorRiscv) {xs : List (BitVec 8)}
    (hxs : Tiles (Subsection Uleb32) xs) (ys : List (BitVec 8)) :
    Tiles (Subsection Uleb32) (xs ++ (length ++ (vendor ++ 0 :: body) ++ ys)) ↔
      Tiles (Subsection Uleb32) (xs ++ ys) := by
  have hsubsection : Subsection Uleb32 (length ++ (vendor ++ 0 :: body)) :=
    ⟨length, vendor, body, rfl, hlength, hvalue, hvendor, fun hc => absurd hc hother⟩
  rw [tiles_append_iff subsection_prefixFree subsection_nonempty hxs,
    tiles_append_iff subsection_prefixFree subsection_nonempty hxs,
    tiles_cons_iff subsection_prefixFree (fun hc => subsection_nonempty (hc ▸ hsubsection))
      hsubsection]

/-- The bytes are accepted exactly when the grammar describes them, wherever they stand in the
file, and refused otherwise; with a file that is loaded all its attribute sections are accepted.
Unknown tags and other vendors have to be well framed and no more. -/
theorem attributes_exact :
    (∀ before bytes after : List (BitVec 8),
      (attributes (before ++ (bytes ++ after)) before.length bytes.length = .ok () ↔
        AttributeSection Uleb32 bytes) ∧
      ((∃ e, attributes (before ++ (bytes ++ after)) before.length bytes.length =
        .error (.reported e)) ↔ ¬ AttributeSection Uleb32 bytes)) ∧
    (∀ file ramSize calloc program, loadElf file ramSize calloc = .ok program →
      ∀ i < sectionCount file, fileWord file (sectionAt file i + 4) = 0x70000003#32 →
        AttributeSection Uleb32 (sectionBytes file (sectionAt file i))) ∧
    (∀ e tag value, Entry Uleb32 e tag value → tag ∉ [4, 5, 6] →
      ∀ xs ys, Tiles (Attribute Uleb32) xs →
        (Tiles (Attribute Uleb32) (xs ++ (e ++ ys)) ↔ Tiles (Attribute Uleb32) (xs ++ ys))) ∧
    ∀ length vendor body, length.length = 4 →
      LittleEndian.value length = (length ++ (vendor ++ 0 :: body)).length → 0 ∉ vendor →
      vendor ≠ vendorRiscv → ∀ xs ys, Tiles (Subsection Uleb32) xs →
        (Tiles (Subsection Uleb32) (xs ++ (length ++ (vendor ++ 0 :: body) ++ ys)) ↔
          Tiles (Subsection Uleb32) (xs ++ ys)) := by
  refine ⟨fun before bytes after => ?_, fun file ramSize calloc program h i hi htype => ?_,
    fun e tag value he htag xs ys hxs => tiles_unknown he htag hxs ys,
    fun length vendor body hlength hvalue hvendor hother xs ys hxs =>
      tiles_other_vendor body hlength hvalue hvendor hother hxs ys⟩
  · rcases (meets_attributes_between before bytes after).ok_or_reported with
      ⟨_, hok, hyes⟩ | ⟨e, herror, hno⟩
    · rw [hok]
      exact ⟨iff_of_true rfl hyes, iff_of_false nofun (not_not.mpr hyes)⟩
    · rw [herror]
      exact ⟨iff_of_false nofun hno, iff_of_true ⟨e, rfl⟩ hno⟩
  · exact ((meets_loadElf file ramSize calloc).of_ok h).2.1.sections.attributes hi htype

/-- One block with no attributes, whose scope is written in six bytes. -/
def paddedScope : List (BitVec 8) :=
  [0x41#8, 20, 0, 0, 0, 0x72#8, 0x69#8, 0x73#8, 0x63#8, 0x76#8, 0,
    0x81#8, 0x80#8, 0x80#8, 0x80#8, 0x80#8, 0, 10, 0, 0, 0]

/-- Numbers of any length are more than the loader reads. -/
theorem paddedScope_refused :
    ¬ (attributes paddedScope 0 paddedScope.length = .ok () ↔
      AttributeSection Leb128.Encodes paddedScope) := by
  have hrefused : attributes paddedScope 0 paddedScope.length =
      .error (.reported ⟨0, "malformed RISC-V attributes"⟩) := by rfl
  have hscope : Leb128.Encodes [0x81#8, 0x80#8, 0x80#8, 0x80#8, 0x80#8, 0] 1 := by
    have hzero : Leb128.Encodes [0x80#8, 0x80#8, 0x80#8, 0x80#8, 0] 0 :=
      .more (by decide) (.more (by decide) (.more (by decide) (.more (by decide)
        (.last (by decide)))))
    exact .more (by decide) hzero
  have hblock : Block Leb128.Encodes
      [0x81#8, 0x80#8, 0x80#8, 0x80#8, 0x80#8, 0, 10, 0, 0, 0] :=
    ⟨_, [10, 0, 0, 0], [], rfl, hscope, rfl, rfl, .nil⟩
  rw [hrefused]
  refine fun h => absurd (h.mpr ⟨_, rfl, .single ?_⟩) nofun
  exact ⟨[20, 0, 0, 0], vendorRiscv, _, rfl, rfl, rfl, vendorRiscv_text, fun _ => .single hblock⟩

end Riscv32
