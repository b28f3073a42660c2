import Riscv32Simulator.Execution.Disassembly
import Riscv32Simulator.Monitor.Numbers
import Riscv32Simulator.Source.Inspection

/-! What `mem` and `disasm` accept, and what they show. -/

namespace Riscv32
open Checked Format Numerals

/-! ## Accepted arguments -/

def inspectionUnit (command : CText) : ℕ := if command = ascii "mem" then 1 else 4

def defaultCount (command : CText) : ℕ := if command = ascii "mem" then 32 else 8

def maximumCount (command : CText) : ℕ := if command = ascii "mem" then 4096 else 256

/-- The arguments behind the command name an address, and a count or the default of the command. -/
inductive Arguments (command : CText) : List CText → (address count : ℕ) → Prop
  | address {name addressText : CText} {address : ℕ} : Numeral (codes addressText) address →
      Arguments command [name, addressText] address (defaultCount command)
  | count {name addressText countText : CText} {address count : ℕ} :
      Numeral (codes addressText) address → Numeral (codes countText) count →
      1 ≤ count → count ≤ maximumCount command →
      Arguments command [name, addressText, countText] address count

/-- A range of whole units inside a RAM of `n` bytes. -/
structure Accepted (command : CText) (n : ℕ) (args : List CText) (address count : ℕ) : Prop where
  arguments : Arguments command args address count
  address_lt : address < n
  aligned : address % inspectionUnit command = 0
  ends : address + count * inspectionUnit command ≤ n

theorem range_check {command : CText} {n : ℕ} (hn : n ≤ 268435456) {address length : BitVec 64}
    (ha : address.toNat < n) :
    ¬ (length = 0 ∨ (if command = ascii "mem" then length > BitVec.ofNat 64 n - address
        else address % 4 ≠ 0 ∨ length > (BitVec.ofNat 64 n - address) / 4)) ↔
      1 ≤ length.toNat ∧ address.toNat % inspectionUnit command = 0 ∧
        address.toNat + length.toNat * inspectionUnit command ≤ n := by
  have hsub : (BitVec.ofNat 64 n - address).toNat = n - address.toNat := by
    rw [BitVec.toNat_sub, BitVec.toNat_ofNat]
    omega
  have hzero : length = 0 ↔ length.toNat = 0 := by
    rw [← BitVec.toNat_inj]
    rfl
  unfold inspectionUnit
  by_cases hmem : command = ascii "mem"
  · rw [if_pos hmem, if_pos hmem, gt_iff_lt, BitVec.lt_def, hsub, hzero]
    omega
  · have haligned : address % 4 ≠ 0 ↔ address.toNat % 4 ≠ 0 := by
      rw [ne_eq, ← BitVec.toNat_inj, BitVec.toNat_umod]
      rfl
    have hdiv : ((BitVec.ofNat 64 n - address) / 4).toNat = (n - address.toNat) / 4 := by
      rw [BitVec.toNat_udiv, hsub]
      rfl
    rw [if_neg hmem, if_neg hmem, gt_iff_lt, BitVec.lt_def, hdiv, hzero, haligned]
    omega

theorem number_below {n : ℕ} (h4 : 4 ≤ n) (hn : n ≤ 268435456) (text : CText) (v : BitVec 64) :
    number text (BitVec.ofNat 64 n - 1) = some v ↔ Numeral (codes text) v.toNat ∧ v.toNat < n := by
  have hsub : (BitVec.ofNat 64 n - 1).toNat = n - 1 := by
    rw [BitVec.toNat_sub, BitVec.toNat_ofNat, show (1 : BitVec 64).toNat = 1 from rfl]
    omega
  rw [number_iff, hsub]
  exact and_congr_right fun _ => by omega

theorem number_count (command text : CText) (v : BitVec 64) :
    number text (if command = ascii "mem" then maxInspectionBytes else maxDisassemblyWords) = some v ↔
      Numeral (codes text) v.toNat ∧ v.toNat ≤ maximumCount command := by
  rw [number_iff]
  unfold maximumCount
  split_ifs
  · rfl
  · rfl

theorem defaultCount_eq (command : CText) :
    (if command = ascii "mem" then 32 else 8 : BitVec 64).toNat = defaultCount command := by
  unfold defaultCount
  split_ifs
  · rfl
  · rfl

def checkRange (command : CText) (ramSize address length : BitVec 64) :
    Option (BitVec 64 × BitVec 64) :=
  if length = 0 ∨ (if command = ascii "mem" then length > ramSize - address
      else address % 4 ≠ 0 ∨ length > (ramSize - address) / 4) then none
  else some (address, length)

theorem inspectionRange_address (ramSize : BitVec 64) (command name addressText : CText) :
    inspectionRange ramSize command [name, addressText] =
      (number addressText (ramSize - 1)).bind fun address =>
        checkRange command ramSize address (if command = ascii "mem" then 32 else 8) := by
  have hargs : ¬ ([name, addressText].length < 2 ∨ [name, addressText].length > 3) := by simp
  have hget : [name, addressText].getD 1 [] = addressText := rfl
  unfold inspectionRange
  dsimp only
  rw [if_neg hargs, hget]
  cases number addressText (ramSize - 1) with
  | none => rfl
  | some address => rfl

theorem inspectionRange_count (ramSize : BitVec 64) (command name addressText countText : CText) :
    inspectionRange ramSize command [name, addressText, countText] =
      (number addressText (ramSize - 1)).bind fun address =>
        (number countText (if command = ascii "mem" then maxInspectionBytes
          else maxDisassemblyWords)).bind (checkRange command ramSize address) := by
  have hargs : ¬ ([name, addressText, countText].length < 2 ∨
      [name, addressText, countText].length > 3) := by simp
  have hget : [name, addressText, countText].getD 1 [] = addressText := rfl
  have hcount : [name, addressText, countText].length = 3 := rfl
  have hlast : [name, addressText, countText].getD 2 [] = countText := rfl
  unfold inspectionRange
  dsimp only
  rw [if_neg hargs, hget, hlast]
  cases number addressText (ramSize - 1) with
  | none => rfl
  | some address =>
    dsimp only
    rw [if_pos hcount, Option.bind_some]
    cases number countText (if command = ascii "mem" then maxInspectionBytes
        else maxDisassemblyWords) with
    | none => rfl
    | some length => rfl

theorem inspectionRange_otherwise (ramSize : BitVec 64) (command : CText) {args : List CText}
    (h : args.length < 2 ∨ args.length > 3) : inspectionRange ramSize command args = none := if_pos h

theorem checkRange_iff {command : CText} {n : ℕ} (hn : n ≤ 268435456) {address length : BitVec 64}
    (ha : address.toNat < n) (a l : BitVec 64) :
    checkRange command (BitVec.ofNat 64 n) address length = some (a, l) ↔
      (1 ≤ length.toNat ∧ address.toNat % inspectionUnit command = 0 ∧
        address.toNat + length.toNat * inspectionUnit command ≤ n) ∧ address = a ∧ length = l := by
  rw [checkRange, Option.ite_none_left_eq_some, range_check hn ha, Option.some.injEq, Prod.mk.injEq]

theorem one_le_defaultCount (command : CText) : 1 ≤ defaultCount command := by
  unfold defaultCount
  split_ifs <;> decide

theorem accepted_of_inspectionRange {n : ℕ} (h4 : 4 ≤ n) (hn : n ≤ 268435456) {command : CText}
    {args : List CText} {a l : BitVec 64}
    (h : inspectionRange (BitVec.ofNat 64 n) command args = some (a, l)) :
    Accepted command n args a.toNat l.toNat := by
  rcases args with _ | ⟨name, _ | ⟨addressText, _ | ⟨countText, _ | ⟨extra, args⟩⟩⟩⟩
  · rw [inspectionRange_otherwise _ _ (by simp)] at h
    cases h
  · rw [inspectionRange_otherwise _ _ (by simp)] at h
    cases h
  · rw [inspectionRange_address, Option.bind_eq_some_iff] at h
    obtain ⟨address, haddress, h⟩ := h
    obtain ⟨hnum, ha⟩ := (number_below h4 hn _ _).mp haddress
    obtain ⟨⟨-, haligned, hends⟩, rfl, rfl⟩ := (checkRange_iff hn ha a l).mp h
    rw [defaultCount_eq] at hends ⊢
    exact ⟨.address hnum, ha, haligned, hends⟩
  · rw [inspectionRange_count, Option.bind_eq_some_iff] at h
    obtain ⟨address, haddress, h⟩ := h
    rw [Option.bind_eq_some_iff] at h
    obtain ⟨length, hlength, h⟩ := h
    obtain ⟨hnum, ha⟩ := (number_below h4 hn _ _).mp haddress
    obtain ⟨hcount, hmax⟩ := (number_count command _ _).mp hlength
    obtain ⟨⟨hpos, haligned, hends⟩, rfl, rfl⟩ := (checkRange_iff hn ha a l).mp h
    exact ⟨.count hnum hcount hpos hmax, ha, haligned, hends⟩
  · rw [inspectionRange_otherwise _ _ (by simp)] at h
    cases h

theorem inspectionRange_of_accepted {n : ℕ} (h4 : 4 ≤ n) (hn : n ≤ 268435456) {command : CText}
    {args : List CText} {a l : BitVec 64} (h : Accepted command n args a.toNat l.toNat) :
    inspectionRange (BitVec.ofNat 64 n) command args = some (a, l) := by
  obtain ⟨hargs, hlt, haligned, hends⟩ := h
  generalize hcount : l.toNat = count at hargs hends
  cases hargs with
  | @address name addressText _ hnum =>
    have hl : (if command = ascii "mem" then 32 else 8 : BitVec 64) = l :=
      BitVec.eq_of_toNat_eq ((defaultCount_eq command).trans hcount.symm)
    rw [inspectionRange_address, (number_below h4 hn _ _).mpr ⟨hnum, hlt⟩, Option.bind_some, hl,
      checkRange_iff hn hlt, hcount]
    exact ⟨⟨one_le_defaultCount command, haligned, hends⟩, rfl, rfl⟩
  | @count name addressText countText _ _ hnum hcountNum hpos hmax =>
    subst hcount
    rw [inspectionRange_count, (number_below h4 hn _ _).mpr ⟨hnum, hlt⟩, Option.bind_some,
      (number_count command _ _).mpr ⟨hcountNum, hmax⟩, Option.bind_some, checkRange_iff hn hlt]
    exact ⟨⟨hpos, haligned, hends⟩, rfl, rfl⟩

theorem inspectionRange_iff {n : ℕ} (hvalid : memorySizeValid n = true) (command : CText)
    (args : List CText) (a l : BitVec 64) :
    inspectionRange (BitVec.ofNat 64 n) command args = some (a, l) ↔
      Accepted command n args a.toNat l.toNat := by
  obtain ⟨h4, hn, -⟩ := (memorySizeValid_iff n).mp hvalid
  exact ⟨accepted_of_inspectionRange h4 hn, inspectionRange_of_accepted h4 hn⟩

/-! ## What is shown -/

/-- The byte `i` of a range, sixteen of them on a line behind their address. -/
def byteText (m : Memory) (address count i : ℕ) : Bytes :=
  (if i % 16 = 0 then print [.text (ascii "0x"), .hex 8, .text (ascii ":")] [(address + i : ℕ)]
    else []) ++
  print [.text (ascii " "), .hex 2] [(m.byte (address + i)).toNat] ++
  (if i % 16 = 15 ∨ i + 1 = count then ascii "\n" else [])

def Memory.word (m : Memory) (a : ℕ) : BitVec 32 :=
  m.byte (a + 3) ++ m.byte (a + 2) ++ m.byte (a + 1) ++ m.byte a

def wordText (m : Memory) (debug : Option DebugInfo) (a : ℕ) : Bytes :=
  print [.text (ascii "0x"), .hex 8, .text (ascii "  "), .hex 8, .text (ascii "  ")]
    [(a : ℤ), (m.word a).toNat] ++
  instructionText (m.word a) ++ sourceLocation debug (BitVec.ofNat 32 a) ++ ascii "\n"

def listing (monitor : Monitor) (command : CText) (address count : ℕ) : Bytes :=
  (List.range count).flatMap fun i =>
    if command = ascii "mem" then byteText monitor.machine.memory address count i
    else wordText monitor.machine.memory monitor.debug (address + i * 4)

theorem readAt_contents {m : Memory} (h : memoryReady m = true) {i : ℕ} (hi : i < m.size) :
    (readAt m.contents i : Inspecting (BitVec 8)) = .ok (m.byte i) := by
  have hlen := Memory.length_contents (memoryReady_isSome h)
  rw [readAt, List.getElem?_eq_getElem (by omega), Memory.byte,
    List.getD_eq_getElem _ _ (by omega)]

theorem inspectByte_eq {m : Memory} (h : memoryReady m = true) {address length : BitVec 64}
    (hends : address.toNat + length.toNat ≤ m.size) (output : Bytes) {i : ℕ}
    (hi : i < length.toNat) : inspectByte m address length output i =
      .ok (output ++ byteText m address.toNat length.toNat i) := by
  obtain ⟨-, hn, -⟩ := (memorySizeValid_iff m.size).mp (memoryReady_size h)
  have hindex : (BitVec.ofNat 64 i).toNat = i := by
    rw [BitVec.toNat_ofNat]
    omega
  have hplace : (address + BitVec.ofNat 64 i).toNat = address.toNat + i := by
    rw [BitVec.toNat_add, hindex]
    omega
  have hmod : ∀ k : BitVec 64, BitVec.ofNat 64 i % 16 = k ↔ i % 16 = k.toNat := by
    intro k
    rw [← BitVec.toNat_inj, BitVec.toNat_umod, hindex]
    rfl
  have hfirst : BitVec.ofNat 64 i % 16 = 0 ↔ i % 16 = 0 := hmod 0
  have hfull : BitVec.ofNat 64 i % 16 = 15 ↔ i % 16 = 15 := hmod 15
  have hlast : BitVec.ofNat 64 i + 1 = length ↔ i + 1 = length.toNat := by
    rw [← BitVec.toNat_inj, BitVec.toNat_add, hindex, show (1 : BitVec 64).toNat = 1 from rfl]
    omega
  have hbyte := readAt_contents h (i := address.toNat + i) (by omega)
  unfold inspectByte byteText
  simp only [hplace, hbyte, hfirst, hfull, hlast, List.append_assoc]
  rfl

theorem memoryReadU32_word {m : Memory} (h : memoryReady m = true) {a : ℕ} (haligned : a % 4 = 0)
    (hends : a + 4 ≤ m.size) : memoryReadU32 m (BitVec.ofNat 32 a) = some (m.word a) := by
  obtain ⟨-, hn, -⟩ := (memorySizeValid_iff m.size).mp (memoryReady_size h)
  have ha : (BitVec.ofNat 32 a).toNat = a := by
    rw [BitVec.toNat_ofNat]
    omega
  have hvalid : memoryAccessValid m (BitVec.ofNat 32 a) 4 = true := by
    rw [memoryAccessValid_iff, ha]
    exact ⟨h, by decide, hends, haligned⟩
  rw [memoryReadU32_eq, if_pos hvalid, ha]
  rfl

theorem inspectWord_eq {monitor : Monitor} (h : memoryReady monitor.machine.memory = true)
    {address : BitVec 64} {count : ℕ} (haligned : address.toNat % 4 = 0)
    (hends : address.toNat + count * 4 ≤ monitor.machine.memory.size) (output : Bytes) {i : ℕ}
    (hi : i < count) : inspectWord monitor address output i =
      .ok (output ++ wordText monitor.machine.memory monitor.debug (address.toNat + i * 4)) := by
  obtain ⟨-, hn, -⟩ := (memorySizeValid_iff _).mp (memoryReady_size h)
  have hplace : (address + BitVec.ofNat 64 i * 4).toNat = address.toNat + i * 4 := by
    rw [BitVec.toNat_add, BitVec.toNat_mul, BitVec.toNat_ofNat, show (4 : BitVec 64).toNat = 4 from rfl]
    omega
  have hnarrow : (address + BitVec.ofNat 64 i * 4).setWidth 32 =
      BitVec.ofNat 32 (address.toNat + i * 4) := by
    rw [← hplace, BitVec.ofNat_toNat]
  have hread := memoryReadU32_word h (a := address.toNat + i * 4) (by omega) (by omega)
  have htext := instructionDisassemble_fits
    (length_instructionText (monitor.machine.memory.word (address.toNat + i * 4))) []
  unfold inspectWord wordText
  simp only [hplace, hnarrow, hread, htext, List.append_assoc]
  rfl

theorem inspectTurn_eq {monitor : Monitor} (h : memoryReady monitor.machine.memory = true)
    {command : CText} {args : List CText} {address length : BitVec 64}
    (ha : Accepted command monitor.machine.memory.size args address.toNat length.toNat)
    (output : Bytes) {i : ℕ} (hi : i < length.toNat) :
    (if command = ascii "mem" then inspectByte monitor.machine.memory address length output i
      else inspectWord monitor address output i) =
      .ok (output ++
        if command = ascii "mem" then byteText monitor.machine.memory address.toNat length.toNat i
        else wordText monitor.machine.memory monitor.debug (address.toNat + i * 4)) := by
  have haligned := ha.aligned
  have hends := ha.ends
  unfold inspectionUnit at haligned hends
  by_cases hmem : command = ascii "mem"
  · rw [if_pos hmem, Nat.mul_one] at hends
    rw [if_pos hmem, if_pos hmem, inspectByte_eq h hends output hi]
  · rw [if_neg hmem] at haligned hends
    rw [if_neg hmem, if_neg hmem, inspectWord_eq h haligned hends output hi]

/-- The loop reads only inside RAM and shows the whole range. -/
theorem inspect_accepted {monitor : Monitor} (h : memoryReady monitor.machine.memory = true)
    {command : CText} {args : List CText} {address length : BitVec 64}
    (ha : Accepted command monitor.machine.memory.size args address.toNat length.toNat) :
    inspect monitor command args =
      .ok (monitor, listing monitor command address.toNat length.toNat) := by
  have hrange := (inspectionRange_iff (memoryReady_size h) command args address length).mpr ha
  have hloop : Meets (· = listing monitor command address.toNat length.toNat) (fun _ => False)
      ((List.range length.toNat).foldlM
        (fun output i =>
          if command = ascii "mem" then inspectByte monitor.machine.memory address length output i
          else inspectWord monitor address output i) []) := by
    -- what is shown of the first `i` units
    refine meets_foldlM_range (I := fun i output => output = (List.range i).flatMap fun i =>
      if command = ascii "mem" then byteText monitor.machine.memory address.toNat length.toNat i
      else wordText monitor.machine.memory monitor.debug (address.toNat + i * 4)) ?_ rfl
    intro i hi output houtput
    rw [inspectTurn_eq h ha output hi, houtput]
    refine meets_pure ?_
    rw [List.range_succ, List.flatMap_append, List.flatMap_singleton]
  obtain ⟨output, houtput, rfl⟩ | ⟨e, -, hfalse⟩ := hloop.ok_or_reported
  · unfold inspect
    rw [hrange]
    dsimp only
    rw [houtput]
    rfl
  · exact absurd hfalse id

theorem inspect_refused {monitor : Monitor} (h : memoryReady monitor.machine.memory = true)
    {command : CText} {args : List CText}
    (hno : ¬ ∃ address count, Accepted command monitor.machine.memory.size args address count) :
    inspect monitor command args = .ok (monitor, invalidInspection) := by
  unfold inspect
  cases hrange : inspectionRange (BitVec.ofNat 64 monitor.machine.memory.size) command args with
  | none => rfl
  | some range =>
    have ha := (inspectionRange_iff (memoryReady_size h) command args range.1 range.2).mp hrange
    exact absurd ⟨_, _, ha⟩ hno

theorem Accepted.one_le {command : CText} {n : ℕ} {args : List CText} {address count : ℕ}
    (h : Accepted command n args address count) : 1 ≤ count := by
  cases h.arguments with
  | address => exact one_le_defaultCount command
  | count _ _ hpos _ => exact hpos

theorem Accepted.count_le {command : CText} {n : ℕ} {args : List CText} {address count : ℕ}
    (h : Accepted command n args address count) : count ≤ n := by
  have hends := h.ends
  have hunit : 1 ≤ inspectionUnit command := by
    unfold inspectionUnit
    split_ifs <;> decide
  have hle : count * 1 ≤ count * inspectionUnit command := Nat.mul_le_mul_left count hunit
  omega

theorem head?_listing (monitor : Monitor) (command : CText) (address : ℕ) {count : ℕ}
    (h : 1 ≤ count) : (listing monitor command address count).head? = some 0x30#8 := by
  obtain ⟨k, rfl⟩ := Nat.exists_eq_add_of_le' h
  rw [listing, List.range_succ_eq_map, List.flatMap_cons]
  split_ifs
  · rfl
  · rfl

theorem listing_ne_invalid (monitor : Monitor) (command : CText) (address : ℕ) {count : ℕ}
    (h : 1 ≤ count) : listing monitor command address count ≠ invalidInspection := by
  intro heq
  have hhead := head?_listing monitor command address h
  rw [heq] at hhead
  exact absurd hhead (by decide +kernel)

/-- A range is shown exactly where it is accepted, without leaving RAM and without failing. -/
theorem inspect_shows_ranges {monitor : Monitor}
    (h : memoryReady monitor.machine.memory = true) (command : CText) (args : List CText) :
    (∀ address count, Accepted command monitor.machine.memory.size args address count →
      inspect monitor command args = .ok (monitor, listing monitor command address count)) ∧
    (inspect monitor command args = .ok (monitor, invalidInspection) ↔
      ¬ ∃ address count, Accepted command monitor.machine.memory.size args address count) := by
  have hshow : ∀ address count, Accepted command monitor.machine.memory.size args address count →
      inspect monitor command args = .ok (monitor, listing monitor command address count) := by
    intro address count ha
    obtain ⟨-, hn, -⟩ := (memorySizeValid_iff _).mp (memoryReady_size h)
    have hlt := ha.address_lt
    have hle := ha.count_le
    have haddress : (BitVec.ofNat 64 address).toNat = address := by
      rw [BitVec.toNat_ofNat]
      omega
    have hcount : (BitVec.ofNat 64 count).toNat = count := by
      rw [BitVec.toNat_ofNat]
      omega
    rw [← haddress, ← hcount] at ha ⊢
    exact inspect_accepted h ha
  refine ⟨hshow, ?_, inspect_refused h⟩
  rintro hrefused ⟨address, count, ha⟩
  have heq := (hshow address count ha).symm.trans hrefused
  injection heq with heq
  exact listing_ne_invalid monitor command address ha.one_le (congrArg Prod.snd heq)

theorem inspect_shows_ranges_lastWord :
    inspect ⟨{ memory := Memory.zeroed 4 }, none⟩ (ascii "disasm") [ascii "disasm", ascii "0", ascii "1"] =
      .ok (⟨{ memory := Memory.zeroed 4 }, none⟩,
        ascii "0x00000000  00000000  .word 0x00000000  ; <no source mapping>\n") := by
  have haccepted : Accepted (ascii "disasm") 4 [ascii "disasm", ascii "0", ascii "1"] 0 1 := by
    have h0 : Numeral (codes (ascii "0")) 0 := .decimal (by decide) (by decide)
    have h1 : Numeral (codes (ascii "1")) 1 := .decimal (by decide) (by decide)
    exact ⟨.count h0 h1 (by decide) (by decide), by decide, by decide, by decide⟩
  have htext : listing ⟨{ memory := Memory.zeroed 4 }, none⟩ (ascii "disasm") 0 1 =
      ascii "0x00000000  00000000  .word 0x00000000  ; <no source mapping>\n" := by
    decide +kernel
  rw [← htext]
  exact (inspect_shows_ranges (by decide) _ _).1 0 1 haccepted

end Riscv32
