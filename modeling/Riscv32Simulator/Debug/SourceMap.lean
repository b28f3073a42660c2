import Riscv32Simulator.Debug.LineReading
import Riscv32Simulator.Debug.Lookup
import Riscv32Simulator.Source.MemoryLaws

/-! From the rows of a line program to the answers of a lookup. -/

namespace Riscv32
open Breakpoints

/-! ## Rows that are refused -/

/-- A row outside RAM, a row before a pending one, or a pending row at the end. -/
def Malformed (ramSize : ℕ) (rows : List LineRow) : Prop :=
  (∃ r ∈ rows, ramSize < r.key) ∨
  (∃ before q r rest, rows = before ++ q :: r :: rest ∧ q.opens = true ∧ r.key < q.key) ∨
  ∃ r ∈ rows.getLast?, r.opens = true

section Refusal

variable {malloc : ℕ → Bool} {ramSize : ℕ}

theorem readRow_outside {row : LineRow} (h : ramSize < row.key)
    (state : DebugReader × Option DebugLine) :
    readRow malloc ramSize state row.reported = none :=
  (readRow_reported ..).trans (if_pos h)

theorem readRow_opens {row : LineRow} (hopen : row.opens = true)
    {state state' : DebugReader × Option DebugLine}
    (h : readRow malloc ramSize state row.reported = some state') :
    row.key ≤ ramSize ∧ ∃ file, state'.2 = some (row.pendingLine file) := by
  obtain ⟨reader, pending⟩ := state
  rw [readRow_reported] at h
  by_cases hram : row.key > ramSize
  · rw [if_pos hram] at h
    cases h
  · rw [if_neg hram, Option.bind_eq_some_iff] at h
    obtain ⟨reader', -, h⟩ := h
    rw [if_pos hopen, Option.bind_eq_some_iff] at h
    obtain ⟨i, -, h⟩ := h
    obtain rfl := Option.some.inj h
    exact ⟨not_lt.mp hram, i.1, rfl⟩

theorem readRow_drop (hsize : ramSize < 2 ^ 32) {q row : LineRow} (hq : q.key ≤ ramSize)
    (hlt : row.key < q.key) (reader : DebugReader) (file : ℕ) :
    readRow malloc ramSize (reader, some (q.pendingLine file)) row.reported = none := by
  have hbegin := toNat_beginAddress hsize hq file
  have hkey : row.address.toNat = row.key := rfl
  rw [readRow_reported, if_neg (by omega), closePending, closeRange, hbegin, hkey, if_pos hlt]
  rfl

theorem readRows_malformed (hsize : ramSize < 2 ^ 32) {rows : List LineRow}
    (h : Malformed ramSize rows) (state state' : DebugReader × Option DebugLine)
    (hread : (rows.map LineRow.reported).foldlM (readRow malloc ramSize) state = some state') :
    state'.2.isSome := by
  rcases h with ⟨r, hr, hram⟩ | ⟨before, q, r, rest, rfl, hopen, hlt⟩ | ⟨r, hr, hopen⟩
  · obtain ⟨before, rest, rfl⟩ := List.append_of_mem hr
    rw [List.map_append, List.foldlM_append, Option.bind_eq_bind, Option.bind_eq_some_iff] at hread
    obtain ⟨s, -, hread⟩ := hread
    rw [List.map_cons, List.foldlM_cons, readRow_outside hram] at hread
    cases hread
  · rw [List.map_append, List.foldlM_append, Option.bind_eq_bind, Option.bind_eq_some_iff] at hread
    obtain ⟨s, -, hread⟩ := hread
    rw [List.map_cons, List.foldlM_cons, Option.bind_eq_bind, Option.bind_eq_some_iff] at hread
    obtain ⟨⟨reader, pending⟩, hq, hread⟩ := hread
    obtain ⟨hle, file, hpending⟩ := readRow_opens hopen hq
    obtain rfl : pending = some (q.pendingLine file) := hpending
    rw [List.map_cons, List.foldlM_cons, readRow_drop hsize hle hlt] at hread
    cases hread
  · obtain ⟨before, rfl⟩ := List.getLast?_eq_some_iff.mp (Option.mem_def.mp hr)
    rw [List.map_append, List.foldlM_append, Option.bind_eq_bind, Option.bind_eq_some_iff] at hread
    obtain ⟨s, -, hread⟩ := hread
    rw [List.map_singleton, List.foldlM_cons, Option.bind_eq_bind, Option.bind_eq_some_iff] at hread
    obtain ⟨s', hr', hread⟩ := hread
    obtain rfl := Option.some.inj hread
    obtain ⟨-, file, hpending⟩ := readRow_opens hopen hr'
    rw [hpending]
    rfl

end Refusal

/-! ## One unit -/

theorem foldlM_preserves {σ β : Type} {f : σ → β → Option σ} {P : σ → Prop}
    (h : ∀ s x s', P s → f s x = some s' → P s') (xs : List β) {s s' : σ} (hs : P s)
    (hf : xs.foldlM f s = some s') : P s' := by
  induction xs generalizing s with
  | nil =>
    obtain rfl := Option.some.inj hf
    exact hs
  | cons x xs ih =>
    rw [List.foldlM_cons, Option.bind_eq_bind, Option.bind_eq_some_iff] at hf
    obtain ⟨s₁, hx, hf⟩ := hf
    exact ih (h s x s₁ hs hx) hf

structure SymbolsOnly (reader reader' : DebugReader) : Prop where
  files : reader'.info.files = reader.info.files
  lines : reader'.info.lines = reader.info.lines

theorem readSymbol_only {malloc : ℕ → Bool} {elf : ElfObject} {i link j : ℕ}
    {reader reader' : DebugReader} (h : readSymbol malloc elf i link reader j = some reader') :
    SymbolsOnly reader reader' := by
  simp only [readSymbol, Option.bind_eq_bind, Option.bind_eq_some_iff] at h
  obtain ⟨symbol, -, h⟩ := h
  split_ifs at h
  · obtain rfl := Option.some.inj h
    exact ⟨rfl, rfl⟩
  · rw [Option.bind_eq_some_iff] at h
    obtain ⟨name, -, h⟩ := h
    split_ifs at h
    · obtain rfl := Option.some.inj h
      exact ⟨rfl, rfl⟩
    · rw [Option.bind_eq_some_iff] at h
      obtain ⟨copy, -, h⟩ := h
      rw [Option.bind_eq_some_iff] at h
      obtain ⟨capacity, -, h⟩ := h
      obtain rfl := Option.some.inj h
      exact ⟨rfl, rfl⟩

theorem readSection_only {malloc : ℕ → Bool} {elf : ElfObject} {strings i : ℕ}
    {state state' : DebugReader × Bool} (h : readSection malloc elf strings state i = some state') :
    SymbolsOnly state.1 state'.1 := by
  simp only [readSection, Option.bind_eq_bind, Option.bind_eq_some_iff] at h
  obtain ⟨header, -, name, -, h⟩ := h
  generalize (if name = debugLineName ∨ name = zdebugLineName then header.size != 0
    else state.2) = hasDebug at h
  split_ifs at h
  · obtain rfl := Option.some.inj h
    exact ⟨rfl, rfl⟩
  · rw [Option.bind_eq_some_iff] at h
    obtain ⟨names, -, h⟩ := h
    split_ifs at h
    rw [Option.bind_eq_some_iff] at h
    obtain ⟨reader, hfold, h⟩ := h
    obtain rfl := Option.some.inj h
    exact foldlM_preserves (P := SymbolsOnly state.1)
      (fun _ _ _ hs hstep => ⟨(readSymbol_only hstep).files.trans hs.files,
        (readSymbol_only hstep).lines.trans hs.lines⟩) _ ⟨rfl, rfl⟩ hfold

theorem readSymbols_only {malloc : ℕ → Bool} {elf : ElfObject} {reader : DebugReader}
    {state : DebugReader × Bool} (h : readSymbols malloc elf reader = some state) :
    SymbolsOnly reader state.1 := by
  simp only [readSymbols, Option.bind_eq_bind, Option.bind_eq_some_iff] at h
  obtain ⟨count, -, strings, -, h⟩ := h
  exact foldlM_preserves (P := fun s : DebugReader × Bool => SymbolsOnly reader s.1)
    (fun _ _ _ hs hstep => ⟨(readSection_only hstep).files.trans hs.files,
      (readSection_only hstep).lines.trans hs.lines⟩) _ ⟨rfl, rfl⟩ h

/-- A program whose ELF holds the lines of one unit, on a host that grants every allocation. -/
structure OneUnit (host : DebugHost) (program : Program) (table : List (Option CText))
    (rows : List LineRow) : Prop where
  format : program.format = .elf
  ram : memorySizeValid program.memory.size = true
  malloc : ∀ n, host.malloc n = true
  qsort : Sorts compareLines host.qsortLines
  elf : ∃ data elf reader next status, program.elfData = some data ∧ program.elfSize ≠ 0 ∧
    host.elfVersion = true ∧ host.elfMemory (data.take program.elfSize) = some elf ∧
    readSymbols host.malloc elf {} = some (reader, true) ∧
    elf.dwarf = some ⟨[⟨next, table, rows.map LineRow.reported⟩], status⟩ ∧ 0 < next ∧ 0 ≤ status

def pathsOf (table : List (Option CText)) (rows : List LineRow) : List CText :=
  (table.reduceOption ++ (rows.filter LineRow.opens).map LineRow.path).dedup

structure WithinLimits (table : List (Option CText)) (rows : List LineRow) : Prop where
  records : rows.length ≤ maxDebugRecords
  entries : table.length ≤ maxSourceFiles
  files : (pathsOf table rows).length ≤ maxSourceFiles
  text : ∀ p ∈ pathsOf table rows, p.length < maxDebugText

theorem readUnit_eq (malloc : ℕ → Bool) (ramSize : ℕ) (reader : DebugReader) (offset : ℕ)
    (unit : DwarfUnit) : readUnit malloc ramSize (reader, offset) unit =
      if unit.next ≤ offset ∨ unit.rows.length > maxDebugRecords
        ∨ unit.files.length > maxSourceFiles then none
      else (unit.files.foldlM (readFile malloc) reader).bind fun reader =>
        (unit.rows.foldlM (readRow malloc ramSize) (reader, none)).bind fun s =>
          if s.2.isSome then none else some (s.1, unit.next) := rfl

theorem readLines_one {malloc : ℕ → Bool} {elf : ElfObject} {unit : DwarfUnit} {status : ℤ}
    (h : elf.dwarf = some ⟨[unit], status⟩) (hs : 0 ≤ status) (reader : DebugReader)
    (ramSize : ℕ) : readLines malloc elf reader ramSize =
      (readUnit malloc ramSize (reader, 0) unit).map Prod.fst := by
  rw [readLines, h]
  simp only [Option.bind_eq_bind, Option.bind_some, List.foldlM_cons, List.foldlM_nil, hs, ge_iff_le,
    if_true]
  cases readUnit malloc ramSize (reader, 0) unit <;> rfl

section OneUnit

variable {host : DebugHost} {program : Program} {table : List (Option CText)} {rows : List LineRow}

theorem OneUnit.readElfInfo_eq (h : OneUnit host program table rows) :
    ∃ reader next, reader.info.files = [] ∧ reader.info.lines = [] ∧ 0 < next ∧
      readElfInfo host program = (readUnit host.malloc program.memory.size (reader, 0)
        ⟨next, table, rows.map LineRow.reported⟩).map (·.1.info) := by
  obtain ⟨data, elf, reader, next, status, hdata, hsize, hversion, helf, hsymbols, hdwarf, hnext,
    hstatus⟩ := h.elf
  obtain ⟨hfiles, hlines⟩ := readSymbols_only hsymbols
  refine ⟨reader, next, hfiles, hlines, hnext, ?_⟩
  rw [readElfInfo, hdata]
  dsimp only
  rw [if_neg (by simp [hsize, hversion]), helf, Option.bind_eq_bind, Option.bind_some, hsymbols,
    Option.bind_eq_bind, Option.bind_some]
  dsimp only
  rw [if_pos rfl, readLines_one hdwarf hstatus, Option.map_map]
  rfl

theorem debugInfoRead_refused (hformat : program.format = .elf)
    (h : readElfInfo host program = none) (output : DebugInfo) : debugInfoRead host program output =
      (false, some "invalid, oversized, or unavailable ELF debug/symbol metadata", output) := by
  rw [debugInfoRead, if_pos hformat, h]

theorem OneUnit.small (h : OneUnit host program table rows) : program.memory.size < 2 ^ 32 := by
  have hle := ((memorySizeValid_iff _).mp h.ram).2.1
  exact hle.trans_lt (by decide)

theorem OneUnit.readElfInfo_spans (h : OneUnit host program table rows)
    (hmono : rows.Pairwise fun q r => q.key ≤ r.key) (hram : ∀ r ∈ rows, r.key ≤ program.memory.size)
    (hlast : ∀ r ∈ rows.getLast?, r.opens = false) (hlimits : WithinLimits table rows) :
    ∃ next, readElfInfo host program = some next ∧
      List.Forall₂ (Records next.files) next.lines (spans LineRow.key LineRow.opens rows) := by
  obtain ⟨reader, next, hfiles, hlines, hnext, heq⟩ := h.readElfInfo_eq
  have hempty : FilesWithin (pathsOf table rows) reader.info.files := by
    rw [hfiles]
    exact ⟨List.nodup_nil, List.nil_subset _⟩
  have htable : ∀ p, some p ∈ table → p ∈ pathsOf table rows := fun p hp => by
    rw [pathsOf, List.mem_dedup, List.mem_append, List.reduceOption_mem_iff]
    exact .inl hp
  have hpath : ∀ r ∈ rows, r.opens = true → r.path ∈ pathsOf table rows := fun r hr hopen => by
    rw [pathsOf, List.mem_dedup, List.mem_append]
    exact .inr (List.mem_map_of_mem (List.mem_filter.mpr ⟨hr, hopen⟩))
  obtain ⟨reader₁, htab, hw₁, hlines₁⟩ :=
    readTable_spec h.malloc hlimits.files hlimits.text table hempty htable
  rw [hlines] at hlines₁
  have hpends : Pends reader₁.info.files none none := rfl
  obtain ⟨reader₂, hrows, -, ls, hlines₂, hrecords⟩ := readRows_spans h.malloc h.small
    hlimits.files hlimits.text rows hw₁ hpends hmono hram hlast hpath (by
      rw [hlines₁, List.length_nil, Nat.zero_add]
      exact hlimits.records)
  rw [hlines₁, List.nil_append] at hlines₂
  refine ⟨reader₂.info, ?_, hlines₂ ▸ hrecords⟩
  have hallowed : ¬ (next ≤ 0 ∨ (rows.map LineRow.reported).length > maxDebugRecords ∨
      table.length > maxSourceFiles) := by
    rw [List.length_map]
    rintro (h | h | h)
    · omega
    · exact h.not_ge hlimits.records
    · exact h.not_ge hlimits.entries
  rw [heq, readUnit_eq, if_neg hallowed, htab, Option.bind_some, hrows]
  rfl

theorem OneUnit.readElfInfo_malformed (h : OneUnit host program table rows)
    (hbad : Malformed program.memory.size rows) : readElfInfo host program = none := by
  obtain ⟨reader, next, -, -, -, heq⟩ := h.readElfInfo_eq
  rw [heq, Option.map_eq_none_iff, readUnit_eq]
  split_ifs
  · rfl
  · rw [Option.bind_eq_none_iff]
    intro reader₁ _
    rw [Option.bind_eq_none_iff]
    intro state hrows
    exact if_pos (readRows_malformed h.small hbad _ _ hrows)

theorem fileIndex_long {malloc : ℕ → Bool} {reader : DebugReader} {path : CText}
    (hlong : maxDebugText ≤ path.length) (hnew : path ∉ reader.info.files) :
    fileIndex malloc reader (some path) = none := by
  have hfind : reader.info.files.findIdx? (· = path) = none := by
    rw [List.findIdx?_eq_none_iff]
    intro p hp
    rw [decide_eq_false_iff_not]
    rintro rfl
    exact hnew hp
  have hcopy : copyText malloc path = none := if_pos hlong
  rw [fileIndex, hfind]
  dsimp only
  rw [hcopy]
  exact ite_self none

theorem OneUnit.readElfInfo_long {row : LineRow} {rest : List LineRow}
    (h : OneUnit host program [] (row :: rest)) (hopen : row.opens = true)
    (hlong : maxDebugText ≤ row.path.length) : readElfInfo host program = none := by
  obtain ⟨reader, next, hfiles, -, -, heq⟩ := h.readElfInfo_eq
  have hindex : fileIndex host.malloc reader (some row.path) = none :=
    fileIndex_long hlong (by rw [hfiles]; exact List.not_mem_nil)
  have hrow : readRow host.malloc program.memory.size (reader, none) row.reported = none := by
    rw [readRow_reported, closePending, Option.bind_some, if_pos hopen, hindex]
    exact ite_self none
  have hrows : ((row :: rest).map LineRow.reported).foldlM
      (readRow host.malloc program.memory.size) (reader, none) = none := by
    rw [List.map_cons, List.foldlM_cons, hrow]
    rfl
  rw [heq, Option.map_eq_none_iff, readUnit_eq]
  split_ifs
  · rfl
  · simp only [List.foldlM_nil, Option.pure_def, Option.bind_some, hrows, Option.bind_none]

end OneUnit

/-! ## Lookups -/

section Lookups

variable {ramSize : ℕ} (hsize : ramSize < 2 ^ 32) {files : List CText} {rows : List LineRow}
  (hmono : rows.Pairwise fun q r => q.key ≤ r.key) (hram : ∀ r ∈ rows, r.key ≤ ramSize)

include hsize hram in
theorem Records.bounds {l : DebugLine} {s : LineRow × ℕ} (h : Records files l s)
    (hs : s ∈ spans LineRow.key LineRow.opens rows) :
    l.beginAddress.toNat = s.1.key ∧ l.endAddress.toNat = s.2 ∧ s.1.key < s.2 ∧ s.2 ≤ ramSize := by
  obtain ⟨-, hlt, -, b, hb, hend⟩ := spans_bounds hs
  have hle : s.2 ≤ ramSize := hend ▸ hram b hb
  refine ⟨?_, ?_, hlt, hle⟩
  · have hbegin := congrArg DebugLine.beginAddress h.1
    rw [hbegin]
    exact toNat_beginAddress hsize (hlt.le.trans hle) l.file
  · have hlast := congrArg DebugLine.endAddress h.1
    rw [hlast, BitVec.toNat_ofNat]
    exact Nat.mod_eq_of_lt (hle.trans_lt hsize)

include hsize hram in
theorem Records.covers_iff {l : DebugLine} {s : LineRow × ℕ} (h : Records files l s)
    (hs : s ∈ spans LineRow.key LineRow.opens rows) (x : BitVec 32) :
    l.covers x ↔ s.1.key ≤ x.toNat ∧ x.toNat < s.2 := by
  obtain ⟨hbegin, hend, -, -⟩ := h.bounds hsize hram hs
  rw [DebugLine.covers, BitVec.le_def, BitVec.lt_def, hbegin, hend]

variable {ls : List DebugLine}
  (hrecords : List.Forall₂ (Records files) ls (spans LineRow.key LineRow.opens rows))

include hsize hram hmono hrecords in
theorem lines_disjoint : ls.Pairwise fun a b => a.endAddress ≤ b.beginAddress := by
  refine forall₂_pairwise hrecords (spans_disjoint hmono) ?_
  intro a s b t hs ht ha hb hle
  obtain ⟨-, hend, -, -⟩ := ha.bounds hsize hram hs
  obtain ⟨hbegin, -, -, -⟩ := hb.bounds hsize hram ht
  rw [BitVec.le_def, hend, hbegin]
  exact hle

include hsize hram hrecords in
theorem lines_inside (l : DebugLine) (hl : l ∈ ls) :
    l.beginAddress < l.endAddress ∧ l.endAddress.toNat ≤ ramSize := by
  obtain ⟨s, hs, hr⟩ := (forall₂_mem hrecords).1 l hl
  obtain ⟨hbegin, hend, hlt, hle⟩ := hr.bounds hsize hram hs
  rw [BitVec.lt_def, hbegin, hend]
  exact ⟨hlt, hle⟩

include hsize hram hmono hrecords in
theorem lookup_spans {qsort : List DebugLine → List DebugLine} (hq : Sorts compareLines qsort)
    (hlast : ∀ r ∈ rows.getLast?, r.opens = false) {info : DebugInfo} (hfiles : info.files = files)
    (hlines : info.lines = sortAndAnnotate qsort ls) (x : BitVec 32) :
    (debugInfoLookup info x).map (fun l => (info.files[l.file]?, l.line, l.column)) =
      (valueAt LineRow.key LineRow.opens rows x.toNat).map
        fun r => (some r.path, r.line, r.shownColumn) := by
  obtain ⟨hnone, hsome⟩ := lookup_rows hq ls hlines x
  have hvalue := valueAt_eq_some_iff hmono hlast x.toNat
  cases hlookup : debugInfoLookup info x with
  | none =>
    have hno : valueAt LineRow.key LineRow.opens rows x.toNat = none := by
      by_contra hne
      obtain ⟨r, hr⟩ := Option.ne_none_iff_exists'.mp hne
      obtain ⟨e, hs, hx⟩ := (hvalue r).mp hr
      obtain ⟨l, hl, hrec⟩ := (forall₂_mem hrecords).2 _ hs
      exact hnone.mp hlookup l hl ((hrec.covers_iff hsize hram hs x).mpr hx)
    rw [hno]
    rfl
  | some l =>
    obtain ⟨m, hm, hsame, hc, -⟩ := hsome l hlookup
    obtain ⟨⟨r, e⟩, hs, hrec⟩ := (forall₂_mem hrecords).1 m hm
    have hr := (hvalue r).mpr ⟨e, hs, (hrec.covers_iff hsize hram hs x).mp hc⟩
    have hline := congrArg DebugLine.line hrec.1
    have hcolumn := congrArg DebugLine.column hrec.1
    rw [hr, Option.map_some, Option.map_some, hfiles, ← hsame.file, ← hsame.line, ← hsame.column,
      hrec.2, hline, hcolumn]
    rfl

end Lookups

/-! ## An ELF with one unit -/

def lineElf (table : List (Option CText)) (rows : List LineRow) : ElfObject where
  shdrnum := some 2
  shdrstrndx := some 1
  header _ := some { name := 0, type := 1, size := 1, entsize := 0, link := 0 }
  strptr _ _ := some debugLineName
  data _ := true
  symbol _ _ := none
  dwarf := some ⟨[⟨1, table, rows.map LineRow.reported⟩], 1⟩

def lineHost (table : List (Option CText)) (rows : List LineRow) : DebugHost where
  malloc _ := true
  elfVersion := true
  elfMemory _ := some (lineElf table rows)
  qsortLines := List.insertionSort DebugLine.upTo
  qsortSymbols := id

def lineProgram : Program where
  memory := Memory.zeroed 16
  format := .elf
  elfData := some [0]
  elfSize := 1

theorem oneUnit_lineHost (table : List (Option CText)) (rows : List LineRow) :
    OneUnit (lineHost table rows) lineProgram table rows where
  format := rfl
  ram := by decide
  malloc _ := rfl
  qsort := sorts_insertionSort
  elf := ⟨[0], lineElf table rows, {}, 1, 1, rfl, by decide, rfl, rfl, rfl, rfl, by decide, by decide⟩

/-! ## The whole way -/

/-- The rows of one unit become disjoint ranges inside RAM, and a lookup answers the last row at or
before the address, if that row is a source statement. Malformed rows are refused. -/
theorem source_mapping {host : DebugHost} {program : Program} {table : List (Option CText)}
    {rows : List LineRow} (h : OneUnit host program table rows) (output : DebugInfo) :
    (rows.Pairwise (fun q r => q.key ≤ r.key) → (∀ r ∈ rows, r.key ≤ program.memory.size) →
      (∀ r ∈ rows.getLast?, r.opens = false) → WithinLimits table rows →
      ∃ read info, readElfInfo host program = some read ∧
        (read.lines.Pairwise fun a b => a.endAddress ≤ b.beginAddress) ∧
        (∀ l ∈ read.lines, l.beginAddress < l.endAddress ∧
          l.endAddress.toNat ≤ program.memory.size) ∧
        debugInfoRead host program output = (true, none, info) ∧
        ∀ x : BitVec 32,
          (debugInfoLookup info x).map (fun l => (info.files[l.file]?, l.line, l.column)) =
            (valueAt LineRow.key LineRow.opens rows x.toNat).map
              fun r => (some r.path, r.line, r.shownColumn)) ∧
    (Malformed program.memory.size rows → debugInfoRead host program output =
      (false, some "invalid, oversized, or unavailable ELF debug/symbol metadata", output)) := by
  constructor
  · intro hmono hram hlast hlimits
    obtain ⟨read, hread, hrecords⟩ := h.readElfInfo_spans hmono hram hlast hlimits
    refine ⟨read, _, hread, lines_disjoint h.small hmono hram hrecords,
      lines_inside h.small hram hrecords, by rw [debugInfoRead, if_pos h.format, hread], ?_⟩
    exact lookup_spans h.small hmono hram hrecords h.qsort hlast rfl rfl
  · intro hbad
    exact debugInfoRead_refused h.format (h.readElfInfo_malformed hbad) output

/-- A statement that a second row at its address replaces, and a line-0 row before the end. -/
def replacedRows : List LineRow :=
  [⟨0, false, 3, 1, [0x61]⟩, ⟨4, false, 7, 1, [0x61]⟩, ⟨4, false, 9, 2, [0x62]⟩,
    ⟨8, false, 0, 0, [0x62]⟩, ⟨12, true, 0, 0, [0x62]⟩]

theorem source_mapping_replacedRows :
    ∃ info, debugInfoRead (lineHost [] replacedRows) lineProgram {} = (true, none, info) ∧
      (debugInfoLookup info 6).map (fun l => (info.files[l.file]?, l.line, l.column)) =
        some (some [0x62], 9, 2) := by
  obtain ⟨-, info, -, -, -, hread, hlookup⟩ :=
    (source_mapping (oneUnit_lineHost [] replacedRows) {}).1 (by decide) (by decide) (by decide)
      ⟨by decide, by decide, by decide, by decide⟩
  exact ⟨info, hread, (hlookup 6).trans (by decide)⟩

/-- A row whose line, a C integer, is -1. -/
def negativeLine : List LineRow := [⟨0, false, -1, 1, [0x61]⟩, ⟨4, true, 0, 0, [0x61]⟩]

def longPath : List LineRow := [⟨0, false, 1, 1, List.replicate 4096 0x61⟩, ⟨4, true, 0, 0, [0x61]⟩]

/-- A row with a negative line is no source statement, and one with a long path is refused. -/
theorem negativeLine_unmapped_and_longPath_refused :
    ((∃ info, debugInfoRead (lineHost [] negativeLine) lineProgram {} = (true, none, info) ∧
        debugInfoLookup info 0 = none) ∧
      ∃ r, lastAt LineRow.key negativeLine 0 = some r ∧ r.endSequence = false ∧ r.line ≠ 0) ∧
    debugInfoRead (lineHost [] longPath) lineProgram {} =
      (false, some "invalid, oversized, or unavailable ELF debug/symbol metadata", {}) := by
  have hempty : debugInfoLookup {} 0 = none := by
    have hsearch : Searchable [] := ⟨.nil, .nil, List.forall_mem_nil _⟩
    exact (hsearch.lookup 0).1.mpr (List.forall_mem_nil _)
  refine ⟨⟨⟨{}, rfl, hempty⟩, _, rfl, rfl, by decide⟩, ?_⟩
  have hlong := (oneUnit_lineHost [] longPath).readElfInfo_long rfl
    (by rw [List.length_replicate]; exact le_rfl)
  exact debugInfoRead_refused rfl hlong {}

end Riscv32
