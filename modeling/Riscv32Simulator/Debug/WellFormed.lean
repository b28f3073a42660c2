import Riscv32Simulator.Debug.SourceMap

/-! What debug information is like once it has been read, whatever libelf and libdw answer. -/

namespace Riscv32

structure Placed (files : List CText) (l : DebugLine) : Prop where
  file : l.file < files.length
  line : 0 < l.line.toInt
  column : 0 ≤ l.column.toInt

structure Ranged (files : List CText) (ramSize : ℕ) (l : DebugLine) : Prop where
  placed : Placed files l
  nonempty : l.beginAddress < l.endAddress
  inside : l.endAddress.toNat ≤ ramSize

def Named (s : DebugSymbol) : Prop := s.name ≠ [] ∧ s.name.length < maxDebugText

structure Collected (ramSize : ℕ) (reader : DebugReader) : Prop where
  nodup : reader.info.files.Nodup
  fileCount : reader.info.files.length ≤ maxSourceFiles
  paths : ∀ p ∈ reader.info.files, p.length < maxDebugText
  lines : ∀ l ∈ reader.info.lines, Ranged reader.info.files ramSize l
  lineCount : reader.info.lines.length ≤ maxDebugRecords
  lineCapacity : reader.lineCapacity ≤ maxDebugRecords
  symbols : ∀ s ∈ reader.info.symbols, Named s
  symbolCount : reader.info.symbols.length ≤ maxDebugRecords
  symbolCapacity : reader.symbolCapacity ≤ maxDebugRecords

theorem collected_empty (ramSize : ℕ) : Collected ramSize {} := by
  constructor <;> simp

theorem Placed.mono {files files' : List CText} {l : DebugLine} (h : Placed files l)
    (hf : files <+: files') : Placed files' l :=
  ⟨h.file.trans_le hf.length_le, h.line, h.column⟩

theorem Ranged.mono {files files' : List CText} {ramSize : ℕ} {l : DebugLine}
    (h : Ranged files ramSize l) (hf : files <+: files') : Ranged files' ramSize l :=
  ⟨h.placed.mono hf, h.nonempty, h.inside⟩

section Storage

variable {malloc : ℕ → Bool} {ramSize : ℕ}

theorem reserve_le {count capacity width next : ℕ}
    (h : reserve malloc count capacity width = some next) (hc : capacity ≤ maxDebugRecords) :
    count < maxDebugRecords ∧ next ≤ maxDebugRecords := by
  unfold reserve at h
  dsimp only at h
  split_ifs at h <;> obtain rfl := Option.some.inj h <;> omega

theorem copyText_eq {text copy : CText} (h : copyText malloc text = some copy) :
    copy = text ∧ text.length < maxDebugText := by
  unfold copyText at h
  split_ifs at h with hlong
  exact ⟨(Option.some.inj h).symm, not_le.mp hlong⟩

theorem Collected.fileIndex {reader reader' : DebugReader} {path : Option CText} {i : ℕ}
    (h : Collected ramSize reader) (hindex : fileIndex malloc reader path = some (i, reader')) :
    Collected ramSize reader' ∧ reader.info.files <+: reader'.info.files ∧
      i < reader'.info.files.length := by
  unfold Riscv32.fileIndex at hindex
  cases path with
  | none => cases hindex
  | some path =>
    dsimp only at hindex
    cases hfind : reader.info.files.findIdx? (· = path) with
    | some j =>
      rw [hfind] at hindex
      obtain ⟨rfl, rfl⟩ := Prod.mk.inj (Option.some.inj hindex)
      exact ⟨h, List.prefix_rfl, (List.findIdx?_eq_some_iff_findIdx_eq.mp hfind).1⟩
    | none =>
      rw [hfind] at hindex
      have hnew : path ∉ reader.info.files := by
        intro hmem
        simpa using List.findIdx?_eq_none_iff.mp hfind path hmem
      dsimp only at hindex
      split_ifs at hindex with hfull
      simp only [Option.bind_eq_bind, Option.bind_eq_some_iff, Option.pure_def,
        Option.some.injEq, Prod.mk.injEq] at hindex
      obtain ⟨copy, hcopy, capacity, -, rfl, rfl⟩ := hindex
      obtain ⟨rfl, htext⟩ := copyText_eq hcopy
      have hprefix : reader.info.files <+: reader.info.files ++ [copy] := List.prefix_append ..
      refine ⟨⟨?_, ?_, ?_, fun l hl => (h.lines l hl).mono hprefix, h.lineCount, h.lineCapacity,
        h.symbols, h.symbolCount, h.symbolCapacity⟩, hprefix, by simp⟩
      · refine List.Nodup.append h.nodup (List.nodup_singleton _) ?_
        simpa using hnew
      · rw [List.length_append, List.length_singleton]
        omega
      · rintro p hp
        rcases List.mem_append.mp hp with hp | hp
        · exact h.paths p hp
        · rwa [List.mem_singleton.mp hp]

theorem Collected.closeRange {reader reader' : DebugReader} {previous : DebugLine}
    {address : BitVec 64} (hsize : ramSize < 2 ^ 32) (h : Collected ramSize reader)
    (hp : Placed reader.info.files previous) (ha : address.toNat ≤ ramSize)
    (hclose : closeRange malloc reader previous address = some reader') :
    Collected ramSize reader' ∧ reader'.info.files = reader.info.files := by
  unfold Riscv32.closeRange at hclose
  split_ifs at hclose with hback hlater
  · simp only [Option.bind_eq_bind, Option.bind_eq_some_iff, Option.pure_def,
      Option.some.injEq] at hclose
    obtain ⟨capacity, hreserve, rfl⟩ := hclose
    obtain ⟨hcount, hcapacity⟩ := reserve_le hreserve h.lineCapacity
    have hend : (address.setWidth 32).toNat = address.toNat := by
      rw [BitVec.toNat_setWidth]
      exact Nat.mod_eq_of_lt (by omega)
    refine ⟨⟨h.nodup, h.fileCount, h.paths, ?_, ?_, hcapacity, h.symbols, h.symbolCount,
      h.symbolCapacity⟩, rfl⟩
    · intro l hl
      rcases List.mem_append.mp hl with hl | hl
      · exact h.lines l hl
      · rw [List.mem_singleton.mp hl]
        refine ⟨⟨hp.file, hp.line, hp.column⟩, ?_, ?_⟩
        · rw [BitVec.lt_def, hend]
          exact hlater
        · rw [hend]
          exact ha
    · rw [List.length_append, List.length_singleton]
      omega
  · obtain rfl := Option.some.inj hclose
    exact ⟨h, rfl⟩

structure RowsRead (ramSize : ℕ) (state : DebugReader × Option DebugLine) : Prop where
  collected : Collected ramSize state.1
  pending : ∀ l ∈ state.2, Placed state.1.info.files l

theorem readRow_eq (state : DebugReader × Option DebugLine) (row : Option DwarfRow) :
    readRow malloc ramSize state row = row.bind fun row =>
      row.address.bind fun address => row.endSequence.bind fun ending =>
        if address.toNat > ramSize then none
        else (state.2.elim (some state.1) fun previous =>
            closeRange malloc state.1 previous address).bind fun reader =>
          if ending then some (reader, none)
          else row.line.bind fun line => row.column.bind fun column =>
            if 0 < line.toInt then (fileIndex malloc reader row.path).bind fun i => some (i.2, some {
              beginAddress := address.setWidth 32
              file := i.1
              line := line
              column := if 0 < column.toInt then column else 0 })
            else some (reader, none) := by
  obtain ⟨reader, pending⟩ := state
  cases pending <;> rfl

theorem RowsRead.readRow {state state' : DebugReader × Option DebugLine} {row : Option DwarfRow}
    (hsize : ramSize < 2 ^ 32) (h : RowsRead ramSize state)
    (hrow : readRow malloc ramSize state row = some state') : RowsRead ramSize state' := by
  rw [readRow_eq] at hrow
  simp only [Option.bind_eq_some_iff] at hrow
  obtain ⟨row, -, address, -, ending, -, hrow⟩ := hrow
  obtain ⟨hram, hrow⟩ := Option.ite_none_left_eq_some.mp hrow
  obtain ⟨reader, hclose, hrow⟩ := Option.bind_eq_some_iff.mp hrow
  have hreader : Collected ramSize reader := by
    cases hpending : state.2 with
    | none =>
      rw [hpending] at hclose
      obtain rfl := Option.some.inj hclose
      exact h.collected
    | some previous =>
      rw [hpending] at hclose
      exact (h.collected.closeRange hsize (h.pending previous hpending) (not_lt.mp hram) hclose).1
  cases ending with
  | true =>
    obtain rfl := Option.some.inj hrow
    exact ⟨hreader, by simp⟩
  | false =>
    simp only [Bool.false_eq_true, if_false, Option.bind_eq_some_iff] at hrow
    obtain ⟨line, -, column, -, hrow⟩ := hrow
    by_cases hline : 0 < line.toInt
    · rw [if_pos hline] at hrow
      obtain ⟨⟨i, grown⟩, hindex, hrow⟩ := Option.bind_eq_some_iff.mp hrow
      obtain rfl := Option.some.inj hrow
      obtain ⟨hgrown, -, hi⟩ := hreader.fileIndex hindex
      refine ⟨hgrown, fun l hl => ?_⟩
      obtain rfl := Option.some.inj hl
      refine ⟨hi, hline, ?_⟩
      dsimp only
      split_ifs with hcolumn
      · exact hcolumn.le
      · exact le_rfl
    · rw [if_neg hline] at hrow
      obtain rfl := Option.some.inj hrow
      exact ⟨hreader, by simp⟩

theorem Collected.readFile {reader reader' : DebugReader} {path : Option CText}
    (h : Collected ramSize reader) (hread : readFile malloc reader path = some reader') :
    Collected ramSize reader' := by
  cases path with
  | none =>
    obtain rfl := Option.some.inj hread
    exact h
  | some path =>
    obtain ⟨⟨i, grown⟩, hindex, rfl⟩ := Option.map_eq_some_iff.mp hread
    exact (h.fileIndex hindex).1

theorem Collected.readUnit {state state' : DebugReader × ℕ} {unit : DwarfUnit}
    (hsize : ramSize < 2 ^ 32) (h : Collected ramSize state.1)
    (hread : readUnit malloc ramSize state unit = some state') : Collected ramSize state'.1 := by
  obtain ⟨reader, offset⟩ := state
  rw [readUnit_eq] at hread
  split_ifs at hread
  obtain ⟨reader₁, hfiles, hread⟩ := Option.bind_eq_some_iff.mp hread
  obtain ⟨scanned, hrows, hread⟩ := Option.bind_eq_some_iff.mp hread
  split_ifs at hread
  obtain rfl := Option.some.inj hread
  have h₁ : Collected ramSize reader₁ :=
    foldlM_preserves (fun _ _ _ hs hf => hs.readFile hf) _ h hfiles
  have hstart : RowsRead ramSize (reader₁, none) := ⟨h₁, by simp⟩
  exact (foldlM_preserves (fun _ _ _ hs hf => hs.readRow hsize hf) _ hstart hrows).collected

theorem Collected.readLines {elf : ElfObject} {reader reader' : DebugReader}
    (hsize : ramSize < 2 ^ 32) (h : Collected ramSize reader)
    (hread : readLines malloc elf reader ramSize = some reader') : Collected ramSize reader' := by
  simp only [Riscv32.readLines, Option.bind_eq_bind, Option.bind_eq_some_iff] at hread
  obtain ⟨dwarf, -, ⟨last, offset⟩, hunits, hread⟩ := hread
  split_ifs at hread
  obtain rfl := Option.some.inj hread
  exact foldlM_preserves (P := fun s : DebugReader × ℕ => Collected ramSize s.1)
    (fun _ _ _ hs hf => hs.readUnit hsize hf) _ h hunits

theorem Collected.readSymbol {elf : ElfObject} {i link j : ℕ} {reader reader' : DebugReader}
    (h : Collected ramSize reader) (hread : readSymbol malloc elf i link reader j = some reader') :
    Collected ramSize reader' := by
  simp only [Riscv32.readSymbol, Option.bind_eq_bind, Option.bind_eq_some_iff] at hread
  obtain ⟨symbol, -, hread⟩ := hread
  split_ifs at hread
  · obtain rfl := Option.some.inj hread
    exact h
  · obtain ⟨name, -, hread⟩ := Option.bind_eq_some_iff.mp hread
    split_ifs at hread with hname
    · obtain rfl := Option.some.inj hread
      exact h
    · simp only [Option.bind_eq_some_iff] at hread
      obtain ⟨copy, hcopy, capacity, hreserve, hread⟩ := hread
      obtain rfl := Option.some.inj hread
      obtain ⟨rfl, htext⟩ := copyText_eq hcopy
      obtain ⟨hcount, hcapacity⟩ := reserve_le hreserve h.symbolCapacity
      refine ⟨h.nodup, h.fileCount, h.paths, h.lines, h.lineCount, h.lineCapacity, ?_, ?_, hcapacity⟩
      · intro s hs
        rcases List.mem_append.mp hs with hs | hs
        · exact h.symbols s hs
        · rw [List.mem_singleton.mp hs]
          exact ⟨hname, htext⟩
      · rw [List.length_append, List.length_singleton]
        omega

theorem Collected.readSection {elf : ElfObject} {strings i : ℕ} {state state' : DebugReader × Bool}
    (h : Collected ramSize state.1) (hread : readSection malloc elf strings state i = some state') :
    Collected ramSize state'.1 := by
  simp only [Riscv32.readSection, Option.bind_eq_bind, Option.bind_eq_some_iff] at hread
  obtain ⟨header, -, name, -, hread⟩ := hread
  generalize (if name = debugLineName ∨ name = zdebugLineName then header.size != 0
    else state.2) = hasDebug at hread
  split_ifs at hread
  · obtain rfl := Option.some.inj hread
    exact h
  · obtain ⟨names, -, hread⟩ := Option.bind_eq_some_iff.mp hread
    split_ifs at hread
    obtain ⟨reader, hsymbols, hread⟩ := Option.bind_eq_some_iff.mp hread
    obtain rfl := Option.some.inj hread
    exact foldlM_preserves (fun _ _ _ hs hf => hs.readSymbol hf) _ h hsymbols

theorem Collected.readSymbols {elf : ElfObject} {reader : DebugReader} {state : DebugReader × Bool}
    (h : Collected ramSize reader) (hread : readSymbols malloc elf reader = some state) :
    Collected ramSize state.1 := by
  simp only [Riscv32.readSymbols, Option.bind_eq_bind, Option.bind_eq_some_iff] at hread
  obtain ⟨count, -, strings, -, hread⟩ := hread
  exact foldlM_preserves (P := fun s : DebugReader × Bool => Collected ramSize s.1)
    (fun _ _ _ hs hf => hs.readSection hf) _ h hread

end Storage

/-! ## Symbols can be sorted -/

/-- The order of texts that are continued by null bytes. -/
def textUpTo : CText → CText → Bool
  | [], _ => true
  | c :: s, [] => c = 0 && textUpTo s []
  | c :: s, d :: t => c < d || c = d && textUpTo s t

theorem textUpTo_total (s t : CText) : textUpTo s t = true ∨ textUpTo t s = true := by
  induction s generalizing t with
  | nil => exact .inl (by rw [textUpTo])
  | cons c s ih =>
    cases t with
    | nil => exact .inr (by rw [textUpTo])
    | cons d t =>
      simp only [textUpTo, Bool.or_eq_true, Bool.and_eq_true, decide_eq_true_eq]
      have hst := ih t
      rcases BitVec.le_total c d with h | h
      all_goals
        by_cases hcd : c = d
        · tauto
        · have hlt := BitVec.lt_of_le_ne h (by tauto)
          tauto

theorem textUpTo_trans {s t u : CText} (h : textUpTo s t = true) (h' : textUpTo t u = true) :
    textUpTo s u = true := by
  induction s generalizing t u with
  | nil => rw [textUpTo]
  | cons c s ih =>
    cases t with
    | nil =>
      simp only [textUpTo, Bool.and_eq_true, decide_eq_true_eq] at h
      obtain ⟨rfl, hs⟩ := h
      cases u with
      | nil => simp [textUpTo, hs]
      | cons e u =>
        have hrest := ih (u := u) hs (by rw [textUpTo])
        simp only [textUpTo, Bool.or_eq_true, Bool.and_eq_true, decide_eq_true_eq]
        by_cases he : (0#8) = e
        · exact .inr ⟨he, hrest⟩
        · exact .inl (by bv_omega)
    | cons d t =>
      simp only [textUpTo, Bool.or_eq_true, Bool.and_eq_true, decide_eq_true_eq] at h
      cases u with
      | nil =>
        simp only [textUpTo, Bool.and_eq_true, decide_eq_true_eq] at h' ⊢
        obtain ⟨rfl, ht⟩ := h'
        rcases h with h | ⟨rfl, hs⟩
        · exact absurd h (by bv_omega)
        · exact ⟨rfl, ih hs ht⟩
      | cons e u =>
        simp only [textUpTo, Bool.or_eq_true, Bool.and_eq_true, decide_eq_true_eq] at h' ⊢
        rcases h with h | ⟨rfl, hs⟩ <;> rcases h' with h' | ⟨rfl, ht⟩
        · exact .inl (by bv_omega)
        · exact .inl h
        · exact .inl h'
        · exact .inr ⟨rfl, ih hs ht⟩

theorem strcmp_nonpos {s t : CText} (h : textUpTo s t = true) : strcmp s t ≤ 0 := by
  induction s generalizing t with
  | nil => cases t <;> simp [strcmp]
  | cons c s ih =>
    cases t with
    | nil =>
      simp only [textUpTo, Bool.and_eq_true, decide_eq_true_eq] at h
      simp [strcmp, h.1]
    | cons d t =>
      simp only [textUpTo, Bool.or_eq_true, Bool.and_eq_true, decide_eq_true_eq] at h
      rw [strcmp]
      split_ifs with hcd
      · rcases h with h | ⟨-, h⟩
        · exact absurd h (by bv_omega)
        · exact ih h
      · rcases h with h | ⟨h, -⟩
        · bv_omega
        · exact absurd h hcd

def DebugSymbol.upTo (a b : DebugSymbol) : Prop :=
  a.address < b.address ∨ a.address = b.address ∧ textUpTo a.name b.name = true

instance : DecidableRel DebugSymbol.upTo := fun _ _ => inferInstanceAs (Decidable (_ ∨ _))

theorem DebugSymbol.upTo_total (a b : DebugSymbol) : a.upTo b ∨ b.upTo a := by
  have hname := textUpTo_total a.name b.name
  simp only [DebugSymbol.upTo]
  by_cases h : a.address = b.address
  · tauto
  · have hlt : a.address < b.address ∨ b.address < a.address := by bv_omega
    tauto

theorem DebugSymbol.upTo_trans {a b c : DebugSymbol} (h : a.upTo b) (h' : b.upTo c) : a.upTo c := by
  rcases h with h | ⟨h, hn⟩ <;> rcases h' with h' | ⟨h', hn'⟩
  · exact .inl (by bv_omega)
  · exact .inl (by bv_omega)
  · exact .inl (by bv_omega)
  · exact .inr ⟨h.trans h', textUpTo_trans hn hn'⟩

theorem compareSymbols_nonpos {a b : DebugSymbol} (h : a.upTo b) : compareSymbols a b ≤ 0 := by
  unfold compareSymbols
  rcases h with h | ⟨h, hn⟩
  · have hne : a.address ≠ b.address := by bv_omega
    rw [if_pos hne, if_pos h]
    decide
  · rw [if_neg (not_not.mpr h)]
    exact strcmp_nonpos hn

theorem sorts_symbols : Sorts compareSymbols (List.insertionSort DebugSymbol.upTo) := by
  have : Std.Total DebugSymbol.upTo := ⟨DebugSymbol.upTo_total⟩
  have : IsTrans DebugSymbol DebugSymbol.upTo := ⟨fun _ _ _ => DebugSymbol.upTo_trans⟩
  intro xs
  refine ⟨List.perm_insertionSort _ xs, ?_⟩
  exact (List.pairwise_insertionSort _ xs).imp fun h => compareSymbols_nonpos h

/-! ## The result -/

/-- Debug information that can be used without further checks. -/
structure WellFormed (ramSize : ℕ) (info : DebugInfo) : Prop where
  files : info.files.Nodup ∧ info.files.length ≤ maxSourceFiles ∧
    ∀ p ∈ info.files, p.length < maxDebugText
  lines : ∀ l ∈ info.lines, Ranged info.files ramSize l
  lineCount : info.lines.length ≤ maxDebugRecords
  searchable : Searchable info.lines
  symbols : ∀ s ∈ info.symbols, Named s
  symbolCount : info.symbols.length ≤ maxDebugRecords
  symbolOrder : info.symbols.Pairwise fun a b => compareSymbols a b ≤ 0

theorem readElfInfo_collected {host : DebugHost} {program : Program} {info : DebugInfo}
    (hsize : program.memory.size < 2 ^ 32) (h : readElfInfo host program = some info) :
    ∃ reader, Collected program.memory.size reader ∧ reader.info = info := by
  unfold readElfInfo at h
  cases hdata : program.elfData with
  | none =>
    rw [hdata] at h
    cases h
  | some data =>
    rw [hdata] at h
    dsimp only at h
    obtain ⟨-, h⟩ := Option.ite_none_left_eq_some.mp h
    simp only [Option.bind_eq_bind, Option.bind_eq_some_iff] at h
    obtain ⟨elf, -, ⟨reader, hasDebug⟩, hsymbols, h⟩ := h
    have hreader : Collected program.memory.size reader :=
      (collected_empty _).readSymbols hsymbols
    split_ifs at h
    · obtain ⟨reader', hlines, rfl⟩ := Option.map_eq_some_iff.mp h
      exact ⟨reader', hreader.readLines hsize hlines, rfl⟩
    · exact ⟨reader, hreader, Option.some.inj h⟩

theorem SameLine.ranged {a b : DebugLine} (h : SameLine a b) {files : List CText} {ramSize : ℕ}
    (ha : Ranged files ramSize a) : Ranged files ramSize b := by
  refine ⟨⟨?_, ?_, ?_⟩, ?_, ?_⟩
  · rw [← h.file]
    exact ha.placed.file
  · rw [← h.line]
    exact ha.placed.line
  · rw [← h.column]
    exact ha.placed.column
  · rw [← h.beginAddress, ← h.endAddress]
    exact ha.nonempty
  · rw [← h.endAddress]
    exact ha.inside

theorem length_sortAndAnnotate {qsort : List DebugLine → List DebugLine}
    (hq : Sorts compareLines qsort) (rows : List DebugLine) :
    (sortAndAnnotate qsort rows).length = rows.length := by
  obtain ⟨sorted, hperm, -, heq⟩ := sortAndAnnotate_sorted hq rows
  rw [heq, ← (annotate_same 0 sorted).length_eq, hperm.length_eq]

theorem Collected.wellFormed {ramSize : ℕ} {reader : DebugReader} (h : Collected ramSize reader)
    {host : DebugHost} (hlines : Sorts compareLines host.qsortLines)
    (hsymbols : Sorts compareSymbols host.qsortSymbols) :
    WellFormed ramSize { reader.info with
      lines := sortAndAnnotate host.qsortLines reader.info.lines
      symbols := if reader.info.symbols.length > 1 then host.qsortSymbols reader.info.symbols
        else reader.info.symbols } := by
  obtain ⟨hsearch, -, hrows⟩ := sortAndAnnotate_spec hlines reader.info.lines
  obtain ⟨hperm, hsorted⟩ := hsymbols reader.info.symbols
  refine ⟨⟨h.nodup, h.fileCount, h.paths⟩, ?_, ?_, hsearch, ?_, ?_, ?_⟩
  · intro l hl
    obtain ⟨r, hr, hsame⟩ := hrows l hl
    exact hsame.ranged (h.lines r hr)
  · rw [length_sortAndAnnotate hlines]
    exact h.lineCount
  · dsimp only
    split_ifs
    · exact fun s hs => h.symbols s (hperm.mem_iff.mp hs)
    · exact h.symbols
  · dsimp only
    split_ifs
    · rw [hperm.length_eq]
      exact h.symbolCount
    · exact h.symbolCount
  · dsimp only
    split_ifs with hmany
    · exact hsorted
    · rcases hcases : reader.info.symbols with _ | ⟨s, _ | ⟨s', rest⟩⟩
      · exact .nil
      · exact List.pairwise_singleton ..
      · rw [hcases] at hmany
        simp at hmany

/-- Whatever the libraries answer and whichever allocations fail: information that is read is well
formed, and each of its rows has the greatest end of the rows up to it. -/
theorem debugInfoRead_wellFormed {host : DebugHost} {program : Program}
    (hsize : memorySizeValid program.memory.size = true) (hlines : Sorts compareLines host.qsortLines)
    (hsymbols : Sorts compareSymbols host.qsortSymbols) {output info : DebugInfo}
    {error : Option String} (h : debugInfoRead host program output = (true, error, info)) :
    WellFormed program.memory.size info ∧ RunningMaximum info.lines := by
  have hsmall : program.memory.size < 2 ^ 32 :=
    ((memorySizeValid_iff _).mp hsize).2.1.trans_lt (by decide)
  have hinfo : ∀ next, (if program.format = .elf then readElfInfo host program else some {}) = some next →
      ∃ reader, Collected program.memory.size reader ∧ reader.info = next := by
    intro next hnext
    split_ifs at hnext
    · exact readElfInfo_collected hsmall hnext
    · exact ⟨{}, collected_empty _, Option.some.inj hnext⟩
  unfold debugInfoRead at h
  generalize (if program.format = .elf then readElfInfo host program else some {}) = read at h hinfo
  cases read with
  | none => cases h
  | some next =>
    obtain ⟨reader, hreader, rfl⟩ := hinfo next rfl
    obtain ⟨-, hrest⟩ := Prod.mk.inj h
    obtain ⟨-, rfl⟩ := Prod.mk.inj hrest
    exact ⟨hreader.wellFormed hlines hsymbols, runningMaximum_annotate _⟩

def replacedInfo : Bool × Option String × DebugInfo :=
  debugInfoRead { lineHost [] replacedRows with
    qsortSymbols := List.insertionSort DebugSymbol.upTo } lineProgram {}

theorem debugInfoRead_wellFormed_replacedRows :
    WellFormed 16 replacedInfo.2.2 ∧ RunningMaximum replacedInfo.2.2.lines := by
  have hread : replacedInfo = (true, none, replacedInfo.2.2) := by
    decide +kernel
  exact debugInfoRead_wellFormed (by decide) sorts_insertionSort sorts_symbols hread

/-! ## Addresses of lines, and lines of addresses -/

section RoundTrip

variable {ramSize : ℕ} {info : DebugInfo}

theorem WellFormed.line_of_address (h : WellFormed ramSize info) {b : BitVec 32} {l : DebugLine}
    (hl : debugInfoLookup info b = some l) : l.file < info.files.length ∧ b.toNat < ramSize ∧
      ∃ a, debugInfoLineAddress info l.file l.line = some a ∧ a ≤ b := by
  obtain ⟨hmem, hcovers, -⟩ := (h.searchable.lookup b).2 l hl
  have hranged := h.lines l hmem
  have hinside := hranged.inside
  obtain ⟨hnone, hsome⟩ := h.searchable.lineAddress l.file l.line
  refine ⟨hranged.placed.file, ?_, ?_⟩
  · have hlt := hcovers.2
    bv_omega
  · cases ha : debugInfoLineAddress info l.file l.line with
    | none => exact absurd ⟨rfl, rfl⟩ (hnone.mp ha l hmem)
    | some a => exact ⟨a, rfl, BitVec.le_trans ((hsome a ha).2 l hmem rfl rfl) hcovers.1⟩

theorem WellFormed.address_of_line (h : WellFormed ramSize info) {file : ℕ} {line a : BitVec 32}
    (ha : debugInfoLineAddress info file line = some a) : file < info.files.length ∧ a.toNat < ramSize ∧
      ∃ l, debugInfoLookup info a = some l ∧ l.beginAddress = a ∧
        ∀ r ∈ info.lines, r.beginAddress = a → r.endAddress ≤ l.endAddress := by
  obtain ⟨⟨r, hr, rfl, rfl, rfl⟩, -⟩ := (h.searchable.lineAddress file line).2 a ha
  have hranged := h.lines r hr
  have hinside := hranged.inside
  have hcovers : r.covers r.beginAddress := ⟨BitVec.le_refl _, hranged.nonempty⟩
  obtain ⟨hnone, hsome⟩ := h.searchable.lookup r.beginAddress
  refine ⟨hranged.placed.file, ?_, ?_⟩
  · have hlt := hranged.nonempty
    bv_omega
  · cases hl : debugInfoLookup info r.beginAddress with
    | none => exact absurd hcovers (hnone.mp hl r hr)
    | some l =>
      obtain ⟨-, hlcovers, hlast⟩ := hsome l hl
      have hbegin : l.beginAddress = r.beginAddress :=
        BitVec.le_antisymm hlcovers.1 (hlast r hr hcovers).begin_le
      refine ⟨l, rfl, hbegin, fun r' hr' hr'begin => ?_⟩
      have hr'covers : r'.covers r.beginAddress := by
        refine ⟨BitVec.le_of_eq hr'begin, ?_⟩
        rw [← hr'begin]
        exact (h.lines r' hr').nonempty
      exact (hlast r' hr' hr'covers).end_le (hr'begin.trans hbegin.symm)

/-- The address shown for a line is mapped by the longest row that begins there, so it leads back to
the line where no row of another line begins there. The line shown for an address has
an address itself, not above the one asked for. -/
theorem source_leads_back (h : WellFormed ramSize info) :
    (∀ file line a, debugInfoLineAddress info file line = some a →
      file < info.files.length ∧ a.toNat < ramSize ∧
      ∃ l, debugInfoLookup info a = some l ∧ l.beginAddress = a ∧
        (∀ r ∈ info.lines, r.beginAddress = a → r.endAddress ≤ l.endAddress) ∧
        ((∀ r ∈ info.lines, r.beginAddress = a → r.file = file ∧ r.line = line) →
          l.file = file ∧ l.line = line)) ∧
    ∀ b l, debugInfoLookup info b = some l → l.file < info.files.length ∧ b.toNat < ramSize ∧
      ∃ a, debugInfoLineAddress info l.file l.line = some a ∧ a ≤ b := by
  constructor
  · intro file line a ha
    obtain ⟨hfile, hram, l, hl, hbegin, hends⟩ := h.address_of_line ha
    refine ⟨hfile, hram, l, hl, hbegin, hends, fun hown => hown l ?_ hbegin⟩
    exact ((h.searchable.lookup a).2 l hl).1
  · exact fun b l => h.line_of_address

def twoLines : DebugInfo where
  files := [[0x61]]
  lines := [⟨0, 4, 4, 0, 3, 1⟩, ⟨4, 8, 8, 0, 5, 1⟩]

theorem source_leads_back_twoLines :
    ∃ l, debugInfoLookup twoLines 4 = some l ∧ l.file = 0 ∧ l.line = 5 := by
  have hranged : ∀ l ∈ twoLines.lines, Ranged twoLines.files 16 l := by
    intro l hl
    have hall : ∀ l ∈ twoLines.lines, l.file < twoLines.files.length ∧ 0 < l.line.toInt ∧
        0 ≤ l.column.toInt ∧ l.beginAddress < l.endAddress ∧ l.endAddress.toNat ≤ 16 := by decide
    obtain ⟨h1, h2, h3, h4, h5⟩ := hall l hl
    exact ⟨⟨h1, h2, h3⟩, h4, h5⟩
  have hwell : WellFormed 16 twoLines :=
    ⟨⟨by decide, by decide, by decide⟩, hranged, by decide, ⟨by decide, by decide, by decide⟩,
      List.forall_mem_nil _, by decide, .nil⟩
  obtain ⟨-, -, l, hl, -, -, hown⟩ := (source_leads_back hwell).1 0 5 4 (by decide)
  exact ⟨l, hl, hown (by decide)⟩

end RoundTrip

end Riscv32
