import Riscv32Simulator.Library.Refusing
import Riscv32Simulator.Debug.LineReading

/-! The scan of the sections for symbols and for line data. -/

namespace Riscv32
open Refusing

/-! ## What there is to find -/

def symbolEntry (elf : ElfObject) (i link j : ℕ) : Option DebugSymbol :=
  (elf.symbol i j).bind fun symbol =>
    let type := symbol.info &&& 0xF#8
    if symbol.shndx ≠ 0 ∧ (type = 2#8 ∨ type = 1#8 ∨ type = 0#8) then
      (elf.strptr link symbol.name).bind fun name =>
        if name = [] then none
        else some {
          name := name
          address := symbol.value.setWidth 32
          size := symbol.size.setWidth 32
          function := type = 2#8 }
    else none

def sectionSymbols (elf : ElfObject) (i : ℕ) : List DebugSymbol :=
  match elf.header i with
  | none => []
  | some header =>
    if header.type = 2 then
      (List.range (header.size / header.entsize)).filterMap (symbolEntry elf i header.link)
    else []

def lineSize (elf : ElfObject) (strings i : ℕ) : Option ℕ :=
  (elf.header i).bind fun header => (sectionName elf strings header).bind fun name =>
    if name = debugLineName ∨ name = zdebugLineName then some header.size else none

def sections (count : ℕ) : List ℕ := List.range' 1 (count - 1)

def allSymbols (elf : ElfObject) (count : ℕ) : List DebugSymbol :=
  (sections count).flatMap (sectionSymbols elf)

def lineSizes (elf : ElfObject) (strings count : ℕ) : List ℕ :=
  (sections count).filterMap (lineSize elf strings)

/-- A symbol whose name is looked up: a defined function, object or untyped symbol. -/
def LookedUp (symbol : ElfSymbol) : Prop :=
  ¬ (symbol.shndx = 0 ∨ (symbol.info &&& 0xF#8 ≠ 2#8 ∧ symbol.info &&& 0xF#8 ≠ 1#8 ∧
    symbol.info &&& 0xF#8 ≠ 0#8))

/-- libelf answers every call that the scan makes. -/
structure Answers (elf : ElfObject) (count strings : ℕ) : Prop where
  shdrnum : elf.shdrnum = some count
  shdrstrndx : elf.shdrstrndx = some strings
  header : ∀ i ∈ sections count, (elf.header i).isSome = true
  name : ∀ i ∈ sections count, ∀ header ∈ elf.header i, (sectionName elf strings header).isSome = true
  names : ∀ i ∈ sections count, ∀ header ∈ elf.header i, header.type = 2 →
    (elf.header header.link).isSome = true
  data : ∀ i ∈ sections count, ∀ header ∈ elf.header i, header.type = 2 → elf.data i = true
  symbol : ∀ i ∈ sections count, ∀ header ∈ elf.header i, header.type = 2 →
    ∀ j < header.size / header.entsize, ∃ symbol, elf.symbol i j = some symbol ∧
      (LookedUp symbol → (elf.strptr header.link symbol.name).isSome = true)

structure WithinRecordLimits (elf : ElfObject) (count : ℕ) : Prop where
  table : ∀ i ∈ sections count, ∀ header ∈ elf.header i, header.type = 2 →
    header.size / header.entsize ≤ maxDebugRecords
  symbols : (allSymbols elf count).length ≤ maxDebugRecords

/-- Section `i` is no malformed symbol table, and none of its symbols has an oversized name. -/
structure Acceptable (elf : ElfObject) (i : ℕ) : Prop where
  entries : ∀ header ∈ elf.header i, header.type = 2 →
    header.entsize = 16 ∧ header.size % header.entsize = 0
  names : ∀ header ∈ elf.header i, header.type = 2 →
    ∀ names ∈ elf.header header.link, names.type = 3
  text : ∀ symbol ∈ sectionSymbols elf i, symbol.name.length < maxDebugText

/-! ## What a section holds -/

section Contents

variable {elf : ElfObject} {i link j : ℕ} {symbol : ElfSymbol} {header : SectionHeader}

theorem symbolEntry_undefined (hs : elf.symbol i j = some symbol)
    (hskip : ¬ LookedUp symbol) : symbolEntry elf i link j = none := by
  rw [symbolEntry, hs]
  unfold LookedUp at hskip
  exact if_neg (by tauto)

theorem symbolEntry_defined (hs : elf.symbol i j = some symbol) {name : CText}
    (hname : elf.strptr link symbol.name = some name)
    (hlooked : LookedUp symbol) : symbolEntry elf i link j =
      if name = [] then none
      else some {
        name := name
        address := symbol.value.setWidth 32
        size := symbol.size.setWidth 32
        function := symbol.info &&& 0xF#8 = 2#8 } := by
  rw [symbolEntry, hs]
  unfold LookedUp at hlooked
  refine (if_pos (by tauto)).trans ?_
  rw [hname]
  rfl

theorem sectionSymbols_table (hh : elf.header i = some header) (htype : header.type = 2) :
    sectionSymbols elf i =
      (List.range (header.size / header.entsize)).filterMap (symbolEntry elf i header.link) := by
  rw [sectionSymbols, hh]
  exact if_pos htype

theorem sectionSymbols_other (hh : elf.header i = some header) (htype : header.type ≠ 2) :
    sectionSymbols elf i = [] := by
  rw [sectionSymbols, hh]
  exact if_neg htype

theorem acceptable_other (hh : elf.header i = some header) (htype : header.type ≠ 2) :
    Acceptable elf i := by
  have hnone : ∀ header' ∈ elf.header i, header'.type ≠ 2 := by
    intro header' hh'
    rwa [← Option.some.inj (hh.symm.trans hh')]
  refine ⟨fun _ hh' ht => absurd ht (hnone _ hh'), fun _ hh' ht => absurd ht (hnone _ hh'), ?_⟩
  rw [sectionSymbols_other hh htype]
  exact fun _ hs => absurd hs List.not_mem_nil

theorem acceptable_table_iff {names : SectionHeader} (hh : elf.header i = some header)
    (htype : header.type = 2) (hnames : elf.header header.link = some names) :
    Acceptable elf i ↔ (header.entsize = 16 ∧ header.size % header.entsize = 0) ∧ names.type = 3 ∧
      ∀ j ∈ List.range (header.size / header.entsize),
        ∀ e ∈ symbolEntry elf i header.link j, e.name.length < maxDebugText := by
  have hsymbols := sectionSymbols_table hh htype
  constructor
  · intro h
    refine ⟨h.entries header hh htype, h.names header hh htype names hnames, ?_⟩
    intro j hj e he
    refine h.text e ?_
    rw [hsymbols]
    exact List.mem_filterMap.mpr ⟨j, hj, he⟩
  · rintro ⟨hentries, hstrings, htext⟩
    refine ⟨fun header' hh' _ => ?_, fun header' hh' _ names' hnames' => ?_, fun e he => ?_⟩
    · rwa [← Option.some.inj (hh.symm.trans hh')]
    · obtain rfl := Option.some.inj (hh.symm.trans hh')
      rwa [← Option.some.inj (hnames.symm.trans hnames')]
    · rw [hsymbols] at he
      obtain ⟨j, hj, hentry⟩ := List.mem_filterMap.mp he
      exact htext j hj e hentry

theorem lineSize_eq {strings : ℕ} {name : CText} (hh : elf.header i = some header)
    (hname : sectionName elf strings header = some name) : lineSize elf strings i =
      if name = debugLineName ∨ name = zdebugLineName then some header.size else none := by
  rw [lineSize, hh, Option.bind_some, hname, Option.bind_some]

end Contents

/-! ## One symbol, one table -/

section Scan

variable {malloc : ℕ → Bool} (hm : ∀ n, malloc n = true)
include hm

theorem readSymbol_yields {elf : ElfObject} {i link j : ℕ} {symbol : ElfSymbol}
    (hs : elf.symbol i j = some symbol)
    (hname : LookedUp symbol → (elf.strptr link symbol.name).isSome = true) {reader : DebugReader} (hroom : reader.info.symbols.length +
      (symbolEntry elf i link j).toList.length ≤ maxDebugRecords) :
    Yields (∀ e ∈ symbolEntry elf i link j, e.name.length < maxDebugText)
      (fun r => r.info.symbols = reader.info.symbols ++ (symbolEntry elf i link j).toList)
      (readSymbol malloc elf i link reader j) := by
  unfold readSymbol
  rw [hs]
  dsimp only [bind, Option.bind]
  by_cases hskip : symbol.shndx = 0 ∨ (symbol.info &&& 0xF#8 ≠ 2#8 ∧ symbol.info &&& 0xF#8 ≠ 1#8 ∧
      symbol.info &&& 0xF#8 ≠ 0#8)
  · rw [if_pos hskip, symbolEntry_undefined hs (not_not.mpr hskip)]
    exact yields_some (by simp) (by simp)
  · obtain ⟨name, hn⟩ := Option.isSome_iff_exists.mp (hname hskip)
    have hentry := symbolEntry_defined hs hn hskip
    rw [if_neg hskip, hn]
    dsimp only
    by_cases hempty : name = []
    · rw [if_pos hempty] at hentry
      rw [if_pos hempty, hentry]
      exact yields_some (by simp) (by simp)
    · rw [if_neg hempty] at hentry
      rw [hentry] at hroom ⊢
      rw [if_neg hempty]
      by_cases hlong : name.length < maxDebugText
      · have hcopy : copyText malloc name = some name := by
          rw [copyText, if_neg (not_le.mpr hlong), if_pos (hm _)]
        obtain ⟨c, hc⟩ := reserve_isSome hm (by simpa using hroom) reader.symbolCapacity
          sizeofDebugSymbol
        rw [hcopy]
        dsimp only
        rw [hc]
        exact yields_some (by simpa using hlong) rfl
      · have hcopy : copyText malloc name = none := if_pos (not_lt.mp hlong)
        rw [hcopy]
        exact yields_none (by simpa using hlong)

theorem readTable_yields {elf : ElfObject} {i link n : ℕ}
    (hsymbol : ∀ j < n, ∃ symbol, elf.symbol i j = some symbol ∧
      (LookedUp symbol → (elf.strptr link symbol.name).isSome = true)) {reader : DebugReader}
    (hroom : reader.info.symbols.length +
      ((List.range n).filterMap (symbolEntry elf i link)).length ≤ maxDebugRecords) :
    Yields (∀ j ∈ List.range n, ∀ e ∈ symbolEntry elf i link j, e.name.length < maxDebugText)
      (fun r => r.info.symbols =
        reader.info.symbols ++ (List.range n).filterMap (symbolEntry elf i link))
      ((List.range n).foldlM (readSymbol malloc elf i link) reader) := by
  refine yields_foldlM (I := fun pre (r : DebugReader) => r.info.symbols =
    reader.info.symbols ++ pre.filterMap (symbolEntry elf i link)) ?_ (by simp)
  intro pre j post hsplit r hr
  have hj : j ∈ List.range n := by simp [hsplit]
  obtain ⟨symbol, hs, hname⟩ := hsymbol j (List.mem_range.mp hj)
  have hlist : (List.range n).filterMap (symbolEntry elf i link) =
      pre.filterMap (symbolEntry elf i link) ++ ((symbolEntry elf i link j).toList ++
        post.filterMap (symbolEntry elf i link)) := by
    rw [hsplit, List.filterMap_append, List.filterMap_cons]
    cases symbolEntry elf i link j <;> rfl
  have hcount : r.info.symbols.length + (symbolEntry elf i link j).toList.length ≤
      maxDebugRecords := by
    rw [hlist, List.length_append, List.length_append] at hroom
    rw [hr, List.length_append]
    omega
  refine (readSymbol_yields hm hs hname hcount).imp fun r' hr' => ?_
  rw [hr', hr, List.append_assoc, List.filterMap_append]
  congr 2

/-- A section is read, or refused as a malformed table. Line data overwrites what was known. -/
theorem readSection_yields {elf : ElfObject} {count strings : ℕ} (h : Answers elf count strings)
    (hl : WithinRecordLimits elf count) {i : ℕ} (hi : i ∈ sections count)
    {state : DebugReader × Bool} (hroom : state.1.info.symbols.length +
      (sectionSymbols elf i).length ≤ maxDebugRecords) :
    Yields (Acceptable elf i)
      (fun r => r.1.info.symbols = state.1.info.symbols ++ sectionSymbols elf i ∧
        r.2 = (lineSize elf strings i).elim state.2 (· != 0))
      (readSection malloc elf strings state i) := by
  obtain ⟨header, hh⟩ := Option.isSome_iff_exists.mp (h.header i hi)
  obtain ⟨name, hname⟩ := Option.isSome_iff_exists.mp (h.name i hi header hh)
  have hdebug : (if name = debugLineName ∨ name = zdebugLineName then header.size != 0 else state.2) =
      (lineSize elf strings i).elim state.2 (· != 0) := by
    rw [lineSize_eq hh hname]
    split_ifs <;> rfl
  unfold readSection
  rw [hh]
  dsimp only [bind, Option.bind]
  rw [hname]
  dsimp only
  rw [hdebug]
  by_cases htype : header.type = 2
  · have hlimit := hl.table i hi header hh htype
    obtain ⟨names, hnames⟩ := Option.isSome_iff_exists.mp (h.names i hi header hh htype)
    have hsymbols := sectionSymbols_table hh htype
    have hacceptable := acceptable_table_iff hh htype hnames
    rw [if_neg (not_not.mpr htype)]
    refine yields_ite (fun hbad => yields_none fun hacc => ?_) fun hgood => ?_
    · obtain ⟨h16, hmod⟩ := (hacceptable.mp hacc).1
      rcases hbad with h16' | hmod' | hmany
      · exact h16' h16
      · exact hmod' hmod
      · omega
    · rw [hnames]
      dsimp only
      refine yields_ite (fun hbad => yields_none fun hacc => ?_) fun hok => ?_
      · rcases hbad with hnot | hdata
        · exact hnot (hacceptable.mp hacc).2.1
        · simp [h.data i hi header hh htype] at hdata
      · rw [hsymbols] at hroom
        have htable := readTable_yields hm (h.symbol i hi header hh htype) hroom
        have hread := htable.bind
          (f := fun reader => some (reader, (lineSize elf strings i).elim state.2 (· != 0)))
          (P := fun r : DebugReader × Bool =>
            r.1.info.symbols = state.1.info.symbols ++ sectionSymbols elf i ∧
              r.2 = (lineSize elf strings i).elim state.2 (· != 0))
          fun r hr => yields_some trivial ⟨hsymbols ▸ hr, rfl⟩
        -- the two checks have passed, so only the names are left to be refused
        refine hread.congr ((and_iff_left trivial).trans ?_)
        have hentries : header.entsize = 16 ∧ header.size % header.entsize = 0 :=
          ⟨by tauto, by tauto⟩
        have hstrings : names.type = 3 := by tauto
        rw [hacceptable, and_iff_right hentries, and_iff_right hstrings]
  · rw [if_pos htype, sectionSymbols_other hh htype]
    exact yields_some (acceptable_other hh htype) ⟨by simp, rfl⟩

theorem readSymbols_yields {elf : ElfObject} {count strings : ℕ} (h : Answers elf count strings)
    (hl : WithinRecordLimits elf count) : Yields (∀ i ∈ sections count, Acceptable elf i)
      (fun r => r.1.info.symbols = allSymbols elf count ∧
        r.2 = ((lineSizes elf strings count).getLast?.getD 0 != 0))
      (readSymbols malloc elf {}) := by
  unfold readSymbols
  rw [h.shdrnum, h.shdrstrndx]
  -- what is collected after the sections `pre`
  refine yields_foldlM (I := fun pre (r : DebugReader × Bool) =>
    r.1.info.symbols = pre.flatMap (sectionSymbols elf) ∧
      r.2 = ((pre.filterMap (lineSize elf strings)).getLast?.getD 0 != 0)) ?_ ⟨rfl, rfl⟩
  intro pre i post hsplit r hr
  have hi : i ∈ sections count := by simp [hsplit]
  have hall := hl.symbols
  have hroom : r.1.info.symbols.length + (sectionSymbols elf i).length ≤ maxDebugRecords := by
    rw [allSymbols, hsplit, List.flatMap_append, List.flatMap_cons, List.length_append,
      List.length_append] at hall
    rw [hr.1]
    omega
  refine (readSection_yields hm h hl hi hroom).imp fun r' hr' => ⟨?_, ?_⟩
  · rw [hr'.1, hr.1, List.flatMap_append, List.flatMap_singleton]
  · rw [hr'.2, hr.2, List.filterMap_append]
    cases hsize : lineSize elf strings i with
    | none => simp [hsize]
    | some n => simp [hsize]

end Scan

/-- What the scan promises: it ends, it knows of line data exactly when some section has it, and it
collects exactly the symbols there are. -/
def ReportsAll (malloc : ℕ → Bool) (elf : ElfObject) (count strings : ℕ) : Prop :=
  ∃ reader hasDebug, readSymbols malloc elf {} = some (reader, hasDebug) ∧
    (hasDebug = true ↔ ∃ size ∈ lineSizes elf strings count, size ≠ 0) ∧
    reader.info.symbols = allSymbols elf count

/-- The last section named as line data is not empty, or all of them are. -/
def LastDecides (elf : ElfObject) (count strings : ℕ) : Prop :=
  (∃ size ∈ lineSizes elf strings count, size ≠ 0) →
    ∃ size ∈ (lineSizes elf strings count).getLast?, size ≠ 0

theorem getLast?_decides (sizes : List ℕ) :
    ((sizes.getLast?.getD 0 != 0) = true ↔ ∃ size ∈ sizes, size ≠ 0) ↔
      ((∃ size ∈ sizes, size ≠ 0) → ∃ size ∈ sizes.getLast?, size ≠ 0) := by
  cases hlast : sizes.getLast? with
  | none => simp [List.getLast?_eq_none_iff.mp hlast]
  | some last =>
    have hmem : last ∈ sizes := List.mem_of_getLast? hlast
    simp only [Option.getD_some, bne_iff_ne, ne_eq, Option.mem_some_iff, exists_eq_left']
    exact ⟨fun h => h.mpr, fun h => ⟨fun hne => ⟨last, hmem, hne⟩, h⟩⟩

/-- An ELF with a malformed symbol table or an oversized name is refused. On any other one the scan
reports all there is exactly when the last section of line data is not empty or all of them are. -/
theorem readSymbols_reports_iff {malloc : ℕ → Bool} (hm : ∀ n, malloc n = true) {elf : ElfObject}
    {count strings : ℕ} (h : Answers elf count strings) (hl : WithinRecordLimits elf count) :
    (¬ (∀ i ∈ sections count, Acceptable elf i) → readSymbols malloc elf {} = none) ∧
    ((∀ i ∈ sections count, Acceptable elf i) →
      (ReportsAll malloc elf count strings ↔ LastDecides elf count strings)) := by
  have hscan := readSymbols_yields hm h hl
  refine ⟨hscan.refused, fun hacc => ?_⟩
  obtain ⟨⟨reader, hasDebug⟩, hread, hsymbols, hdebug⟩ := hscan.result hacc
  dsimp only at hsymbols hdebug
  subst hdebug
  rw [LastDecides, ← getLast?_decides]
  constructor
  · rintro ⟨reader', hasDebug', hread', hiff, -⟩
    rw [hread] at hread'
    obtain ⟨-, rfl⟩ := Prod.mk.inj (Option.some.inj hread')
    exact hiff
  · intro hiff
    exact ⟨reader, _, hread, hiff, hsymbols⟩

def lineAndFunction : ElfObject where
  shdrnum := some 4
  shdrstrndx := some 3
  header i := if i = 1 then some ⟨1, 1, 52, 0, 0⟩ else if i = 2 then some ⟨0, 2, 16, 16, 3⟩
    else if i = 3 then some ⟨0, 3, 18, 0, 0⟩ else none
  strptr _ offset := if offset = 1 then some debugLineName else if offset = 13 then some [0x66] else some []
  data _ := true
  symbol _ _ := some ⟨13, 0x1000, 4, 2, 1⟩
  dwarf := none

theorem readSymbols_reports_lineAndFunction :
    ReportsAll (fun _ => true) lineAndFunction 4 3 := by
  have hlinks : ∀ i ∈ sections 4, ∀ header ∈ lineAndFunction.header i, header.type = 2 →
      (lineAndFunction.header header.link).isSome = true := by decide
  have hanswers : Answers lineAndFunction 4 3 := by
    refine ⟨rfl, rfl, by decide, by decide, hlinks, fun _ _ _ _ _ => rfl, ?_⟩
    intro i _ header _ _ j _
    exact ⟨_, rfl, fun _ => rfl⟩
  have hlimits : WithinRecordLimits lineAndFunction 4 := ⟨by decide, by decide⟩
  have hacceptable : ∀ i ∈ sections 4, Acceptable lineAndFunction i := by
    have hentries : ∀ i ∈ sections 4, ∀ header ∈ lineAndFunction.header i, header.type = 2 →
        header.entsize = 16 ∧ header.size % header.entsize = 0 := by decide
    have hnames : ∀ i ∈ sections 4, ∀ header ∈ lineAndFunction.header i, header.type = 2 →
        ∀ names ∈ lineAndFunction.header header.link, names.type = 3 := by decide
    have htext : ∀ i ∈ sections 4, ∀ symbol ∈ sectionSymbols lineAndFunction i,
        symbol.name.length < maxDebugText := by decide
    exact fun i hi => ⟨hentries i hi, hnames i hi, htext i hi⟩
  refine ((readSymbols_reports_iff (fun _ => rfl) hanswers hlimits).2 hacceptable).mpr fun _ => ?_
  exact ⟨52, by decide, by decide⟩

/-- Line data, an empty section of compressed line data behind it, and their names. -/
def emptyBehindFull : ElfObject where
  shdrnum := some 4
  shdrstrndx := some 3
  header i := if i = 1 then some ⟨1, 1, 52, 0, 0⟩ else if i = 2 then some ⟨13, 1, 0, 0, 0⟩
    else if i = 3 then some ⟨0, 3, 26, 0, 0⟩ else none
  strptr _ offset := if offset = 1 then some debugLineName else if offset = 13 then some zdebugLineName
    else some []
  data _ := true
  symbol _ _ := none
  dwarf := none

/-- The empty section takes back what the line data has told: it is not reported, and the metadata is
read without it. -/
theorem emptyBehindFull_skipped :
    Answers emptyBehindFull 4 3 ∧ WithinRecordLimits emptyBehindFull 4 ∧
      (∀ i ∈ sections 4, Acceptable emptyBehindFull i) ∧
      readSymbols (fun _ => true) emptyBehindFull {} = some ({}, false) ∧
      ¬ ReportsAll (fun _ => true) emptyBehindFull 4 3 := by
  have hnone : ∀ i ∈ sections 4, ∀ header ∈ emptyBehindFull.header i, header.type ≠ 2 := by decide
  have hsymbols : ∀ i ∈ sections 4, sectionSymbols emptyBehindFull i = [] := by decide
  have hread : readSymbols (fun _ => true) emptyBehindFull {} = some ({}, false) := by decide
  refine ⟨⟨rfl, rfl, by decide, by decide, ?_, ?_, ?_⟩, ⟨?_, by decide⟩, ?_, hread, ?_⟩
  · exact fun i hi header hh htype => absurd htype (hnone i hi header hh)
  · exact fun i hi header hh htype => absurd htype (hnone i hi header hh)
  · exact fun i hi header hh htype => absurd htype (hnone i hi header hh)
  · exact fun i hi header hh htype => absurd htype (hnone i hi header hh)
  · intro i hi
    refine ⟨?_, ?_, ?_⟩
    · exact fun header hh htype => absurd htype (hnone i hi header hh)
    · exact fun header hh htype => absurd htype (hnone i hi header hh)
    · rw [hsymbols i hi]
      simp
  · rintro ⟨reader, hasDebug, hread', hiff, -⟩
    rw [hread] at hread'
    obtain ⟨-, rfl⟩ := Prod.mk.inj (Option.some.inj hread')
    have htrue := hiff.mpr ⟨52, by decide, by decide⟩
    cases htrue

end Riscv32
