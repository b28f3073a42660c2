import Riscv32Simulator.Library.Breakpoints
import Riscv32Simulator.Source.DebugInfo

/-! Reading the rows of a line program leaves one range for each span between its rows. -/

namespace Riscv32
open Breakpoints

structure LineRow where
  address : BitVec 64
  endSequence : Bool
  line : BitVec 32
  column : BitVec 32
  path : CText
deriving DecidableEq, Repr

namespace LineRow

def reported (r : LineRow) : Option DwarfRow :=
  some ⟨some r.address, some r.endSequence, some r.line, some r.column, some r.path⟩

def key (r : LineRow) : ℕ := r.address.toNat

/-- A row that stands for a source statement. -/
def opens (r : LineRow) : Bool := !r.endSequence && 0 < r.line.toInt

def shownColumn (r : LineRow) : BitVec 32 := if 0 < r.column.toInt then r.column else 0

def pendingLine (r : LineRow) (file : ℕ) : DebugLine where
  beginAddress := r.address.setWidth 32
  file := file
  line := r.line
  column := r.shownColumn

end LineRow

/-! ## Storage -/

section Storage

variable {malloc : ℕ → Bool} (hm : ∀ n, malloc n = true)
include hm

theorem reserve_isSome {count : ℕ} (h : count < maxDebugRecords) (capacity width : ℕ) :
    ∃ c, reserve malloc count capacity width = some c := by
  unfold reserve
  by_cases hroom : count < capacity
  · exact ⟨_, if_pos hroom⟩
  · rw [if_neg hroom, if_neg (not_le.mpr h)]
    exact ⟨_, if_pos (hm _)⟩

structure FilesWithin (all : List CText) (files : List CText) : Prop where
  nodup : files.Nodup
  within : files ⊆ all

variable {all : List CText} (hall : all.length ≤ maxSourceFiles)
  (htext : ∀ p ∈ all, p.length < maxDebugText)
include hall htext

theorem fileIndex_spec {reader : DebugReader} (h : FilesWithin all reader.info.files)
    {path : CText} (hp : path ∈ all) :
    ∃ i reader', fileIndex malloc reader (some path) = some (i, reader') ∧
      FilesWithin all reader'.info.files ∧ reader.info.files <+: reader'.info.files ∧
      reader'.info.files[i]? = some path ∧ reader'.info.lines = reader.info.lines := by
  rw [fileIndex]
  cases hfind : reader.info.files.findIdx? (· = path) with
  | some i =>
    obtain ⟨hi, hpath, -⟩ := List.findIdx?_eq_some_iff_getElem.mp hfind
    refine ⟨i, reader, rfl, h, List.prefix_rfl, ?_, rfl⟩
    rw [List.getElem?_eq_getElem hi, of_decide_eq_true hpath]
  | none =>
    have hnew : path ∉ reader.info.files := fun hmem => by
      simpa using List.findIdx?_eq_none_iff.mp hfind path hmem
    have hgrown : FilesWithin all (reader.info.files ++ [path]) := by
      refine ⟨List.Nodup.append h.nodup (List.nodup_singleton _) ?_, ?_⟩
      · simpa using hnew
      · simpa using ⟨h.within, hp⟩
    -- files are never repeated, so those that the limits allow for have room
    have hlen := (hgrown.nodup.subperm hgrown.within).length_le
    rw [List.length_append, List.length_singleton] at hlen
    have hcopy : copyText malloc path = some path := by
      rw [copyText, if_neg (not_le.mpr (htext path hp)), if_pos (hm _)]
    have hroom : reader.info.files.length < maxDebugRecords := hlen.trans (hall.trans (by decide))
    obtain ⟨c, hc⟩ := reserve_isSome hm hroom reader.fileCapacity sizeofFile
    dsimp only
    rw [if_neg (by omega), hcopy, hc]
    refine ⟨_, _, rfl, hgrown, List.prefix_append _ _, ?_, rfl⟩
    exact List.getElem?_concat_length

theorem readTable_spec (table : List (Option CText)) {reader : DebugReader}
    (h : FilesWithin all reader.info.files) (hp : ∀ p, some p ∈ table → p ∈ all) :
    ∃ reader', table.foldlM (readFile malloc) reader = some reader' ∧
      FilesWithin all reader'.info.files ∧ reader'.info.lines = reader.info.lines := by
  induction table generalizing reader with
  | nil => exact ⟨reader, rfl, h, rfl⟩
  | cons path table ih =>
    have htail : ∀ p, some p ∈ table → p ∈ all := fun p hmem => hp p (List.mem_cons_of_mem _ hmem)
    rw [List.foldlM_cons]
    cases path with
    | none => exact ih h htail
    | some path =>
      obtain ⟨i, reader₁, hindex, hw, -, -, hlines⟩ :=
        fileIndex_spec hm hall htext h (hp path List.mem_cons_self)
      obtain ⟨reader', hfold, hw', hlines'⟩ := ih hw htail
      rw [readFile, hindex]
      exact ⟨reader', hfold, hw', hlines'.trans hlines⟩

end Storage

/-! ## Rows -/

/-- A line that stands for a span: its row, its end, and the file of its path. -/
def Records (files : List CText) (l : DebugLine) (s : LineRow × ℕ) : Prop :=
  l = { s.1.pendingLine l.file with endAddress := BitVec.ofNat 32 s.2 } ∧
    files[l.file]? = some s.1.path

theorem Records.mono {files files' : List CText} (h : files <+: files') {l : DebugLine}
    {s : LineRow × ℕ} (hr : Records files l s) : Records files' l s := by
  obtain ⟨rest, rfl⟩ := h
  obtain ⟨hi, -⟩ := List.getElem?_eq_some_iff.mp hr.2
  exact ⟨hr.1, (List.getElem?_append_left hi).trans hr.2⟩

def Pends (files : List CText) : Option LineRow → Option DebugLine → Prop
  | none, pending => pending = none
  | some r, pending => r.opens = true ∧ ∃ file, files[file]? = some r.path ∧
      pending = some (r.pendingLine file)

def closed (p : Option LineRow) (row : LineRow) : List (LineRow × ℕ) :=
  p.elim [] fun q => if q.key < row.key then [(q, row.key)] else []

theorem spans_pending {p : Option LineRow} (hp : ∀ q ∈ p, q.opens = true) (row : LineRow)
    (rows : List LineRow) : spans LineRow.key LineRow.opens (p.toList ++ row :: rows) =
      closed p row ++ spans LineRow.key LineRow.opens (row :: rows) := by
  cases p with
  | none => rfl
  | some q =>
    change spans LineRow.key LineRow.opens (q :: row :: rows) = _
    rw [spans, closed, Option.elim]
    by_cases hlt : q.key < row.key
    · rw [if_pos ⟨hp q rfl, hlt⟩, if_pos hlt]
      rfl
    · rw [if_neg fun hc => hlt hc.2, if_neg hlt]
      rfl

def closePending (malloc : ℕ → Bool) (reader : DebugReader) (row : LineRow) :
    Option DebugLine → Option DebugReader
  | none => some reader
  | some previous => closeRange malloc reader previous row.address

theorem readRow_reported (malloc : ℕ → Bool) (ramSize : ℕ) (reader : DebugReader)
    (pending : Option DebugLine) (row : LineRow) :
    readRow malloc ramSize (reader, pending) row.reported =
      if row.key > ramSize then none
      else (closePending malloc reader row pending).bind fun reader =>
        if row.opens then (fileIndex malloc reader (some row.path)).bind fun i =>
          some (i.2, some (row.pendingLine i.1))
        else some (reader, none) := by
  have hopens : row.opens = (!row.endSequence && decide (0 < row.line.toInt)) := rfl
  have hkey : row.key = row.address.toNat := rfl
  rw [readRow, LineRow.reported, hopens, hkey]
  dsimp only [Option.bind_eq_bind, Option.bind_some, Option.pure_def]
  by_cases hram : row.address.toNat > ramSize
  · rw [if_pos hram, if_pos hram]
  · rw [if_neg hram, if_neg hram]
    have hrest : ∀ reader : DebugReader,
        (if row.endSequence = true then some (reader, none)
          else if 0 < row.line.toInt then (fileIndex malloc reader (some row.path)).bind fun i =>
            some (i.2, some (row.pendingLine i.1))
          else some (reader, none)) =
        if (!row.endSequence && decide (0 < row.line.toInt)) = true then
          (fileIndex malloc reader (some row.path)).bind fun i =>
            some (i.2, some (row.pendingLine i.1))
        else some (reader, none) := by
      intro reader
      cases row.endSequence <;> simp
    simp only [← hrest]
    cases pending with
    | none => rfl
    | some previous => rfl

section Rows

variable {malloc : ℕ → Bool} (hm : ∀ n, malloc n = true) {ramSize : ℕ} (hsize : ramSize < 2 ^ 32)

include hsize in
theorem toNat_beginAddress {r : LineRow} (h : r.key ≤ ramSize) (file : ℕ) :
    (r.pendingLine file).beginAddress.toNat = r.key := by
  rw [LineRow.pendingLine, BitVec.toNat_setWidth]
  exact Nat.mod_eq_of_lt (by rw [LineRow.key] at h; omega)

include hm hsize in
theorem closeRange_spec {reader : DebugReader} {q row : LineRow} (hq : q.key ≤ ramSize)
    (hle : q.key ≤ row.key) (hcount : reader.info.lines.length < maxDebugRecords) {file : ℕ}
    (hfile : reader.info.files[file]? = some q.path) :
    ∃ reader', closeRange malloc reader (q.pendingLine file) row.address = some reader' ∧
      reader'.info.files = reader.info.files ∧
      ∃ ls, reader'.info.lines = reader.info.lines ++ ls ∧
        List.Forall₂ (Records reader.info.files) ls (closed (some q) row) := by
  have hbegin := toNat_beginAddress hsize hq file
  have hkey : row.address.toNat = row.key := rfl
  rw [closeRange, hbegin, hkey, if_neg (not_lt.mpr hle), closed, Option.elim]
  by_cases hlt : q.key < row.key
  · obtain ⟨c, hc⟩ := reserve_isSome hm hcount reader.lineCapacity sizeofDebugLine
    rw [if_pos hlt, if_pos (gt_iff_lt.mpr hlt), hc]
    refine ⟨_, rfl, rfl, _, rfl, .cons ⟨?_, hfile⟩ .nil⟩
    rw [LineRow.key, BitVec.ofNat_toNat]
    rfl
  · rw [if_neg hlt, if_neg hlt]
    exact ⟨reader, rfl, rfl, [], (List.append_nil _).symm, .nil⟩

variable {all : List CText} (hall : all.length ≤ maxSourceFiles)
  (htext : ∀ p ∈ all, p.length < maxDebugText)

include hm hsize hall htext in
theorem readRow_spec {reader : DebugReader} {p : Option LineRow} {pending : Option DebugLine}
    {row : LineRow} (hw : FilesWithin all reader.info.files) (hp : Pends reader.info.files p pending)
    (hq : ∀ q ∈ p, q.key ≤ row.key) (hram : row.key ≤ ramSize)
    (hpath : row.opens = true → row.path ∈ all)
    (hcount : reader.info.lines.length < maxDebugRecords) :
    ∃ reader' pending',
      readRow malloc ramSize (reader, pending) row.reported = some (reader', pending') ∧
      FilesWithin all reader'.info.files ∧ reader.info.files <+: reader'.info.files ∧
      Pends reader'.info.files (if row.opens then some row else none) pending' ∧
      ∃ ls, reader'.info.lines = reader.info.lines ++ ls ∧
        List.Forall₂ (Records reader.info.files) ls (closed p row) := by
  obtain ⟨closedReader, hclose, hfiles, ls, hlines, hrecords⟩ :
      ∃ reader', closePending malloc reader row pending = some reader' ∧
        reader'.info.files = reader.info.files ∧
        ∃ ls, reader'.info.lines = reader.info.lines ++ ls ∧
          List.Forall₂ (Records reader.info.files) ls (closed p row) := by
    cases p with
    | none =>
      obtain rfl : pending = none := hp
      exact ⟨reader, rfl, rfl, [], (List.append_nil _).symm, .nil⟩
    | some q =>
      obtain ⟨-, file, hfile, rfl⟩ := hp
      have hle := hq q rfl
      exact closeRange_spec hm hsize (hle.trans hram) hle hcount hfile
  rw [readRow_reported, if_neg (not_lt.mpr hram), hclose, Option.bind_some]
  rw [← hfiles] at hw
  -- a row without a statement only ends the range before it
  by_cases hopen : row.opens = true
  · obtain ⟨i, reader', hindex, hw', hprefix, hget, hlines'⟩ :=
      fileIndex_spec hm hall htext hw (hpath hopen)
    rw [if_pos hopen, if_pos hopen, hindex, Option.bind_some]
    exact ⟨reader', _, rfl, hw', hfiles ▸ hprefix, ⟨hopen, i, hget, rfl⟩, ls,
      hlines'.trans hlines, hrecords⟩
  · rw [if_neg hopen, if_neg hopen]
    exact ⟨closedReader, none, rfl, hw, hfiles ▸ List.prefix_rfl, rfl, ls, hlines, hrecords⟩

include hm hsize hall htext in
/-- The loop over the rows leaves the spans of the pending row and the rows to come. -/
theorem readRows_spans (rows : List LineRow) {reader : DebugReader} {p : Option LineRow}
    {pending : Option DebugLine} (hw : FilesWithin all reader.info.files)
    (hp : Pends reader.info.files p pending)
    (hmono : (p.toList ++ rows).Pairwise fun q r => q.key ≤ r.key)
    (hram : ∀ r ∈ rows, r.key ≤ ramSize)
    (hlast : ∀ r ∈ (p.toList ++ rows).getLast?, r.opens = false)
    (hpath : ∀ r ∈ rows, r.opens = true → r.path ∈ all)
    (hcount : reader.info.lines.length + rows.length ≤ maxDebugRecords) :
    ∃ reader', (rows.map LineRow.reported).foldlM (readRow malloc ramSize) (reader, pending) =
        some (reader', none) ∧
      reader.info.files <+: reader'.info.files ∧
      ∃ ls, reader'.info.lines = reader.info.lines ++ ls ∧ List.Forall₂
        (Records reader'.info.files) ls (spans LineRow.key LineRow.opens (p.toList ++ rows)) := by
  induction rows generalizing reader p pending with
  | nil =>
    cases p with
    | none =>
      obtain rfl : pending = none := hp
      exact ⟨reader, rfl, List.prefix_rfl, [], (List.append_nil _).symm, .nil⟩
    | some q => exact absurd ((hlast q rfl).symm.trans hp.1) Bool.false_ne_true
  | cons row rows ih =>
    have hopens : ∀ q ∈ p, q.opens = true := by
      rintro q rfl
      exact hp.1
    have hq : ∀ q ∈ p, q.key ≤ row.key := by
      rintro q rfl
      exact (List.pairwise_cons.mp hmono).1 row List.mem_cons_self
    rw [List.length_cons] at hcount
    obtain ⟨reader₁, pending₁, hstep, hw₁, hbase₁, hp₁, ls₁, hlines₁, hrecords₁⟩ :=
      readRow_spec hm hsize hall htext hw hp hq (hram row List.mem_cons_self)
        (hpath row List.mem_cons_self) (by omega)
    have hmono' : (row :: rows).Pairwise fun q r => q.key ≤ r.key :=
      (List.pairwise_append.mp hmono).2.1
    -- the row pends, or it opens no span and can be left out
    have hspans : spans LineRow.key LineRow.opens (row :: rows) = spans LineRow.key LineRow.opens
        ((if row.opens then some row else none).toList ++ rows) := by
      split_ifs with hopen
      · rfl
      · exact spans_cons_closed (Bool.eq_false_iff.mpr hopen) rows
    have hlen : ls₁.length ≤ 1 := by
      rw [hrecords₁.length_eq]
      cases p with
      | none => exact Nat.zero_le 1
      | some q =>
        rw [closed, Option.elim]
        split_ifs <;> simp
    have hlast' : ∀ r ∈ (row :: rows).getLast?, r.opens = false := by
      rwa [List.getLast?_append_of_ne_nil _ (List.cons_ne_nil row rows)] at hlast
    obtain ⟨reader', hfold, hbase', ls, hlines', hrecords'⟩ := ih hw₁ hp₁
      (by
        split_ifs
        · exact hmono'
        · exact (List.pairwise_cons.mp hmono').2)
      (fun r hr => hram r (List.mem_cons_of_mem _ hr))
      (by
        split_ifs
        · exact hlast'
        · intro r hr
          have hr' : rows.getLast? = some r := hr
          exact hlast' r (by rw [List.getLast?_cons, hr']; rfl))
      (fun r hr => hpath r (List.mem_cons_of_mem _ hr))
      (by rw [hlines₁, List.length_append]; omega)
    refine ⟨reader', ?_, hbase₁.trans hbase', ls₁ ++ ls, ?_, ?_⟩
    · rw [List.map_cons, List.foldlM_cons, hstep]
      exact hfold
    · rw [hlines', hlines₁, List.append_assoc]
    · rw [spans_pending hopens, hspans]
      exact List.rel_append (hrecords₁.imp fun _ _ h => h.mono (hbase₁.trans hbase')) hrecords'

end Rows

end Riscv32
