import Riscv32Simulator.Source.DebugInfo

/-! Queries of sorted and annotated lines answer what a search through all of them would. -/

namespace Riscv32
open Search

def DebugLine.covers (l : DebugLine) (address : BitVec 32) : Prop :=
  l.beginAddress ≤ address ∧ address < l.endAddress

def DebugLine.upTo (a b : DebugLine) : Prop :=
  a.beginAddress < b.beginAddress ∨ a.beginAddress = b.beginAddress ∧ a.endAddress ≤ b.endAddress

theorem DebugLine.upTo_refl (l : DebugLine) : l.upTo l := .inr ⟨rfl, BitVec.le_refl _⟩

theorem DebugLine.upTo.begin_le {a b : DebugLine} (h : a.upTo b) :
    a.beginAddress ≤ b.beginAddress := by
  rcases h with h | ⟨h, -⟩
  · exact BitVec.le_of_lt h
  · exact BitVec.le_of_eq h

theorem DebugLine.upTo.end_le {a b : DebugLine} (h : a.upTo b)
    (hb : a.beginAddress = b.beginAddress) : a.endAddress ≤ b.endAddress := by
  rcases h with h | ⟨-, h⟩
  · exact absurd (hb ▸ h) (BitVec.lt_irrefl _)
  · exact h

theorem compareLines_nonpos_iff (a b : DebugLine) : compareLines a b ≤ 0 ↔ a.upTo b := by
  unfold compareLines DebugLine.upTo
  split_ifs with h1 h2 h3 h4
  · simp [h2]
  · simp [h1, h2]
  · rw [not_not] at h1
    simp [h1, BitVec.le_of_lt h4]
  · rw [not_not] at h1
    have hlt := BitVec.lt_of_le_ne (BitVec.not_lt.mp h4) (Ne.symm h3)
    simp [h1, hlt]
  · rw [not_not] at h1 h3
    simp [h1, h3]

/-- What the C library promises of `qsort`: the same items, in an order that `compare` agrees with.
Items that compare equal stand in any order. -/
def Sorts {α : Type} (compare : α → α → ℤ) (qsort : List α → List α) : Prop :=
  ∀ xs, (qsort xs).Perm xs ∧ (qsort xs).Pairwise fun a b => compare a b ≤ 0

instance : DecidableRel DebugLine.upTo := fun _ _ => inferInstanceAs (Decidable (_ ∨ _))

theorem DebugLine.upTo_total (a b : DebugLine) : a.upTo b ∨ b.upTo a := by
  simp only [DebugLine.upTo]
  bv_omega

theorem DebugLine.upTo_trans {a b c : DebugLine} (h : a.upTo b) (h' : b.upTo c) : a.upTo c := by
  simp only [DebugLine.upTo] at h h' ⊢
  bv_omega

theorem sorts_insertionSort : Sorts compareLines (List.insertionSort DebugLine.upTo) := by
  have : Std.Total DebugLine.upTo := ⟨DebugLine.upTo_total⟩
  have : IsTrans DebugLine DebugLine.upTo := ⟨fun _ _ _ => DebugLine.upTo_trans⟩
  intro xs
  refine ⟨List.perm_insertionSort _ xs, ?_⟩
  exact (List.pairwise_insertionSort _ xs).imp fun h => (compareLines_nonpos_iff ..).mpr h

/-! ## The annotation -/

def SameLine (a b : DebugLine) : Prop := { a with maximumEnd := 0 } = { b with maximumEnd := 0 }

section SameLine

variable {a b c d : DebugLine}

theorem SameLine.beginAddress (h : SameLine a b) : a.beginAddress = b.beginAddress :=
  (DebugLine.mk.inj h).1

theorem SameLine.endAddress (h : SameLine a b) : a.endAddress = b.endAddress :=
  (DebugLine.mk.inj h).2.1

theorem SameLine.file (h : SameLine a b) : a.file = b.file := (DebugLine.mk.inj h).2.2.2.1

theorem SameLine.line (h : SameLine a b) : a.line = b.line := (DebugLine.mk.inj h).2.2.2.2.1

theorem SameLine.column (h : SameLine a b) : a.column = b.column := (DebugLine.mk.inj h).2.2.2.2.2

theorem SameLine.covers_iff (h : SameLine a b) (address : BitVec 32) :
    a.covers address ↔ b.covers address := by
  rw [DebugLine.covers, DebugLine.covers, h.beginAddress, h.endAddress]

theorem SameLine.upTo_congr (h : SameLine a b) (h' : SameLine c d) : a.upTo c ↔ b.upTo d := by
  rw [DebugLine.upTo, DebugLine.upTo, h.beginAddress, h.endAddress, h'.beginAddress, h'.endAddress]

end SameLine

theorem annotate_same (maximum : BitVec 32) (lines : List DebugLine) :
    List.Forall₂ SameLine lines (annotate maximum lines) := by
  induction lines generalizing maximum with
  | nil => exact .nil
  | cons l lines ih => exact .cons rfl (ih _)

theorem le_maximumEnd (maximum : BitVec 32) (lines : List DebugLine) :
    ∀ l ∈ annotate maximum lines, maximum ≤ l.maximumEnd ∧ l.endAddress ≤ l.maximumEnd := by
  induction lines generalizing maximum with
  | nil => exact List.forall_mem_nil _
  | cons l lines ih =>
    have hmax : maximum ≤ (if l.endAddress > maximum then l.endAddress else maximum) ∧
        l.endAddress ≤ (if l.endAddress > maximum then l.endAddress else maximum) := by
      split_ifs with hgt
      · exact ⟨BitVec.le_of_lt hgt, BitVec.le_refl _⟩
      · exact ⟨BitVec.le_refl _, BitVec.not_lt.mp hgt⟩
    rw [annotate]
    intro x hx
    rcases List.mem_cons.mp hx with rfl | hx
    · exact hmax
    · obtain ⟨h1, h2⟩ := ih _ x hx
      exact ⟨BitVec.le_trans hmax.1 h1, h2⟩

theorem annotate_pairwise (maximum : BitVec 32) (lines : List DebugLine) :
    (annotate maximum lines).Pairwise fun a b => a.endAddress ≤ b.maximumEnd := by
  induction lines generalizing maximum with
  | nil => exact .nil
  | cons l lines ih =>
    rw [annotate]
    refine .cons (fun x hx => ?_) (ih _)
    refine BitVec.le_trans ?_ (le_maximumEnd _ _ x hx).1
    dsimp only
    split_ifs with hgt
    · exact BitVec.le_refl _
    · exact BitVec.not_lt.mp hgt

theorem annotate_attained (maximum : BitVec 32) (lines : List DebugLine) {before after : List DebugLine}
    {l : DebugLine} (h : annotate maximum lines = before ++ l :: after) :
    l.maximumEnd = maximum ∨ ∃ k ∈ before ++ [l], k.endAddress = l.maximumEnd := by
  induction lines generalizing maximum before with
  | nil =>
    rw [annotate] at h
    simp at h
  | cons x lines ih =>
    rw [annotate] at h
    cases before with
    | nil =>
      obtain ⟨rfl, -⟩ := List.cons.inj h
      dsimp only
      split_ifs with hgt
      · exact .inr ⟨_, List.mem_singleton_self _, rfl⟩
      · exact .inl rfl
    | cons b before =>
      obtain ⟨rfl, hrest⟩ := List.cons.inj h
      rcases ih _ hrest with hmax | ⟨k, hk, hend⟩
      · rw [hmax]
        split_ifs with hgt
        · exact .inr ⟨_, List.mem_cons_self, rfl⟩
        · exact .inl rfl
      · exact .inr ⟨k, List.mem_cons_of_mem _ hk, hend⟩

/-- The annotation of a line is the greatest end of the lines up to it. -/
def RunningMaximum (lines : List DebugLine) : Prop :=
  ∀ before l after, lines = before ++ l :: after →
    (∀ k ∈ before ++ [l], k.endAddress ≤ l.maximumEnd) ∧
      ∃ k ∈ before ++ [l], k.endAddress = l.maximumEnd

theorem runningMaximum_annotate (lines : List DebugLine) : RunningMaximum (annotate 0 lines) := by
  intro before l after hsplit
  have hown : l.endAddress ≤ l.maximumEnd := by
    refine (le_maximumEnd 0 lines l ?_).2
    rw [hsplit]
    exact List.mem_append_right _ List.mem_cons_self
  constructor
  · intro k hk
    rcases List.mem_append.mp hk with hk | hk
    · have hpairs := annotate_pairwise 0 lines
      rw [hsplit, List.pairwise_append] at hpairs
      exact hpairs.2.2 k hk l List.mem_cons_self
    · obtain rfl := List.mem_singleton.mp hk
      exact hown
  · rcases annotate_attained 0 lines hsplit with hzero | hattained
    · refine ⟨l, List.mem_append_right _ (List.mem_singleton_self l), ?_⟩
      rw [hzero] at hown ⊢
      exact BitVec.le_antisymm hown (BitVec.le_def.mpr (Nat.zero_le _))
    · exact hattained

/-! ## The queries -/

structure Searchable (lines : List DebugLine) : Prop where
  sorted : lines.Pairwise DebugLine.upTo
  above : lines.Pairwise fun a b => a.endAddress ≤ b.maximumEnd
  own : ∀ l ∈ lines, l.endAddress ≤ l.maximumEnd

theorem pairwise_getD {α : Type} {R : α → α → Prop} {xs : List α} (h : xs.Pairwise R)
    (hr : ∀ x ∈ xs, R x x) (d : α) {i j : ℕ} (hij : i ≤ j) (hj : j < xs.length) :
    R (xs.getD i d) (xs.getD j d) := by
  rcases Nat.lt_or_eq_of_le hij with hlt | rfl
  · rw [List.getD_eq_getElem _ _ (hlt.trans hj), List.getD_eq_getElem _ _ hj]
    exact List.pairwise_iff_getElem.mp h i j _ hj hlt
  · rw [List.getD_eq_getElem _ _ hj]
    exact hr _ (List.getElem_mem hj)

section Queries

variable {info : DebugInfo}

theorem Searchable.lookup (h : Searchable info.lines) (address : BitVec 32) :
    (debugInfoLookup info address = none ↔ ∀ l ∈ info.lines, ¬ l.covers address) ∧
      ∀ l, debugInfoLookup info address = some l → l ∈ info.lines ∧ l.covers address ∧
        ∀ l' ∈ info.lines, l'.covers address → l'.upTo l := by
  set line := fun i => info.lines.getD i {}
  have hat : ∀ i (hi : i < info.lines.length), line i = info.lines[i] := fun i hi =>
    List.getD_eq_getElem _ _ hi
  have hupTo : ∀ i j, i ≤ j → j < info.lines.length → (line i).upTo (line j) := fun i j hij hj =>
    pairwise_getD h.sorted (fun l _ => l.upTo_refl) {} hij hj
  have hends : ∀ i j, i ≤ j → j < info.lines.length →
      (line i).endAddress ≤ (line j).maximumEnd := fun i j hij hj =>
    pairwise_getD h.above h.own {} hij hj
  obtain ⟨-, hle, hbelow, habove⟩ := partitionPoint_splits
    (p := fun i => (line i).beginAddress ≤ address) (Nat.zero_le info.lines.length)
    fun i j hij hj hp => decide_eq_true (BitVec.le_trans (hupTo i j hij hj).begin_le
      (of_decide_eq_true hp))
  set left := partitionPoint (fun i => (line i).beginAddress ≤ address) 0 info.lines.length
  have hhit : ∀ i, ((line i).beginAddress ≤ address && address < (line i).endAddress) = true ↔
      (line i).covers address := fun i => by simp [DebugLine.covers]
  have hnohit : ∀ i, left ≤ i → i < info.lines.length → ¬ (line i).covers address :=
    fun i hi hlt hc => by simpa [hc.1] using habove i hi hlt
  have hgive : ∀ i j, i < left → decide ((line i).maximumEnd ≤ address) = true → j ≤ i →
      ((line j).beginAddress ≤ address && address < (line j).endAddress) = false := by
    intro i j hi hg hji
    rw [Bool.eq_false_iff, Ne, hhit]
    intro hc
    have hend := BitVec.le_trans (hends j i hji (by omega)) (of_decide_eq_true hg)
    exact BitVec.not_lt.mpr hend hc.2
  have hmem : ∀ l, l ∈ info.lines ↔ ∃ i < info.lines.length, line i = l := by
    intro l
    rw [List.mem_iff_getElem]
    constructor
    · rintro ⟨i, hi, rfl⟩
      exact ⟨i, hi, hat i hi⟩
    · rintro ⟨i, hi, rfl⟩
      exact ⟨i, hi, (hat i hi).symm⟩
  obtain ⟨hnone, hsome⟩ := scanBack_spec hgive
  have hlookup : debugInfoLookup info address = (scanBack
      (fun i => (line i).maximumEnd ≤ address)
      (fun i => (line i).beginAddress ≤ address && address < (line i).endAddress) left).map line :=
    rfl
  rw [hlookup]
  constructor
  · rw [Option.map_eq_none_iff, hnone]
    constructor
    · intro hall l hl hc
      obtain ⟨i, hi, rfl⟩ := (hmem l).mp hl
      by_cases hlt : i < left
      · exact Bool.false_ne_true ((hall i hlt).symm.trans ((hhit i).mpr hc))
      · exact hnohit i (by omega) hi hc
    · intro hall i hi
      rw [Bool.eq_false_iff, Ne, hhit]
      exact hall _ ((hmem _).mpr ⟨i, by omega, rfl⟩)
  · intro l hl
    obtain ⟨i, hi, rfl⟩ := Option.map_eq_some_iff.mp hl
    obtain ⟨hlt, hc, hlast⟩ := hsome i hi
    refine ⟨(hmem _).mpr ⟨i, by omega, rfl⟩, (hhit i).mp hc, fun l' hl' hc' => ?_⟩
    obtain ⟨j, hj, rfl⟩ := (hmem l').mp hl'
    refine hupTo j i ?_ (by omega)
    -- a covering line behind the returned one would have been met first
    by_contra hij
    by_cases hjl : j < left
    · exact Bool.false_ne_true ((hlast j (by omega) hjl).symm.trans ((hhit j).mpr hc'))
    · exact hnohit j (by omega) hj hc'

theorem Searchable.lineAddress (h : Searchable info.lines) (file : ℕ) (line : BitVec 32) :
    (debugInfoLineAddress info file line = none ↔
      ∀ l ∈ info.lines, ¬ (l.file = file ∧ l.line = line)) ∧
    ∀ a, debugInfoLineAddress info file line = some a →
      (∃ l ∈ info.lines, l.file = file ∧ l.line = line ∧ l.beginAddress = a) ∧
        ∀ l ∈ info.lines, l.file = file → l.line = line → a ≤ l.beginAddress := by
  constructor
  · rw [debugInfoLineAddress, Option.map_eq_none_iff, List.find?_eq_none]
    simp only [Bool.and_eq_true, decide_eq_true_eq]
  · intro a ha
    obtain ⟨l, hfind, rfl⟩ := Option.map_eq_some_iff.mp ha
    obtain ⟨hl, before, after, happ, hbefore⟩ := List.find?_eq_some_iff_append.mp hfind
    simp only [Bool.and_eq_true, decide_eq_true_eq] at hl
    have hsorted := h.sorted
    rw [happ] at hsorted ⊢
    refine ⟨⟨l, by simp, hl.1, hl.2, rfl⟩, fun l' hl' hfile hline => ?_⟩
    rcases List.mem_append.mp hl' with hin | hin
    · have hno := hbefore l' hin
      simp [hfile, hline] at hno
    · rcases List.mem_cons.mp hin with rfl | hin
      · exact BitVec.le_refl _
      · exact ((List.pairwise_cons.mp (List.pairwise_append.mp hsorted).2.1).1 l' hin).begin_le

end Queries

/-! ## Sorted and annotated lines -/

theorem sortAndAnnotate_sorted {qsort : List DebugLine → List DebugLine}
    (hq : Sorts compareLines qsort) (rows : List DebugLine) :
    ∃ sorted, sorted.Perm rows ∧ sorted.Pairwise DebugLine.upTo ∧
      sortAndAnnotate qsort rows = annotate 0 sorted := by
  unfold sortAndAnnotate
  split_ifs with hlen
  · obtain ⟨hperm, hsorted⟩ := hq rows
    exact ⟨qsort rows, hperm, hsorted.imp fun h => (compareLines_nonpos_iff ..).mp h, rfl⟩
  · refine ⟨rows, .refl _, ?_, rfl⟩
    rcases rows with _ | ⟨r, _ | ⟨r', rest⟩⟩
    · exact .nil
    · exact List.pairwise_singleton ..
    · simp at hlen

theorem forall₂_mem {α β : Type} {R : α → β → Prop} {xs : List α} {ys : List β}
    (h : List.Forall₂ R xs ys) : (∀ x ∈ xs, ∃ y ∈ ys, R x y) ∧ ∀ y ∈ ys, ∃ x ∈ xs, R x y := by
  induction h with
  | nil => simp
  | cons hxy _ ih =>
    obtain ⟨ih1, ih2⟩ := ih
    constructor
    · rintro x (_ | ⟨_, hx⟩)
      · exact ⟨_, List.mem_cons_self, hxy⟩
      · obtain ⟨y, hy, hr⟩ := ih1 x hx
        exact ⟨y, List.mem_cons_of_mem _ hy, hr⟩
    · rintro y (_ | ⟨_, hy⟩)
      · exact ⟨_, List.mem_cons_self, hxy⟩
      · obtain ⟨x, hx, hr⟩ := ih2 y hy
        exact ⟨x, List.mem_cons_of_mem _ hx, hr⟩

theorem forall₂_pairwise {α β : Type} {R : α → β → Prop} {P : α → α → Prop} {Q : β → β → Prop}
    {xs : List α} {ys : List β} (h : List.Forall₂ R xs ys) (hys : ys.Pairwise Q)
    (hR : ∀ a b c d, b ∈ ys → d ∈ ys → R a b → R c d → Q b d → P a c) : xs.Pairwise P := by
  induction h with
  | nil => exact .nil
  | cons hxy hrest ih =>
    obtain ⟨hy, hys⟩ := List.pairwise_cons.mp hys
    refine .cons (fun x hx => ?_) (ih hys fun a b c d hb hd =>
      hR a b c d (List.mem_cons_of_mem _ hb) (List.mem_cons_of_mem _ hd))
    obtain ⟨y, hmem, hr⟩ := (forall₂_mem hrest).1 x hx
    exact hR _ _ x y List.mem_cons_self (List.mem_cons_of_mem _ hmem) hxy hr (hy y hmem)

theorem searchable_annotate {sorted : List DebugLine} (h : sorted.Pairwise DebugLine.upTo) :
    Searchable (annotate 0 sorted) := by
  refine ⟨?_, annotate_pairwise 0 sorted, fun l hl => (le_maximumEnd 0 sorted l hl).2⟩
  have hsame : List.Forall₂ (fun l r => SameLine r l) (annotate 0 sorted) sorted :=
    (annotate_same 0 sorted).flip
  exact forall₂_pairwise hsame h fun _ _ _ _ _ _ hl hl' hle => (hl.upTo_congr hl').mp hle

/-- The sorted and annotated lines are the rows, each with an annotation, ready for the queries. -/
theorem sortAndAnnotate_spec {qsort : List DebugLine → List DebugLine}
    (hq : Sorts compareLines qsort) (rows : List DebugLine) :
    Searchable (sortAndAnnotate qsort rows) ∧
      (∀ r ∈ rows, ∃ l ∈ sortAndAnnotate qsort rows, SameLine r l) ∧
      ∀ l ∈ sortAndAnnotate qsort rows, ∃ r ∈ rows, SameLine r l := by
  obtain ⟨sorted, hperm, hsorted, heq⟩ := sortAndAnnotate_sorted hq rows
  obtain ⟨hleft, hright⟩ := forall₂_mem (annotate_same 0 sorted)
  rw [heq]
  refine ⟨searchable_annotate hsorted, fun r hr => hleft r (hperm.mem_iff.mpr hr), fun l hl => ?_⟩
  obtain ⟨r, hr, hs⟩ := hright l hl
  exact ⟨r, hperm.mem_iff.mp hr, hs⟩

theorem lookup_rows {qsort : List DebugLine → List DebugLine} (hq : Sorts compareLines qsort)
    (rows : List DebugLine) {info : DebugInfo} (hi : info.lines = sortAndAnnotate qsort rows)
    (address : BitVec 32) :
    (debugInfoLookup info address = none ↔ ∀ r ∈ rows, ¬ r.covers address) ∧
      ∀ l, debugInfoLookup info address = some l → ∃ r ∈ rows, SameLine r l ∧ r.covers address ∧
        ∀ r' ∈ rows, r'.covers address → r'.upTo r := by
  obtain ⟨hsearch, hin, hout⟩ := sortAndAnnotate_spec hq rows
  rw [← hi] at hsearch hin hout
  obtain ⟨hnone, hsome⟩ := hsearch.lookup address
  refine ⟨hnone.trans ⟨fun h r hr hc => ?_, fun h l hl hc => ?_⟩, fun l hl => ?_⟩
  · obtain ⟨l, hl, hs⟩ := hin r hr
    exact h l hl ((hs.covers_iff address).mp hc)
  · obtain ⟨r, hr, hs⟩ := hout l hl
    exact h r hr ((hs.covers_iff address).mpr hc)
  · obtain ⟨hmem, hc, hlast⟩ := hsome l hl
    obtain ⟨r, hr, hs⟩ := hout l hmem
    refine ⟨r, hr, hs, (hs.covers_iff address).mpr hc, fun r' hr' hc' => ?_⟩
    obtain ⟨l', hl', hs'⟩ := hin r' hr'
    exact (hs'.upTo_congr hs).mpr (hlast l' hl' ((hs'.covers_iff address).mp hc'))

theorem lineAddress_rows {qsort : List DebugLine → List DebugLine} (hq : Sorts compareLines qsort)
    (rows : List DebugLine) {info : DebugInfo} (hi : info.lines = sortAndAnnotate qsort rows)
    (file : ℕ) (line : BitVec 32) :
    ((debugInfoLineAddress info file line).isSome ↔ ∃ r ∈ rows, r.file = file ∧ r.line = line) ∧
      ∀ a, debugInfoLineAddress info file line = some a →
        (∃ r ∈ rows, r.file = file ∧ r.line = line ∧ r.beginAddress = a) ∧
          ∀ r ∈ rows, r.file = file → r.line = line → a ≤ r.beginAddress := by
  obtain ⟨hsearch, hin, hout⟩ := sortAndAnnotate_spec hq rows
  rw [← hi] at hsearch hin hout
  obtain ⟨hnone, hsome⟩ := hsearch.lineAddress file line
  refine ⟨?_, fun a ha => ?_⟩
  · rw [← not_iff_not, Option.not_isSome_iff_eq_none, hnone, not_exists]
    constructor
    · rintro h r ⟨hr, hfile, hline⟩
      obtain ⟨l, hl, hs⟩ := hin r hr
      exact h l hl ⟨hs.file ▸ hfile, hs.line ▸ hline⟩
    · rintro h l hl ⟨hfile, hline⟩
      obtain ⟨r, hr, hs⟩ := hout l hl
      exact h r ⟨hr, hs.file.trans hfile, hs.line.trans hline⟩
  · obtain ⟨⟨l, hl, hfile, hline, rfl⟩, hleast⟩ := hsome a ha
    obtain ⟨r, hr, hs⟩ := hout l hl
    refine ⟨⟨r, hr, hs.file.trans hfile, hs.line.trans hline, hs.beginAddress⟩, ?_⟩
    intro r' hr' hfile' hline'
    obtain ⟨l', hl', hs'⟩ := hin r' hr'
    rw [hs'.beginAddress]
    exact hleast l' hl' (hs'.file ▸ hfile') (hs'.line ▸ hline')

/-- The answer to an address is a covering row with the largest begin and, among these, the largest
end; the answer to a source line is its smallest begin. -/
theorem queries_search_all_rows {qsort : List DebugLine → List DebugLine}
    (hq : Sorts compareLines qsort) (rows : List DebugLine) {info : DebugInfo}
    (hi : info.lines = sortAndAnnotate qsort rows) :
    (∀ address, (debugInfoLookup info address = none ↔ ∀ r ∈ rows, ¬ r.covers address) ∧
      ∀ l, debugInfoLookup info address = some l → ∃ r ∈ rows, SameLine r l ∧ r.covers address ∧
        ∀ r' ∈ rows, r'.covers address → r'.beginAddress ≤ r.beginAddress ∧
          (r'.beginAddress = r.beginAddress → r'.endAddress ≤ r.endAddress)) ∧
    ∀ file line, ((debugInfoLineAddress info file line).isSome ↔
        ∃ r ∈ rows, r.file = file ∧ r.line = line) ∧
      ∀ a, debugInfoLineAddress info file line = some a →
        (∃ r ∈ rows, r.file = file ∧ r.line = line ∧ r.beginAddress = a) ∧
          ∀ r ∈ rows, r.file = file → r.line = line → a ≤ r.beginAddress := by
  refine ⟨fun address => ?_, fun file line => lineAddress_rows hq rows hi file line⟩
  obtain ⟨hnone, hsome⟩ := lookup_rows hq rows hi address
  refine ⟨hnone, fun l hl => ?_⟩
  obtain ⟨r, hr, hs, hc, hlast⟩ := hsome l hl
  exact ⟨r, hr, hs, hc, fun r' hr' hc' => ⟨(hlast r' hr' hc').begin_le, (hlast r' hr' hc').end_le⟩⟩

def nestedRows : List DebugLine :=
  [{ beginAddress := 8, endAddress := 12, file := 1, line := 30 },
    { beginAddress := 4, endAddress := 20, file := 0, line := 10 }]

def nestedInfo : DebugInfo where
  lines := sortAndAnnotate (List.insertionSort DebugLine.upTo) nestedRows

theorem queries_search_all_rows_nested :
    debugInfoLookup nestedInfo 12 = none ↔ ∀ r ∈ nestedRows, ¬ r.covers 12 :=
  ((queries_search_all_rows sorts_insertionSort nestedRows rfl).1 12).1

end Riscv32
