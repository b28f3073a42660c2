import Riscv32Simulator.Monitor.Numbers
import Riscv32Simulator.Source.MonitorMain

/-! The command line as a list of settings: which arguments are accepted, and what they set. -/

namespace Riscv32
open Format Numerals

inductive Setting
  | run
  | trace
  | color (on : Bool)
  | input (format : ProgramFormat) (path : CText)
  | ram (size : ℕ)
  | maxSteps (n : BitVec 64)
  | loadAddress (n : BitVec 64)
  | entry (n : BitVec 64)
deriving DecidableEq

/-- How a setting is written; the argument behind an option may be any text. -/
inductive Setting.Written : Setting → List CText → Prop
  | run : Written .run [ascii "--run"]
  | trace : Written .trace [ascii "--trace"]
  | color : Written (.color true) [ascii "--color"]
  | noColor : Written (.color false) [ascii "--no-color"]
  | program (path : CText) : Written (.input .words path) [ascii "--program", path]
  | elf (path : CText) : Written (.input .elf path) [ascii "--elf", path]
  | bin (path : CText) : Written (.input .binary path) [ascii "--bin", path]
  | ram {text numeral : CText} {v factor : ℕ} : SizeText text numeral v factor →
    numeral.length ≤ 31 → memorySizeValid (v * factor) = true →
    Written (.ram (v * factor)) [ascii "--ram", text]
  | maxSteps {text : CText} {n : BitVec 64} : Numeral (codes text) n.toNat → n ≠ 0 →
    Written (.maxSteps n) [ascii "--max-steps", text]
  | loadAddress {text : CText} {n : BitVec 64} : Numeral (codes text) n.toNat → n.toNat < 2 ^ 32 →
    Written (.loadAddress n) [ascii "--load-address", text]
  | entry {text : CText} {n : BitVec 64} : Numeral (codes text) n.toNat → n.toNat < 2 ^ 32 →
    Written (.entry n) [ascii "--entry", text]

inductive Line : List Setting → List CText → Prop
  | nil : Line [] []
  | cons {s : Setting} {ss : List Setting} {ws args : List CText} :
    s.Written ws → Line ss args → Line (s :: ss) (ws ++ args)

namespace Setting

def input? : Setting → Option (ProgramFormat × CText)
  | .input format path => some (format, path)
  | _ => none

def ram? : Setting → Option ℕ
  | .ram size => some size
  | _ => none

def maxSteps? : Setting → Option (BitVec 64)
  | .maxSteps n => some n
  | _ => none

def loadAddress? : Setting → Option (BitVec 64)
  | .loadAddress n => some n
  | _ => none

def entry? : Setting → Option (BitVec 64)
  | .entry n => some n
  | _ => none

def color? : Setting → Option Bool
  | .color on => some on
  | _ => none

end Setting

def Options.set (o : Options) : Setting → Options
  | .run => { o with runBatch := true }
  | .trace => { o with trace := true }
  | .color on => { o with color := on }
  | .input format path => { o with path := some path, format := format }
  | .ram size => { o with ramSize := size }
  | .maxSteps n => { o with limit := n }
  | .loadAddress n => { o with loadAddress := n, addressSet := true }
  | .entry n => { o with entry := n, entrySet := true }

def OneInput (o : Options) (ss : List Setting) : Prop :=
  o.path.toList.length + (ss.filterMap Setting.input?).length ≤ 1

/-! ## Arguments that are accepted -/

theorem number_max {text : CText} {n : BitVec 64} :
    number text (BitVec.allOnes 64) = some n ↔ Numeral (codes text) n.toNat := by
  rw [number_iff]
  exact and_iff_left (BitVec.toNat_allOnes ▸ Nat.le_sub_one_of_lt n.isLt)

theorem number_address {text : CText} {n : BitVec 64} :
    number text 0xFFFFFFFF = some n ↔ Numeral (codes text) n.toNat ∧ n.toNat < 2 ^ 32 := by
  rw [number_iff]
  exact and_congr_right fun _ => Nat.lt_succ_iff.symm

theorem parseOptions_value {option : CText} (h : option ∈ [ascii "--program", ascii "--elf",
    ascii "--bin", ascii "--max-steps", ascii "--load-address", ascii "--entry", ascii "--ram"])
    (value : CText) (args : List CText) (o : Options) :
    parseOptions ([option, value] ++ args) o = (setValue option value o).bind (parseOptions args) := by
  have hvalue : takesValue option = true ∧ option ≠ ascii "--help" ∧ option ≠ ascii "--run" ∧
      option ≠ ascii "--trace" ∧ option ≠ ascii "--color" ∧ option ≠ ascii "--no-color" := by
    revert option
    decide
  obtain ⟨htakes, h1, h2, h3, h4, h5⟩ := hvalue
  rw [List.cons_append, List.singleton_append, parseOptions, if_neg h1, if_neg h2, if_neg h3,
    if_neg h4, if_neg h5, if_pos htakes]
  cases setValue option value o <;> rfl

theorem parseOptions_written {s : Setting} {ws : List CText} (h : s.Written ws) {o : Options}
    (ho : OneInput o [s]) (args : List CText) :
    parseOptions (ws ++ args) o = parseOptions args (o.set s) := by
  have hcount (format : ProgramFormat) (path : CText) (h : OneInput o [.input format path]) :
      o.path.isSome = false := by
    cases hpath : o.path with
    | none => rfl
    | some p =>
      rw [OneInput, hpath] at h
      exact absurd h (by simp [Setting.input?])
  cases h with
  | run =>
    rw [List.singleton_append, parseOptions.eq_def]
    dsimp only
    rw [if_neg (by decide), if_pos rfl, Options.set]
  | trace =>
    rw [List.singleton_append, parseOptions.eq_def]
    dsimp only
    rw [if_neg (by decide), if_neg (by decide), if_pos rfl, Options.set]
  | color =>
    rw [List.singleton_append, parseOptions.eq_def]
    dsimp only
    rw [if_neg (by decide), if_neg (by decide), if_neg (by decide), if_pos rfl, Options.set]
  | noColor =>
    rw [List.singleton_append, parseOptions.eq_def]
    dsimp only
    rw [if_neg (by decide), if_neg (by decide), if_neg (by decide), if_neg (by decide), if_pos rfl,
      Options.set]
  | program path =>
    rw [parseOptions_value (by decide), setValue, if_pos (by decide), hcount _ _ ho]
    rfl
  | elf path =>
    rw [parseOptions_value (by decide), setValue, if_pos (by decide), hcount _ _ ho]
    rfl
  | bin path =>
    rw [parseOptions_value (by decide), setValue, if_pos (by decide), hcount _ _ ho]
    rfl
  | @ram text numeral v factor htext hlength hvalid =>
    have hsize : parseRamSize text = some (v * factor) :=
      (parseRamSize_iff _ _).mpr ⟨numeral, v, factor, htext, hlength, rfl, hvalid⟩
    rw [parseOptions_value (by decide), setValue, if_neg (by decide), if_pos rfl, hsize]
    rfl
  | maxSteps hn h0 =>
    rw [parseOptions_value (by decide), setValue, if_neg (by decide), if_neg (by decide),
      if_pos rfl, number_max.mpr hn]
    dsimp only
    rw [if_pos rfl, if_neg h0]
    rfl
  | loadAddress hn hlt =>
    rw [parseOptions_value (by decide), setValue, if_neg (by decide), if_neg (by decide),
      if_neg (by decide), number_address.mpr ⟨hn, hlt⟩]
    dsimp only
    rw [if_neg (by decide), if_pos rfl]
    rfl
  | entry hn hlt =>
    rw [parseOptions_value (by decide), setValue, if_neg (by decide), if_neg (by decide),
      if_neg (by decide), number_address.mpr ⟨hn, hlt⟩]
    dsimp only
    rw [if_neg (by decide), if_neg (by decide)]
    rfl

theorem oneInput_nil (o : Options) : OneInput o [] := by
  unfold OneInput
  cases o.path <;> simp

theorem oneInput_cons (o : Options) (s : Setting) (ss : List Setting) :
    OneInput o (s :: ss) ↔ OneInput o [s] ∧ OneInput (o.set s) ss := by
  unfold OneInput
  cases s with
  | input format path =>
    have hcons : ((Setting.input format path :: ss).filterMap Setting.input?).length =
        (ss.filterMap Setting.input?).length + 1 := rfl
    have hone : ([Setting.input format path].filterMap Setting.input?).length = 1 := rfl
    have hset : (o.set (.input format path)).path.toList.length = 1 := rfl
    rw [hcons, hone, hset]
    omega
  | _ =>
    simp only [List.filterMap_cons, List.filterMap_nil, Setting.input?, Options.set, List.length_nil]
    omega

theorem parseOptions_line {ss : List Setting} {ws : List CText} (h : Line ss ws) {o : Options}
    (ho : OneInput o ss) (args : List CText) :
    parseOptions (ws ++ args) o = parseOptions args (ss.foldl Options.set o) := by
  induction h generalizing o with
  | nil => rfl
  | @cons s ss ws rest hs _ ih =>
    obtain ⟨hone, hrest⟩ := (oneInput_cons o s ss).mp ho
    rw [List.append_assoc, parseOptions_written hs hone, ih hrest, List.foldl_cons]

/-! ## Arguments that are refused -/

def helpExit : Exit := { status := 0, out := usageText }

/-- Status 2, a message, and nothing on the output. -/
structure Refused (e : Exit) : Prop where
  status : e.status = 2
  out : e.out = []
  err : e.err ≠ []

theorem refused {message : Bytes} (h : message ≠ []) : Refused (.refuse message) := ⟨rfl, rfl, h⟩

theorem ascii_ne_nil {s : String} (h : s.toList ≠ []) : ascii s ≠ [] := by
  rw [ascii, Ne, List.map_eq_nil_iff]
  exact h

theorem print_ne_nil {s : Bytes} (h : s ≠ []) (fs : List Directive) (vs : List ℤ) :
    print (.text s :: fs) vs ≠ [] := List.append_ne_nil_of_left_ne_nil h _

/-- The arguments are settings, settings up to a call for help, or refused. -/
def Reads (o : Options) (args : List CText) (result : Except Exit Options) : Prop :=
  (∃ ss, Line ss args ∧ OneInput o ss ∧ result = .ok (ss.foldl Options.set o)) ∨
  (∃ ss ws rest, args = ws ++ ascii "--help" :: rest ∧ Line ss ws ∧ OneInput o ss ∧
    result = .error helpExit) ∨
  ∃ e, Refused e ∧ result = .error e

theorem Reads.cons {o : Options} {s : Setting} {ws args : List CText} {result : Except Exit Options}
    (hs : s.Written ws) (hone : OneInput o [s]) (h : Reads (o.set s) args result) :
    Reads o (ws ++ args) result := by
  rcases h with ⟨ss, hline, ho, hr⟩ | ⟨ss, ws', rest, rfl, hline, ho, hr⟩ | ⟨e, he, hr⟩
  · exact .inl ⟨s :: ss, .cons hs hline, (oneInput_cons o s ss).mpr ⟨hone, ho⟩, hr⟩
  · exact .inr (.inl ⟨s :: ss, ws ++ ws', rest, (List.append_assoc ..).symm, .cons hs hline,
      (oneInput_cons o s ss).mpr ⟨hone, ho⟩, hr⟩)
  · exact .inr (.inr ⟨e, he, hr⟩)

theorem oneInput_single {o : Options} {s : Setting} (h : s.input? = none ∨ o.path = none) :
    OneInput o [s] := by
  unfold OneInput
  rcases h with h | h
  · rw [List.filterMap_cons_none h]
    cases o.path <;> simp
  · rw [h]
    cases hs : s.input? <;> simp [hs]

def ValueRead (option value : CText) (o : Options) : Prop :=
  (∃ s, Setting.Written s [option, value] ∧ OneInput o [s] ∧ setValue option value o = .ok (o.set s)) ∨
    ∃ e, Refused e ∧ setValue option value o = .error e

theorem valueRead_input {option : CText} (h : isInput option = true) (value : CText) (o : Options) :
    ValueRead option value o := by
  unfold ValueRead setValue
  rw [if_pos h]
  by_cases hpath : o.path.isSome = true
  · rw [if_pos hpath]
    exact .inr ⟨_, refused (ascii_ne_nil (by decide)), rfl⟩
  · have hnone : o.path = none := Option.not_isSome_iff_eq_none.mp hpath
    rw [if_neg hpath]
    simp only [isInput, Bool.or_eq_true, decide_eq_true_eq] at h
    rcases h with (rfl | rfl) | rfl
    · exact .inl ⟨_, .program value, oneInput_single (.inr hnone), rfl⟩
    · exact .inl ⟨_, .elf value, oneInput_single (.inr hnone), rfl⟩
    · exact .inl ⟨_, .bin value, oneInput_single (.inr hnone), rfl⟩

theorem valueRead_ram (value : CText) (o : Options) : ValueRead (ascii "--ram") value o := by
  unfold ValueRead setValue
  rw [if_neg (by decide), if_pos rfl]
  cases hsize : parseRamSize value with
  | none => exact .inr ⟨_, refused (ascii_ne_nil (by decide)), rfl⟩
  | some size =>
    obtain ⟨numeral, v, factor, htext, hlength, rfl, hvalid⟩ := (parseRamSize_iff _ _).mp hsize
    exact .inl ⟨_, .ram htext hlength hvalid, oneInput_single (.inl rfl), rfl⟩

theorem valueRead_maxSteps (value : CText) (o : Options) : ValueRead (ascii "--max-steps") value o := by
  unfold ValueRead setValue
  rw [if_neg (by decide), if_neg (by decide), if_pos rfl]
  cases hnumber : number value (BitVec.allOnes 64) with
  | none => exact .inr ⟨_, refused (print_ne_nil (ascii_ne_nil (by decide)) _ _), rfl⟩
  | some n =>
    dsimp only
    rw [if_pos rfl]
    by_cases h0 : n = 0
    · rw [if_pos h0]
      exact .inr ⟨_, refused (ascii_ne_nil (by decide)), rfl⟩
    · rw [if_neg h0]
      exact .inl ⟨_, .maxSteps (number_max.mp hnumber) h0, oneInput_single (.inl rfl), rfl⟩

theorem valueRead_address {option : CText}
    (h : option = ascii "--load-address" ∨ option = ascii "--entry") (value : CText) (o : Options) :
    ValueRead option value o := by
  have hother : isInput option = false ∧ option ≠ ascii "--ram" ∧ option ≠ ascii "--max-steps" := by
    rcases h with rfl | rfl <;> decide
  unfold ValueRead setValue
  rw [if_neg (Bool.eq_false_iff.mp hother.1), if_neg hother.2.1, if_neg hother.2.2]
  cases hnumber : number value 0xFFFFFFFF with
  | none => exact .inr ⟨_, refused (print_ne_nil (ascii_ne_nil (by decide)) _ _), rfl⟩
  | some n =>
    obtain ⟨hn, hlt⟩ := number_address.mp hnumber
    dsimp only
    rw [if_neg hother.2.2]
    rcases h with rfl | rfl
    · rw [if_pos rfl]
      exact .inl ⟨_, .loadAddress hn hlt, oneInput_single (.inl rfl), rfl⟩
    · rw [if_neg (by decide)]
      exact .inl ⟨_, .entry hn hlt, oneInput_single (.inl rfl), rfl⟩

theorem setValue_cases {option : CText} (h : takesValue option = true) (value : CText) (o : Options) :
    ValueRead option value o := by
  simp only [takesValue, Bool.or_eq_true, decide_eq_true_eq] at h
  rcases h with (((hinput | rfl) | hload) | hentry) | rfl
  · exact valueRead_input hinput value o
  · exact valueRead_maxSteps value o
  · exact valueRead_address (.inl hload) value o
  · exact valueRead_address (.inr hentry) value o
  · exact valueRead_ram value o

theorem parseOptions_reads (args : List CText) (o : Options) : Reads o args (parseOptions args o) := by
  induction hn : args.length using Nat.strong_induction_on generalizing args o with
  | _ n ih =>
    subst hn
    cases args with
    | nil => exact .inl ⟨[], .nil, oneInput_nil o, rfl⟩
    | cons option args =>
      have hflag {s : Setting} (hs : s.Written [option]) (hinput : s.input? = none) :
          Reads o (option :: args) (parseOptions args (o.set s)) :=
        (ih args.length (Nat.lt_succ_self _) args (o.set s) rfl).cons hs (oneInput_single (.inl hinput))
      rw [parseOptions.eq_def]
      dsimp only
      split_ifs with h1 h2 h3 h4 h5 h6
      · subst h1
        exact .inr (.inl ⟨[], [], args, rfl, .nil, oneInput_nil o, rfl⟩)
      · exact hflag (s := .run) (h2 ▸ .run) rfl
      · exact hflag (s := .trace) (h3 ▸ .trace) rfl
      · exact hflag (s := .color true) (h4 ▸ .color) rfl
      · exact hflag (s := .color false) (h5 ▸ .noColor) rfl
      · cases args with
        | nil => exact .inr (.inr ⟨_, refused (print_ne_nil (ascii_ne_nil (by decide)) _ _), rfl⟩)
        | cons value args =>
          dsimp only
          rcases setValue_cases h6 value o with ⟨s, hs, hone, hset⟩ | ⟨e, he, hset⟩
          · rw [hset]
            have hlength : args.length < (option :: value :: args).length := by simp
            exact (ih args.length hlength args (o.set s) rfl).cons hs hone
          · rw [hset]
            exact .inr (.inr ⟨e, he, rfl⟩)
      · exact .inr (.inr ⟨_, refused (print_ne_nil (ascii_ne_nil (by decide)) _ _), rfl⟩)

/-! ## What is set -/

def lastOf {α : Type} (f : Setting → Option α) (ss : List Setting) (default : α) : α :=
  (ss.filterMap f).getLastD default

@[simp] theorem lastOf_nil {α : Type} (f : Setting → Option α) (d : α) : lastOf f [] d = d := rfl

@[simp] theorem lastOf_cons {α : Type} (f : Setting → Option α) (s : Setting) (ss : List Setting) (d : α) :
    lastOf f (s :: ss) d = lastOf f ss ((f s).getD d) := by
  unfold lastOf
  cases h : f s with
  | none => rw [List.filterMap_cons_none h, Option.getD_none]
  | some v => rw [List.filterMap_cons_some h, List.getLastD_cons, Option.getD_some]

theorem lastOf_eq_of_none {α : Type} {f : Setting → Option α} {ss : List Setting}
    (h : (ss.any fun s => (f s).isSome) = false) (d : α) : lastOf f ss d = d := by
  induction ss generalizing d with
  | nil => rfl
  | cons s ss ih =>
    rw [List.any_cons, Bool.or_eq_false_iff, Option.isSome_eq_false_iff, Option.isNone_iff_eq_none] at h
    rw [lastOf_cons, ih h.2, h.1, Option.getD_none]

theorem lastOf_eq_of_some {α : Type} {f : Setting → Option α} {ss : List Setting}
    (h : (ss.any fun s => (f s).isSome) = true) (d d' : α) : lastOf f ss d = lastOf f ss d' := by
  induction ss generalizing d d' with
  | nil => cases h
  | cons s ss ih =>
    rw [List.any_cons, Bool.or_eq_true] at h
    rw [lastOf_cons, lastOf_cons]
    cases hs : f s with
    | none =>
      rw [hs] at h
      exact ih (h.resolve_left Bool.false_ne_true) _ _
    | some v => rfl

def settled (ss : List Setting) (o : Options) : Options where
  path := lastOf (fun s => s.input?.map fun p => some p.2) ss o.path
  format := lastOf (fun s => s.input?.map Prod.fst) ss o.format
  loadAddress := lastOf Setting.loadAddress? ss o.loadAddress
  entry := lastOf Setting.entry? ss o.entry
  limit := lastOf Setting.maxSteps? ss o.limit
  ramSize := lastOf Setting.ram? ss o.ramSize
  entrySet := o.entrySet || ss.any fun s => s.entry?.isSome
  addressSet := o.addressSet || ss.any fun s => s.loadAddress?.isSome
  runBatch := o.runBatch || ss.contains .run
  trace := o.trace || ss.contains .trace
  color := lastOf Setting.color? ss o.color

theorem foldl_set (ss : List Setting) (o : Options) : ss.foldl Options.set o = settled ss o := by
  induction ss generalizing o with
  | nil => simp [settled]
  | cons s ss ih =>
    rw [List.foldl_cons, ih]
    cases s <;> simp [settled, Options.set, Setting.input?, Setting.ram?, Setting.maxSteps?,
      Setting.loadAddress?, Setting.entry?, Setting.color?]

def commandLine (isatty : Bool) (ss : List Setting) (format : ProgramFormat) (path : CText) : Options where
  path := some path
  format := format
  loadAddress := lastOf Setting.loadAddress? ss 0
  entry := lastOf Setting.entry? ss (lastOf Setting.loadAddress? ss 0)
  limit := lastOf Setting.maxSteps? ss defaultLimit
  ramSize := lastOf Setting.ram? ss memoryDefaultSize
  entrySet := ss.any fun s => s.entry?.isSome
  addressSet := ss.any fun s => s.loadAddress?.isSome
  runBatch := ss.contains .run
  trace := ss.contains .trace
  color := lastOf Setting.color? ss isatty

/-- A raw binary needs its two addresses, and an ELF file brings its own. -/
def Complete (format : ProgramFormat) (ss : List Setting) : Prop :=
  (format = .binary → (∃ s ∈ ss, s.loadAddress?.isSome) ∧ ∃ s ∈ ss, s.entry?.isSome) ∧
  (format = .elf → ∀ s ∈ ss, s.loadAddress? = none ∧ s.entry? = none)

/-- The options and the path of the input, before anything is opened. -/
def readOptions (isatty : Bool) (args : List CText) : Except Exit (Options × CText) :=
  (parseOptions args { color := isatty }).bind checkOptions

theorem usageText_ne_nil : usageText ≠ [] := by decide +kernel

theorem checkOptions_refused {o : Options} {e : Exit} (h : checkOptions o = .error e) : Refused e := by
  unfold checkOptions at h
  cases hpath : o.path with
  | none =>
    rw [hpath] at h
    cases h
    exact refused usageText_ne_nil
  | some path =>
    rw [hpath] at h
    dsimp only at h
    split_ifs at h
    · cases h
      exact refused (ascii_ne_nil (by decide))
    · cases h
      exact refused (ascii_ne_nil (by decide))

theorem lastOf_input {α : Type} (g : ProgramFormat × CText → α) (ss : List Setting) (d : α) :
    lastOf (fun s => s.input?.map g) ss d = ((ss.filterMap Setting.input?).map g).getLastD d := by
  rw [lastOf, List.map_filterMap]

theorem complete_iff (format : ProgramFormat) (ss : List Setting) : Complete format ss ↔
    ¬ (format = .binary ∧ ((ss.any fun s => s.loadAddress?.isSome) = false ∨
      (ss.any fun s => s.entry?.isSome) = false)) ∧
    ¬ (format = .elf ∧ ((ss.any fun s => s.loadAddress?.isSome) = true ∨
      (ss.any fun s => s.entry?.isSome) = true)) := by
  unfold Complete
  refine and_congr ?_ ?_
  · rw [not_and, not_or, Bool.not_eq_false, Bool.not_eq_false, List.any_eq_true, List.any_eq_true]
  · rw [not_and, not_or, Bool.not_eq_true, Bool.not_eq_true, List.any_eq_false, List.any_eq_false,
      ← forall₂_and]
    simp only [Bool.not_eq_true, Option.isSome_eq_false_iff, Option.isNone_iff_eq_none]

theorem commandLine_entry (isatty : Bool) (ss : List Setting) (format : ProgramFormat) (path : CText) :
    (if (ss.any fun s => s.entry?.isSome) = true then
      { commandLine isatty ss format path with entry := lastOf Setting.entry? ss 0 }
    else { commandLine isatty ss format path with entry := lastOf Setting.loadAddress? ss 0 }) =
      commandLine isatty ss format path := by
  split_ifs with h
  · rw [lastOf_eq_of_some h 0 (lastOf Setting.loadAddress? ss 0)]
    rfl
  · rw [commandLine, lastOf_eq_of_none (Bool.eq_false_iff.mpr h)]

def Options.withEntry (o : Options) : Options :=
  if o.entrySet then o else { o with entry := o.loadAddress }

theorem checkOptions_ok_iff (o o' : Options) (path : CText) : checkOptions o = .ok (o', path) ↔
    o.path = some path ∧
    (¬ (o.format = .binary ∧ (o.addressSet = false ∨ o.entrySet = false)) ∧
      ¬ (o.format = .elf ∧ (o.addressSet = true ∨ o.entrySet = true))) ∧
    o' = o.withEntry := by
  unfold checkOptions Options.withEntry
  cases o.path with
  | none => simp
  | some p =>
    dsimp only
    by_cases h1 : o.format = .binary ∧ (o.addressSet = false ∨ o.entrySet = false)
    · rw [if_pos h1]
      exact iff_of_false nofun fun h => h.2.1.1 h1
    · rw [if_neg h1]
      by_cases h2 : o.format = .elf ∧ (o.addressSet = true ∨ o.entrySet = true)
      · rw [if_pos h2]
        exact iff_of_false nofun fun h => h.2.1.2 h2
      · rw [if_neg h2, Except.ok.injEq, Prod.mk.injEq, Option.some.injEq]
        exact ⟨fun h => ⟨h.2, ⟨h1, h2⟩, h.1.symm⟩, fun h => ⟨h.2.2.symm, h.1⟩⟩

theorem withEntry_settled (isatty : Bool) {ss : List Setting} {format : ProgramFormat} {path : CText}
    (h : ss.filterMap Setting.input? = [(format, path)]) :
    (settled ss { color := isatty }).withEntry = commandLine isatty ss format path := by
  have hpath := lastOf_input (fun p => some p.2) ss none
  have hformat := lastOf_input Prod.fst ss .words
  rw [h] at hpath hformat
  unfold Options.withEntry settled
  dsimp only
  rw [hpath, hformat, Bool.false_or, Bool.false_or, Bool.false_or, Bool.false_or]
  exact commandLine_entry isatty ss format path

theorem checkOptions_settled (isatty : Bool) {ss : List Setting}
    (ho : (ss.filterMap Setting.input?).length ≤ 1) (o : Options) (path : CText) :
    checkOptions (settled ss { color := isatty }) = .ok (o, path) ↔
      ∃ format, ss.filterMap Setting.input? = [(format, path)] ∧ Complete format ss ∧
        o = commandLine isatty ss format path := by
  have hpath : (settled ss { color := isatty }).path = _ := lastOf_input (fun p => some p.2) ss none
  have hformat : (settled ss { color := isatty }).format = _ := lastOf_input Prod.fst ss .words
  rw [checkOptions_ok_iff, hpath, hformat]
  rcases hinputs : ss.filterMap Setting.input? with _ | ⟨⟨format, p⟩, _ | ⟨q, rest⟩⟩
  · simp
  · rw [withEntry_settled isatty hinputs]
    constructor
    · rintro ⟨hp, htests, rfl⟩
      obtain rfl := Option.some.inj hp
      exact ⟨format, rfl, (complete_iff format ss).mpr htests, rfl⟩
    · rintro ⟨format', heq, hc, rfl⟩
      obtain ⟨rfl, rfl⟩ := Prod.mk.inj (List.singleton_inj.mp heq)
      exact ⟨rfl, (complete_iff format ss).mp hc, rfl⟩
  · rw [hinputs] at ho
    simp at ho

/-! ## The command line -/

theorem oneInput_start (isatty : Bool) (ss : List Setting) :
    OneInput { color := isatty } ss ↔ (ss.filterMap Setting.input?).length ≤ 1 := by
  rw [OneInput, Option.toList_none, List.length_nil, Nat.zero_add]

theorem not_refused_help : ¬ Refused helpExit := fun h => absurd h.status (by decide)

theorem parseOptions_help (args : List CText) (o : Options) :
    parseOptions (ascii "--help" :: args) o = .error helpExit := by
  rw [parseOptions.eq_def]
  dsimp only
  rw [if_pos rfl]
  rfl

theorem parseOptions_settled (isatty : Bool) {ss : List Setting} {ws : List CText} (hline : Line ss ws)
    (ho : (ss.filterMap Setting.input?).length ≤ 1) (rest : List CText) :
    parseOptions (ws ++ rest) { color := isatty } =
      parseOptions rest (settled ss { color := isatty }) := by
  rw [parseOptions_line hline ((oneInput_start isatty ss).mpr ho), foldl_set]

theorem readOptions_ok_iff (isatty : Bool) (args : List CText) (o : Options) (path : CText) :
    readOptions isatty args = .ok (o, path) ↔
      ∃ ss format, Line ss args ∧ ss.filterMap Setting.input? = [(format, path)] ∧
        Complete format ss ∧ o = commandLine isatty ss format path := by
  unfold readOptions
  constructor
  · intro h
    rcases parseOptions_reads args { color := isatty } with
      ⟨ss, hline, ho, hr⟩ | ⟨ss, ws, rest, -, -, -, hr⟩ | ⟨e, -, hr⟩
    · rw [hr, foldl_set] at h
      obtain ⟨format, hinput, hc, ho'⟩ :=
        (checkOptions_settled isatty ((oneInput_start isatty ss).mp ho) o path).mp h
      exact ⟨ss, format, hline, hinput, hc, ho'⟩
    · rw [hr] at h
      cases h
    · rw [hr] at h
      cases h
  · rintro ⟨ss, format, hline, hinput, hc, rfl⟩
    have ho : (ss.filterMap Setting.input?).length ≤ 1 := by
      rw [hinput]
      exact le_rfl
    have hparse := parseOptions_settled isatty hline ho []
    rw [List.append_nil, parseOptions] at hparse
    rw [hparse]
    exact (checkOptions_settled isatty ho _ path).mpr ⟨format, hinput, hc, rfl⟩

theorem readOptions_error {isatty : Bool} {args : List CText} {e : Exit}
    (h : readOptions isatty args = .error e) : e = helpExit ∨ Refused e := by
  unfold readOptions at h
  rcases parseOptions_reads args { color := isatty } with
    ⟨ss, -, -, hr⟩ | ⟨ss, ws, rest, -, -, -, hr⟩ | ⟨e', he, hr⟩
  · rw [hr] at h
    exact .inr (checkOptions_refused h)
  · rw [hr] at h
    cases h
    exact .inl rfl
  · rw [hr] at h
    cases h
    exact .inr he

theorem readOptions_help_iff (isatty : Bool) (args : List CText) :
    readOptions isatty args = .error helpExit ↔ ∃ ss ws rest, args = ws ++ ascii "--help" :: rest ∧
      Line ss ws ∧ (ss.filterMap Setting.input?).length ≤ 1 := by
  unfold readOptions
  constructor
  · intro h
    rcases parseOptions_reads args { color := isatty } with
      ⟨ss, -, -, hr⟩ | ⟨ss, ws, rest, heq, hline, ho, -⟩ | ⟨e, he, hr⟩
    · rw [hr] at h
      exact absurd (checkOptions_refused h) not_refused_help
    · exact ⟨ss, ws, rest, heq, hline, (oneInput_start isatty ss).mp ho⟩
    · rw [hr] at h
      cases h
      exact absurd he not_refused_help
  · rintro ⟨ss, ws, rest, rfl, hline, ho⟩
    rw [parseOptions_settled isatty hline ho, parseOptions_help]
    rfl

/-- The accepted command lines are the renderings of settings with one input, complete for its
format, in any order, of which the last of each kind counts; a call for help behind settings is
answered whatever follows it; all others are refused with status 2 and a message. -/
theorem command_line_settings (isatty : Bool) (args : List CText) :
    (∀ o path, readOptions isatty args = .ok (o, path) ↔
      ∃ ss format, Line ss args ∧ ss.filterMap Setting.input? = [(format, path)] ∧
        Complete format ss ∧ o = commandLine isatty ss format path) ∧
    (readOptions isatty args = .error helpExit ↔ ∃ ss ws rest, args = ws ++ ascii "--help" :: rest ∧
      Line ss ws ∧ (ss.filterMap Setting.input?).length ≤ 1) ∧
    ∀ e, readOptions isatty args = .error e → e = helpExit ∨ Refused e :=
  ⟨readOptions_ok_iff isatty args, readOptions_help_iff isatty args, fun _ => readOptions_error⟩

/-! ## The limit -/

theorem Line.maxSteps_ne_zero {ss : List Setting} {args : List CText} (h : Line ss args)
    {n : BitVec 64} (hn : Setting.maxSteps n ∈ ss) : n ≠ 0 := by
  induction h with
  | nil => simp at hn
  | cons hs _ ih =>
    rcases List.mem_cons.mp hn with rfl | hn
    · cases hs with
      | maxSteps _ h0 => exact h0
    · exact ih hn

theorem lastOf_mem {α : Type} (f : Setting → Option α) (ss : List Setting) (d : α) :
    lastOf f ss d = d ∨ ∃ s ∈ ss, f s = some (lastOf f ss d) := by
  induction ss generalizing d with
  | nil => exact .inl rfl
  | cons s ss ih =>
    rw [lastOf_cons]
    rcases ih ((f s).getD d) with h | ⟨s', hs', h⟩
    · cases hs : f s with
      | none =>
        rw [hs] at h
        exact .inl h
      | some v =>
        rw [hs] at h
        exact .inr ⟨s, List.mem_cons_self, hs.trans (congrArg some h.symm)⟩
    · exact .inr ⟨s', List.mem_cons_of_mem s hs', h⟩

/-- Every accepted line allows at least one attempt. -/
theorem readOptions_limit {isatty : Bool} {args : List CText} {o : Options} {path : CText}
    (h : readOptions isatty args = .ok (o, path)) : o.limit ≠ 0 := by
  obtain ⟨ss, format, hline, -, -, rfl⟩ := (readOptions_ok_iff isatty args o path).mp h
  rcases lastOf_mem Setting.maxSteps? ss defaultLimit with hd | ⟨s, hs, hlast⟩
  · exact hd.trans_ne (by decide)
  · cases s with
    | maxSteps n =>
      obtain rfl := Option.some.inj hlast
      exact hline.maxSteps_ne_zero hs
    | _ => cases hlast

end Riscv32
