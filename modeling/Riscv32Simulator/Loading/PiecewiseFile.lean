import Riscv32Simulator.Source.InputStream
import Riscv32Simulator.Loading.WholeFile

/-! `program_input_bytes` reads the same bytes however the stream delivers them. -/

namespace Riscv32.Pieces
open Checked Splice

/-! ## One read -/

structure Served (f : File) (n : ℕ) (got : List (BitVec 8)) (after : File) : Prop where
  split : got ++ after.rest = f.rest
  room : got.length ≤ n
  failing : after.failing = f.failing
  error : after.error = true → f.failing = true
  eof : after.eof = true → after.rest = [] ∧ f.failing = false
  progress : after.eof = false → after.error = false → got.length < n → 0 < got.length

theorem served_fread {f : File} (heof : f.eof = false) (herror : f.error = false) (n : ℕ) :
    Served f n (f.fread n).1 (f.fread n).2 := by
  unfold File.fread File.take
  by_cases hn : n = 0
  · rw [if_pos hn]
    refine ⟨rfl, Nat.zero_le _, rfl, ?_, ?_, ?_⟩
    · simp [herror]
    · simp [heof]
    · simp [hn]
  · rw [if_neg hn]
    dsimp only
    have hlen : (f.rest.take (min n (max 1 (f.serve f.reads).1))).length ≤ n := by
      rw [List.length_take]
      omega
    split_ifs with hend
    · -- the read met the end: one of the two indicators is set
      refine ⟨List.take_append_drop _ _, hlen, rfl, ?_, ?_, ?_⟩
      · simp [File.meetEnd, herror]
      · intro h
        refine ⟨hend.1, ?_⟩
        simpa [File.meetEnd, heof] using h
      · intro h h'
        simp [File.meetEnd, heof, herror] at h h'
        simp [h] at h'
    · refine ⟨List.take_append_drop _ _, hlen, rfl, ?_, ?_, ?_⟩
      · simp [herror]
      · simp [heof]
      · intro _ _ hshort
        dsimp only at hend hshort ⊢
        by_contra hzero
        have hgot : (f.rest.take (min n (max 1 (f.serve f.reads).1))).length = 0 := by omega
        refine hend ⟨?_, hshort, .inr (List.length_eq_zero_iff.mp hgot)⟩
        rw [List.length_take] at hgot
        rw [List.drop_eq_nil_iff]
        omega

/-! ## The loop -/

/-- The block begins with the bytes that have left the stream, and no block exceeds the limit. -/
structure Receiving (input : File) (limit : ℕ) (b : Buffer) : Prop where
  split : b.data.take b.used ++ b.input.rest = input.rest
  block : b.data.length = b.capacity
  room : b.used ≤ b.capacity
  capacity : b.capacity ≤ limit
  positive : 0 < b.capacity
  failing : b.input.failing = input.failing
  eof : b.input.eof = false
  error : b.input.error = false

structure Received (input : File) (limit : ℕ) (r : List (BitVec 8) × ℕ) : Prop where
  same : r.1.take r.2 = input.rest
  room : r.2 ≤ r.1.length
  fits : r.1.length ≤ limit
  complete : input.failing = false

inductive Refused (input : File) (limit : ℕ) (host : Host) : ProgramError → Prop
  | failing (h : input.failing = true) : Refused input limit host ⟨0, "input read error"⟩
  | long (h : limit < input.rest.length) :
      Refused input limit host ⟨0, "input exceeds size limit or available RAM"⟩
  | ungranted {size : ℕ} (hsize : size ≤ limit) (h : host.malloc size = none) (message : String) :
      Refused input limit host ⟨0, message⟩

theorem Received.count {input : File} {limit : ℕ} {r : List (BitVec 8) × ℕ}
    (h : Received input limit r) : r.2 = input.rest.length := by
  have hlen := congrArg List.length h.same
  rw [List.length_take, Nat.min_eq_left h.room] at hlen
  exact hlen

theorem meets_storeAt {E : ProgramError → Prop} {data ys : List (BitVec 8)} {i : ℕ}
    (h : i + ys.length ≤ data.length) : Meets (· = overwrite data i ys) E (storeAt data i ys) := by
  rw [storeAt, if_pos h]
  exact rfl

variable {input : File} {limit : ℕ}

theorem Receiving.taken {b : Buffer} (h : Receiving input limit b) {got : List (BitVec 8)}
    {after : File} (hs : Served b.input (b.capacity - b.used) got after) :
    (overwrite b.data b.used got).take (b.used + got.length) ++ after.rest = input.rest := by
  have hroom := h.room
  have hblock := h.block
  have hgot := hs.room
  rw [take_overwrite _ _ (by omega), List.append_assoc, hs.split, h.split]

theorem Receiving.read {b : Buffer} (h : Receiving input limit b) {got : List (BitVec 8)}
    {after : File} (hs : Served b.input (b.capacity - b.used) got after) (heof : after.eof = false)
    (herror : after.error = false) : Receiving input limit
      { capacity := b.capacity, data := overwrite b.data b.used got, used := b.used + got.length,
        input := after } := by
  have hroom := h.room
  have hgot := hs.room
  refine ⟨h.taken hs, ?_, ?_, h.capacity, h.positive, hs.failing.trans h.failing, heof, herror⟩
  · rw [length_overwrite, h.block]
  · dsimp only
    omega

theorem Receiving.grow {b : Buffer} (h : Receiving input limit b) (hfull : b.used = b.capacity)
    {byte : BitVec 8} {rest : List (BitVec 8)} (hrest : b.input.rest = byte :: rest) {next : ℕ}
    (hlt : b.capacity < next) (hle : next ≤ limit) {fresh : List (BitVec 8)}
    (hfresh : fresh.length = next) :
    b.used + [byte].length ≤ (b.data ++ fresh.drop b.data.length).length ∧
    Receiving input limit
      { capacity := next, data := overwrite (b.data ++ fresh.drop b.data.length) b.used [byte],
        used := b.used + 1, input := { b.input with rest := rest } } := by
  have hblock := h.block
  have hgrown : (b.data ++ fresh.drop b.data.length).length = next := by
    rw [List.length_append, List.length_drop]
    omega
  have hstore : b.used + [byte].length ≤ (b.data ++ fresh.drop b.data.length).length := by
    rw [List.length_singleton]
    omega
  refine ⟨hstore, ?_, ?_, ?_, hle, h.positive.trans hlt, h.failing, h.eof, h.error⟩
  · have htake := take_overwrite _ _ hstore
    rw [List.length_singleton, List.take_append_of_le_length (by omega)] at htake
    rw [htake, List.append_assoc, List.singleton_append, ← hrest, h.split]
  · rw [length_overwrite, hgrown]
  · dsimp only
    omega

theorem next_capacity {capacity : ℕ} (hpos : 0 < capacity) (hlt : capacity < limit) :
    capacity < (if capacity > limit / 2 then limit else capacity * 2) ∧
      (if capacity > limit / 2 then limit else capacity * 2) ≤ limit := by
  split_ifs <;> omega

theorem meets_inputBytesTurn (host : Host) {b : Buffer} (h : Receiving input limit b) :
    Meets (Sum.elim
        (fun b' => Receiving input limit b' ∧ b'.input.rest.length < b.input.rest.length)
        (Received input limit)) (Refused input limit host) (inputBytesTurn limit host b) := by
  have hroom := h.room
  have hblock := h.block
  have hcap := h.capacity
  have hserved := served_fread h.eof h.error (b.capacity - b.used)
  unfold inputBytesTurn
  generalize b.input.fread (b.capacity - b.used) = read at hserved ⊢
  obtain ⟨got, after⟩ := read
  dsimp only at hserved ⊢
  have hgot := hserved.room
  have hfit : b.used + got.length ≤ b.data.length := by omega
  have hleft : got.length + after.rest.length = b.input.rest.length := by
    rw [← List.length_append, hserved.split]
  refine (meets_storeAt hfit).bind fun data hdata => ?_
  subst hdata
  refine (meets_rejectIf fun herr => .failing (h.failing ▸ hserved.error herr)).bind fun _ herr => ?_
  have herr' : after.error = false := by simpa using herr
  refine meets_ite (fun heof => meets_pure ?_) fun heof => ?_
  · -- the end of the file was met by the block read
    obtain ⟨hrest, hok⟩ := hserved.eof heof
    have htaken := h.taken hserved
    rw [hrest, List.append_nil] at htaken
    refine ⟨htaken, ?_, ?_, h.failing ▸ hok⟩
    · rwa [length_overwrite]
    · rw [length_overwrite]
      omega
  · have heof' : after.eof = false := by simpa using heof
    have hread := h.read hserved heof' herr'
    refine meets_ite (fun hshort => meets_pure ⟨hread, ?_⟩) fun hfull => ?_
    · -- a short read: the rest of the room is asked for in the next turn
      have hprogress := hserved.progress heof' herr' (by omega)
      dsimp only
      omega
    · have hused : b.used + got.length = b.capacity := by omega
      cases hrest : after.rest with
      | nil =>
        -- the probe meets the end: the block is exactly full
        have hprobe : after.fgetc = (none, after.meetEnd) := by simp only [File.fgetc, hrest]
        have hend : after.meetEnd.error = input.failing := by
          rw [File.meetEnd, herr', hread.failing, Bool.false_or]
        have htaken := h.taken hserved
        rw [hrest, List.append_nil] at htaken
        rw [hprobe]
        refine (meets_rejectIf fun hf => .failing (hend ▸ hf)).bind fun _ hf => meets_pure ?_
        refine ⟨htaken, ?_, ?_, ?_⟩
        · rwa [length_overwrite]
        · rw [length_overwrite]
          omega
        · rw [← hend]
          exact Bool.eq_false_iff.mpr hf
      | cons byte rest =>
        have hprobe : after.fgetc = (some byte, { after with rest := rest }) := by
          simp only [File.fgetc, hrest]
        have hall := congrArg List.length hread.split
        dsimp only at hall
        rw [List.length_append, List.length_take, length_overwrite, hrest, List.length_cons] at hall
        rw [hrest, List.length_cons] at hleft
        rw [hprobe]
        refine (meets_rejectIf fun hlimit => .long (by omega)).bind fun _ hlimit => ?_
        obtain ⟨hlt, hle⟩ := next_capacity h.positive (lt_of_le_of_ne hcap hlimit)
        generalize (if b.capacity > limit / 2 then limit else b.capacity * 2) = next at hlt hle
        cases hmalloc : host.malloc next with
        | none =>
          rw [Host.realloc, hmalloc]
          exact meets_reported (.ungranted hle hmalloc _)
        | some fresh =>
          have hfresh := host.length_malloc next fresh hmalloc
          obtain ⟨hstore, hgrow⟩ := hread.grow hused hrest hlt hle hfresh
          rw [Host.realloc, hmalloc]
          refine (meets_storeAt hstore).bind fun grown hgrown => meets_pure ?_
          subst hgrown
          refine ⟨hgrow, ?_⟩
          dsimp only
          omega

theorem meets_start (input : File) (hlimit : 1 ≤ limit) (host : Host) (heof : input.eof = false)
    (herror : input.error = false) : Meets (fun b => Receiving input limit b ∧ b.input = input)
      (Refused input limit host) (start input limit host) := by
  have hcap : 0 < (if limit < 4096 then limit else 4096) ∧
      (if limit < 4096 then limit else 4096) ≤ limit := by
    split_ifs <;> omega
  unfold start
  dsimp only
  generalize (if limit < 4096 then limit else 4096) = capacity at hcap
  cases hmalloc : host.malloc capacity with
  | none => exact meets_reported (.ungranted hcap.2 hmalloc _)
  | some data =>
    have hlen := host.length_malloc capacity data hmalloc
    exact ⟨⟨rfl, hlen, Nat.zero_le _, hcap.2, hcap.1, rfl, heof, herror⟩, rfl⟩

theorem meets_programInputBytes (input : File) (hlimit : 1 ≤ limit) (host : Host)
    (heof : input.eof = false) (herror : input.error = false) :
    Meets (Received input limit) (Refused input limit host) (programInputBytes input limit host) := by
  refine (meets_start input hlimit host heof herror).bind fun b hb => ?_
  exact meets_loop (I := Receiving input limit) (fun b => b.input.rest.length)
    (fun b hb => meets_inputBytesTurn host hb) hb.1 (hb.2 ▸ Nat.lt_succ_self _)

/-- In every state of the loop the bytes read lie inside the block, and the block inside the limit. -/
theorem receiving_of_reached (hlimit : 1 ≤ limit) (host : Host) (heof : input.eof = false)
    (herror : input.error = false) {b₀ b : Buffer} (hstart : start input limit host = .ok b₀)
    (hreach : Relation.ReflTransGen (Continues (inputBytesTurn limit host)) b₀ b) :
    Receiving input limit b := by
  have h₀ := ((meets_start input hlimit host heof herror).of_ok hstart).1
  refine invariant_of_reached (I := Receiving input limit) (Q := Received input limit)
    (E := Refused input limit host) (fun s hs => (meets_inputBytesTurn host hs).imp ?_) h₀ hreach
  intro r hr
  cases r with
  | inl t => exact hr.1
  | inr out => exact hr

/-- However a stream that does not fail delivers its bytes, they are read whole and in order when
they fit the limit and refused for their length when they do not. Every store of the loop falls inside
the block, or the computation would stop as `outside`, and the block never exceeds the limit. -/
theorem inputBytes_whole (bytes : List (BitVec 8)) (serve : ℕ → ℕ × Bool) (hlimit : 1 ≤ limit)
    (host : Host) (hgrants : ∀ size ≤ limit, (host.malloc size).isSome = true) :
    (bytes.length ≤ limit → ∃ data,
      programInputBytes { rest := bytes, serve := serve } limit host = .ok (data, bytes.length) ∧
        data.take bytes.length = bytes) ∧
    (limit < bytes.length → programInputBytes { rest := bytes, serve := serve } limit host =
      .error (.reported ⟨0, "input exceeds size limit or available RAM"⟩)) ∧
    ∀ b₀ b, start { rest := bytes, serve := serve } limit host = .ok b₀ →
      Relation.ReflTransGen (Continues (inputBytesTurn limit host)) b₀ b →
        b.used ≤ b.capacity ∧ b.data.length = b.capacity ∧ b.capacity ≤ limit := by
  have hmeets := meets_programInputBytes { rest := bytes, serve := serve } hlimit host rfl rfl
  have hgranted : ∀ {e}, Refused { rest := bytes, serve := serve } limit host e →
      limit < bytes.length ∧ e = ⟨0, "input exceeds size limit or available RAM"⟩ := by
    intro e he
    cases he with
    | failing h => simp at h
    | long h => exact ⟨h, rfl⟩
    | ungranted hsize h =>
      have hsome := hgrants _ hsize
      simp [h] at hsome
  refine ⟨fun hfits => ?_, fun hlong => ?_, fun b₀ b hstart hreach => ?_⟩
  · rcases hmeets.ok_or_reported with ⟨⟨data, used⟩, hok, hr⟩ | ⟨e, -, he⟩
    · have hcount : used = bytes.length := hr.count
      subst hcount
      exact ⟨data, hok, hr.same⟩
    · exact absurd (hgranted he).1 (by omega)
  · rcases hmeets.ok_or_reported with ⟨⟨data, used⟩, hok, hr⟩ | ⟨e, herr, he⟩
    · have hcount : used = bytes.length := hr.count
      have hroom : used ≤ data.length := hr.room
      have hfits : data.length ≤ limit := hr.fits
      omega
    · rw [herr, (hgranted he).2]
  · have h := receiving_of_reached hlimit host rfl rfl hstart hreach
    exact ⟨h.room, h.block, h.capacity⟩

def Host.granting : Host where
  malloc size := some (List.replicate size 0)
  length_malloc := by
    intro size block hblock
    rw [← Option.some.inj hblock]
    exact List.length_replicate

/-- Five bytes in pieces of two, with a limit of five: the block is full before the end is met. -/
theorem inputBytes_whole_five : ∃ data, programInputBytes
    { rest := [1#8, 2#8, 3#8, 4#8, 5#8], serve := fun _ => (2, false) } 5 Host.granting =
      .ok (data, 5) ∧ data.take 5 = [1#8, 2#8, 3#8, 4#8, 5#8] :=
  (inputBytes_whole [1#8, 2#8, 3#8, 4#8, 5#8] (fun _ => (2, false)) (by decide) Host.granting
    (fun _ _ => rfl)).1 (by decide)

/-- Delivery in pieces gives what a stream gives that serves every read in full. -/
theorem inputBytes_eq_whole (input : Input) (serve : ℕ → ℕ × Bool) (hlimit : 1 ≤ limit) (host : Host)
    (hgrants : ∀ size, (host.malloc size).isSome = true) :
    (programInputBytes { rest := input.rest, failing := input.failing, serve := serve } limit
        host).toOption.map (fun r => r.1.take r.2) =
      (Riscv32.programInputBytes input limit fun size => (host.malloc size).isSome).toOption := by
  have hpieces := meets_programInputBytes
    { rest := input.rest, failing := input.failing, serve := serve } hlimit host rfl rfl
  have hwhole := Riscv32.meets_programInputBytes input limit fun size => (host.malloc size).isSome
  rcases hpieces.ok_or_reported with ⟨r, hr, hgot⟩ | ⟨e, hr, he⟩
  · have hcount : r.2 = input.rest.length := hgot.count
    have hroom := hgot.room
    have hfits := hgot.fits
    have hcomplete : input.failing = false := hgot.complete
    rcases hwhole.ok_or_reported with ⟨bytes, hb, hread⟩ | ⟨e, -, he⟩
    · rw [hr, hb]
      exact congrArg some (hgot.same.trans hread.same.symm)
    · rcases he with hf | hlong | ⟨n, hn⟩
      · simp [hcomplete] at hf
      · omega
      · simp [hgrants n] at hn
  · rcases hwhole.ok_or_reported with ⟨bytes, -, hread⟩ | ⟨e', he', -⟩
    · have hsame := congrArg List.length hread.same
      have hfits := hread.fits
      have hcomplete := hread.complete
      cases he with
      | failing h => simp [hcomplete] at h
      | long h =>
        dsimp only at h
        omega
      | @ungranted size _ h =>
        have hsome := hgrants size
        simp [h] at hsome
    · rw [hr, he']
      rfl

end Riscv32.Pieces
