import Riscv32Simulator.Loading.Attributes

/-! The numbers of an attribute section: which byte sequences `uleb` decodes, and to what. -/

namespace Riscv32
open Checked

variable {file : List (BitVec 8)}

theorem uleb_result {fin : ℕ} (hfin : fin ≤ file.length) (cursor : ℕ) :
    ∃ r, uleb file cursor fin = .ok r ∧
      (r = none → ¬ ∃ bs v x, window file cursor fin = bs ++ x ∧ Uleb32 bs v) ∧
      ∀ q, r = some q → cursor < q.1 ∧ q.1 ≤ fin ∧ Uleb32 (window file cursor q.1) q.2.toNat := by
  have hmeets := meets_ulebFrom (E := fun _ => False) hfin (by omega : 0 + 5 = 5) cursor
    (by decide : (0 : BitVec 32).toNat < 2 ^ (7 * 0))
  rcases hmeets.ok_or_reported with ⟨r, hr, hnone, hsome⟩ | ⟨e, -, he⟩
  · refine ⟨r, hr, ?_, ?_⟩
    · rintro hn ⟨bs, v, x, hwindow, henc, hlen, hlt⟩
      have hge := hnone hn bs v x hwindow henc hlen
      simp only [Nat.mul_zero, pow_zero, Nat.one_mul] at hge
      exact absurd hlt (not_lt.mpr (by simpa using hge))
    · intro q hq
      obtain ⟨hlt, hle, hlen, v, henc, hvalue⟩ := hsome q hq
      have hv : q.2.toNat = v := by
        rw [hvalue]
        simp
      refine ⟨hlt, hle, hv ▸ henc, ?_, q.2.isLt⟩
      rw [length_window (hle.trans hfin)]
      exact hlen
  · exact absurd he id

/-- An encoding of at most five bytes and 32 bits that begins at the cursor is decoded to its number,
and what follows it is left. Where no such encoding begins, nothing is decoded. -/
theorem uleb_exact {fin : ℕ} (hfin : fin ≤ file.length) (cursor : ℕ) :
    (∀ bs v x, window file cursor fin = bs ++ x → Uleb32 bs v →
      ∃ value, uleb file cursor fin = .ok (some (cursor + bs.length, value)) ∧ value.toNat = v ∧
        cursor + bs.length ≤ fin ∧ window file (cursor + bs.length) fin = x) ∧
    ((∀ bs v x, window file cursor fin = bs ++ x → ¬ Uleb32 bs v) →
      uleb file cursor fin = .ok none) := by
  obtain ⟨r, hr, hnone, hsome⟩ := uleb_result hfin cursor
  constructor
  · intro bs v x hwindow henc
    cases r with
    | none => exact absurd ⟨bs, v, x, hwindow, henc⟩ (hnone rfl)
    | some q =>
      obtain ⟨p, value⟩ := q
      obtain ⟨hlt, hle, hread⟩ := hsome _ rfl
      have hsplit : window file cursor p ++ window file p fin = bs ++ x := by
        rw [← window_split hlt.le hle, hwindow]
      -- no encoding begins another one
      obtain ⟨hbs, hv⟩ := uleb32_selfDelimiting.unique hread henc hsplit
      have hp : cursor + bs.length = p := by
        rw [← hbs, length_window (hle.trans hfin)]
        omega
      rw [hbs] at hsplit
      rw [hp]
      exact ⟨value, hr, hv, hle, List.append_cancel_left hsplit⟩
  · intro hno
    cases r with
    | none => exact hr
    | some q =>
      obtain ⟨hlt, hle, hread⟩ := hsome q rfl
      exact absurd hread (hno _ _ _ (window_split hlt.le hle))

theorem uleb_exact_padded : ∃ value, uleb [0xAC#8, 0x82#8, 0x00#8, 0x07#8] 0 4 = .ok (some (3, value)) ∧
    value.toNat = 300 ∧ window [0xAC#8, 0x82#8, 0x00#8, 0x07#8] 3 4 = [0x07#8] := by
  have henc : Leb128.Encodes [0xAC#8, 0x82#8, 0x00#8] 300 :=
    .more (by decide) (.more (by decide) (.last (by decide)))
  obtain ⟨value, hread, hvalue, -, hrest⟩ :=
    (@uleb_exact [0xAC#8, 0x82#8, 0x00#8, 0x07#8] 4 (by decide) 0).1
      [0xAC#8, 0x82#8, 0x00#8] 300 [0x07#8] rfl ⟨henc, by decide, by decide⟩
  exact ⟨value, hread, hvalue, hrest⟩

end Riscv32
