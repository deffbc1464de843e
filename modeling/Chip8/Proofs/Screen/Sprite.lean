import Chip8.Proofs.Machine.Effect
import Mathlib.Tactic.ByContra
import Mathlib.Tactic.Push

/-!
When drawing shows. A picture leaves a screen as it is when it is blank, and a sprite that starts
on the screen and does not reach below it is blank when all its bytes are zero.
-/
namespace Chip8

namespace Screen

theorem xor_eq_self_iff {s picture : Screen} : s.xor picture = s ↔ picture = blank := by
  constructor
  · intro h
    apply ext_pixel
    intro x y
    have hp := congrArg (fun t : Screen => t.pixel x y) h
    simp only [pixel_xor] at hp
    rw [pixel_blank]
    cases hs : s.pixel x y <;> simpa [hs] using hp
  · rintro rfl
    exact xor_blank s

theorem exists_bit_of_ne_zero {value : UInt8} (h : value ≠ 0) :
    ∃ j, j < 8 ∧ value.toBitVec.getMsbD j = true := by
  by_contra hn
  push Not at hn
  apply h
  apply UInt8.toBitVec_inj.1
  apply BitVec.eq_of_getMsbD_eq
  intro j hj
  rw [Bool.eq_false_iff.2 (hn j hj)]
  exact BitVec.getMsbD_zero.symm

theorem sprite_eq_blank_iff {x y : Nat} {bytes : List UInt8} (hx : x < 64)
    (hy : y + bytes.length ≤ 32) : sprite x y bytes = blank ↔ ∀ value ∈ bytes, value = 0 := by
  constructor
  · intro h value hv
    by_contra hn
    obtain ⟨k, hk, rfl⟩ := List.getElem_of_mem hv
    obtain ⟨j, hj, hbit⟩ := exists_bit_of_ne_zero hn
    -- The bit lights the pixel `j` columns to the right of the first, around the screen.
    have hlit : (sprite x y bytes).pixel ⟨(x + j) % 64, by omega⟩ ⟨y + k, by omega⟩ = true := by
      rw [pixel_sprite x y bytes _ _ hx, if_pos (Nat.le_add_right y k), Nat.add_sub_cancel_left,
        List.getElem?_eq_getElem hk, Option.any_some,
        show ((x + j) % 64 + 64 - x) % 64 = j by omega, hbit]
    rw [h, pixel_blank] at hlit
    cases hlit
  · intro h
    apply ext_pixel
    intro column row
    rw [pixel_sprite x y bytes column row hx, pixel_blank]
    by_cases hr : y ≤ row.val
    · rw [if_pos hr]
      cases hb : bytes[row.val - y]? with
      | none => rfl
      | some value =>
        rw [h value (List.mem_of_getElem? hb), Option.any_some]
        exact BitVec.getMsbD_zero
    · rw [if_neg hr]
      rfl

end Screen

/-- A sprite in memory leaves the picture blank when the bytes read for it are zero. -/
theorem Machine.picture_eq_blank_iff {m : Machine} (hm : 0 ≤ m.index) (x y height : Nibble) :
    m.picture x y height = .blank ↔
      ∀ k < m.visibleRows y height, ∀ value, m.memory[m.index.toNat + k]? = some value →
        value = 0 := by
  have hread (k : Nat) := m.memory.getElem?_readBlock hm (m.visibleRows y height) k
  have hlen := m.memory.length_readBlock_le m.index (m.visibleRows y height)
  have hrows : m.visibleRows y height ≤ 32 - (m.register y).toNat % 32 := Nat.min_le_right _ _
  have hx : (m.spriteOrigin x y).1 < 64 := Nat.mod_lt _ (by decide)
  have hy : (m.spriteOrigin x y).2 = (m.register y).toNat % 32 := rfl
  rw [Machine.picture, Screen.sprite_eq_blank_iff hx (by omega)]
  constructor
  · intro h k hk value hv
    apply h value
    rw [List.mem_iff_getElem?]
    exact ⟨k, by rw [hread, if_pos hk, hv]⟩
  · intro h value hv
    obtain ⟨k, hk⟩ := List.mem_iff_getElem?.1 hv
    rw [hread] at hk
    by_cases hlt : k < m.visibleRows y height
    · rw [if_pos hlt] at hk
      exact h k hlt value hk
    · rw [if_neg hlt] at hk
      cases hk

end Chip8
