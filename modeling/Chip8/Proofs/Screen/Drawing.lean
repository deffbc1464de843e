import Chip8.Proofs.Machine.Cycle
import Chip8.Proofs.Machine.Effect

/-!
Drawing pixel by pixel. Each pixel of the screen is flipped by one bit of the sprite or by none:
the bit that lies as far below the first row and as far to the right of the first column, around
the screen, as the pixel does. Rows below the screen are not drawn, and neither are those behind
the end of memory, where the drawing breaks off.
-/
namespace Chip8

namespace Machine

/-- Whether the sprite at the index lights a pixel, if it starts where registers `x` and `y` say
and `rows` rows of it are drawn. -/
def spriteBit (m : Machine) (x y : Nibble) (rows : Nat) (column : Fin 64) (row : Fin 32) : Bool :=
  let down : Int := row.val - ((m.register y).toNat % 32 : Nat)
  let across : Int := (column.val - ((m.register x).toNat % 64 : Nat)) % 64
  if 0 ≤ down ∧ down < rows ∧ across < 8 then
    m.memory[(m.index + down).toNat]?.any fun value => value.toNat.testBit (7 - across).toNat
  else false

variable {m : Machine}

/-- The picture that a sprite in memory makes, pixel by pixel, when `rows` of its rows on the
screen lie in memory. -/
theorem pixel_picture (hm : 0 ≤ m.index) (x y height : Nibble) {rows : Nat}
    (hle : rows ≤ m.visibleRows y height)
    (hend : rows < m.visibleRows y height → 4096 ≤ m.index + rows) (column : Fin 64)
    (row : Fin 32) :
    (m.picture x y height).pixel column row = m.spriteBit x y rows column row := by
  have hread (k : Nat) := m.memory.getElem?_readBlock hm (m.visibleRows y height) k
  have hx : (m.register x).toNat % 64 < 64 := Nat.mod_lt _ (by decide)
  rw [picture, Screen.pixel_sprite (m.spriteOrigin x y).1 _ _ column row hx]
  simp only [spriteOrigin, spriteBit]
  obtain ⟨sx, hsx⟩ : ∃ sx, (m.register x).toNat % 64 = sx := ⟨_, rfl⟩
  obtain ⟨sy, hsy⟩ : ∃ sy, (m.register y).toNat % 32 = sy := ⟨_, rfl⟩
  simp only [hsx, hsy] at hx ⊢
  rw [show ((column.val : Int) - sx) % 64 = ((column.val + 64 - sx) % 64 : Nat) by omega]
  generalize (column.val + 64 - sx) % 64 = c
  by_cases hrow : sy ≤ row.val
  · obtain ⟨r, hr⟩ := Nat.exists_eq_add_of_le hrow
    rw [if_pos hrow, hread, show row.val - sy = r by omega,
      show (row.val : Int) - sy = r by omega, show (m.index + r).toNat = m.index.toNat + r by omega]
    by_cases hrows : r < rows
    · rw [if_pos (Nat.lt_of_lt_of_le hrows hle)]
      simp only [Screen.getMsbD_toBitVec]
      by_cases hc : c < 8
      · rw [if_pos ⟨by omega, by omega, by omega⟩, decide_eq_true hc,
          show (7 - (c : Int)).toNat = 7 - c by omega]
        simp only [Bool.true_and]
      · rw [if_neg (by omega), decide_eq_false hc]
        cases m.memory[m.index.toNat + r]? <;> simp
    · -- The row is not on the screen, or its byte lies behind the end of memory.
      have hnone : (if r < m.visibleRows y height then m.memory[m.index.toNat + r]? else none) =
          none := by
        split
        · exact Vector.getElem?_eq_none (by omega)
        · rfl
      rw [hnone, Option.any_none, if_neg (by omega)]
  · rw [if_neg hrow, Option.any_none, if_neg (by omega)]

/-- Drawing with the fault told by the place of the rows in memory. -/
theorem drawSprite_eq (hm : 0 ≤ m.index) (x y height : Nibble) : m.drawSprite x y height =
    let drawn := { m with screen := m.screen.xor (m.picture x y height) }
    let collision := m.screen.meets (m.picture x y height)
    match Memory.blockFault m.index (m.visibleRows y height) with
    | some fault => { machine := drawn.setFlag false, fault := some fault }
    | none => { machine := { drawn with redraw := true }.setFlag collision } := by
  rw [← m.memory.readBlock_fault hm]
  exact drawSprite_eq_picture m x y height

/-- The machine `n` is `m` with `rows` rows of a sprite drawn on its screen, and with the flag and
the redraw notice as given. -/
structure Drawn (m n : Machine) (x y : Nibble) (rows : Nat) (raised redraw : Bool) : Prop where
  pixel : ∀ column row, n.screen.pixel column row =
    Bool.xor (m.screen.pixel column row) (m.spriteBit x y rows column row)
  rest : n = { m with
    registers := m.registers.set 15 (flagByte raised)
    screen := n.screen
    redraw := redraw }

theorem Drawn.register_flag {n : Machine} {x y : Nibble} {rows : Nat} {raised redraw : Bool}
    (h : m.Drawn n x y rows raised redraw) : n.register flagRegister = flagByte raised := by
  rw [h.rest]
  exact Vector.getElem_set_self (by decide)

theorem drawn_of_picture (hm : 0 ≤ m.index) (x y height : Nibble) {rows : Nat}
    (hle : rows ≤ m.visibleRows y height)
    (hend : rows < m.visibleRows y height → 4096 ≤ m.index + rows) (raised redraw : Bool) :
    m.Drawn ({ m with screen := m.screen.xor (m.picture x y height), redraw }.setFlag raised)
      x y rows raised redraw where
  pixel column row := by
    rw [← pixel_picture hm x y height hle hend]
    exact Screen.pixel_xor _ _ _ _
  rest := rfl

theorem perform_draw_eq (dice : Nat → Int) (m : Machine) (x y height : Nibble) :
    (m.perform dice (.ofNibbles 0xd x y height)).machine = (m.drawSprite x y height).machine ∧
      (m.perform dice (.ofNibbles 0xd x y height)).fault = (m.drawSprite x y height).fault :=
  m.perform_toOpcode dice (.draw x y height)

/-- Drawing succeeds if all rows on the screen lie in memory, and flips the pixels that the sprite
lights. It raises the flag if one of them was lit before. Otherwise it fails at the end of memory,
with the rows before drawn and the flag down. -/
theorem draw_pixelwise (hm : 0 ≤ m.index) (dice : Nat → Int) (x y height : Nibble) :
    let out := m.perform dice (.ofNibbles 0xd x y height)
    let rows := min height.val (32 - (m.register y).toNat % 32)
    (rows = 0 ∨ m.index + rows ≤ 4096 → out.fault = none ∧ ∃ collision : Bool,
      m.Drawn out.machine x y rows collision true ∧
        (collision = true ↔ ∃ column row, m.screen.pixel column row = true ∧
          m.spriteBit x y rows column row = true)) ∧
    (0 < rows ∧ 4096 < m.index + rows → out.fault = some (.outOfRange (max m.index 4096)) ∧
      m.Drawn out.machine x y (4096 - m.index).toNat false m.redraw) := by
  intro out rows
  have hrows : m.visibleRows y height = rows := rfl
  obtain ⟨hmachine, hfault⟩ := perform_draw_eq dice m x y height
  rw [hmachine, hfault, drawSprite_eq hm, hrows]
  constructor
  · intro hroom
    have hle : rows ≤ m.visibleRows y height := Nat.le_refl rows
    have hall : rows < m.visibleRows y height → 4096 ≤ m.index + rows :=
      fun hlt => absurd hlt (Nat.lt_irrefl _)
    have hpixel := pixel_picture hm x y height hle hall
    rw [Memory.blockFault, if_pos hroom]
    refine ⟨rfl, m.screen.meets (m.picture x y height),
      drawn_of_picture hm x y height hle hall _ true, ?_⟩
    simp only [Screen.meets_iff, hpixel]
  · rintro ⟨hpos, hlt⟩
    rw [Memory.blockFault, if_neg (by omega)]
    exact ⟨rfl, drawn_of_picture hm x y height (by omega) (fun _ => by omega) false m.redraw⟩

/-- The digit 0 drawn on a screen that is lit all over, from the place in the flag register. -/
theorem draw_pixelwise_lit :
    let m : Machine := { fresh {} 0 with index := 80, screen := .full }
    let out := m.perform (fun _ => 0) (.ofNibbles 0xd 15 15 5)
    0 ≤ m.index ∧ out.fault = none ∧ out.machine.register 15 = 1 ∧
      out.machine.screen.pixel 0 0 = false := by
  intro m out
  have hm : 0 ≤ m.index := by decide
  obtain ⟨hok, collision, hdrawn, hcollision⟩ :=
    (draw_pixelwise hm (fun _ => 0) 15 15 5).1 (Or.inr (by decide))
  have hrows : min (5 : Nibble).val (32 - (m.register 15).toNat % 32) = 5 := rfl
  rw [hrows] at hdrawn hcollision
  have hfont : m.memory = Memory.blank.overlay 80 Font.glyphs.flatten := rfl
  have hbyte : m.memory[80]? = some 0xf0 := by
    have hg := Memory.blank.getElem_overlay_add 80 Font.glyphs.flatten 0 (by decide) (by decide)
    rw [hfont, Vector.getElem?_eq_getElem (by decide)]
    exact congrArg some hg
  have hbit : m.spriteBit 15 15 5 0 0 = true := by
    have hfirst : m.spriteBit 15 15 5 0 0 =
        m.memory[80]?.any fun value => value.toNat.testBit 7 := rfl
    rw [hfirst, hbyte]
    decide
  have hlit : m.screen.pixel 0 0 = true := Screen.pixel_full 0 0
  obtain rfl : collision = true := hcollision.2 ⟨0, 0, hlit, hbit⟩
  have hpixel := hdrawn.pixel 0 0
  rw [hlit, hbit] at hpixel
  exact ⟨hm, hok, hdrawn.register_flag, hpixel⟩

end Machine

end Chip8
