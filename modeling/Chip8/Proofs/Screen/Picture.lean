import Chip8.Machine.Execute

/-!
Pictures. A sprite is a picture of its own, and a picture is superposed on the screen by exclusive
or: the pixels that it lights are flipped, and there is a collision if one of them is lit on the
screen. Pictures that have no pixel in common superpose as one, so a sprite that is drawn bit by bit
and row by row is superposed as a whole.
-/
namespace Chip8

namespace Screen

/-- A bit of a byte counted from the left is one of its value counted from the right. -/
theorem getMsbD_toBitVec (value : UInt8) (c : Nat) :
    value.toBitVec.getMsbD c = (decide (c < 8) && value.toNat.testBit (7 - c)) := by
  rw [BitVec.getMsbD_eq_getLsbD, ← BitVec.testBit_toNat, UInt8.toNat_toBitVec]

/-- A sprite byte as a row: its highest bit stands in column `x`, and what leaves the screen on
the right comes back on the left. -/
def strip (x : Nat) (value : UInt8) : BitVec 64 :=
  (value.toBitVec ++ (0 : BitVec 56)).rotateRight x

/-- Column `c` of a strip shows the bit that stands as far behind the first as `c` is to the right
of column `x`, counted around the screen. -/
theorem getMsbD_strip (x c : Nat) (value : UInt8) (hx : x < 64) (hc : c < 64) :
    (strip x value).getMsbD c = value.toBitVec.getMsbD ((c + 64 - x) % 64) := by
  have bits (i : Nat) :
      (value.toBitVec ++ (0 : BitVec 56)).getMsbD i = value.toBitVec.getMsbD i := by
    rw [BitVec.getMsbD_append]
    by_cases h : 8 ≤ i
    · rw [if_pos h, BitVec.getMsbD_of_ge value.toBitVec i h]
      exact BitVec.getMsbD_zero
    · rw [if_neg h]
  unfold strip
  rw [BitVec.getMsbD_rotateRight, bits, bits, Nat.mod_eq_of_lt hx, decide_eq_true hc,
    Bool.true_and]
  by_cases h : c < x
  · rw [if_pos h]
    congr 2
    omega
  · rw [if_neg h]
    congr 1
    omega

/-- The picture of a sprite alone, its first byte in row `y`. Rows below the screen are lost. -/
def sprite (x y : Nat) (bytes : List UInt8) : Screen :=
  ⟨Vector.ofFn fun row =>
    if y ≤ row.val then (bytes[row.val - y]?.map (strip x)).getD 0 else 0⟩

theorem get_sprite (x y : Nat) (bytes : List UInt8) (row : Fin 32) :
    (sprite x y bytes).rows.get row =
      if y ≤ row.val then (bytes[row.val - y]?.map (strip x)).getD 0 else 0 :=
  Vector.getElem_ofFn row.isLt

/-- Lit pixels of a sprite are the set bits of its bytes. -/
theorem pixel_sprite (x y : Nat) (bytes : List UInt8) (column : Fin 64) (row : Fin 32)
    (hx : x < 64) :
    (sprite x y bytes).pixel column row =
      (if y ≤ row.val then bytes[row.val - y]? else none).any fun value =>
        value.toBitVec.getMsbD ((column.val + 64 - x) % 64) := by
  unfold pixel
  rw [get_sprite]
  by_cases h : y ≤ row.val
  · rw [if_pos h, if_pos h]
    cases bytes[row.val - y]? with
    | none => exact BitVec.getMsbD_zero
    | some value => exact getMsbD_strip x column.val value hx column.isLt
  · rw [if_neg h, if_neg h]
    exact BitVec.getMsbD_zero

/-- Flips the pixels that are lit in the picture. -/
def xor (s picture : Screen) : Screen := ⟨Vector.zipWith (· ^^^ ·) s.rows picture.rows⟩

@[simp] theorem pixel_xor (s picture : Screen) (x : Fin 64) (y : Fin 32) :
    (s.xor picture).pixel x y = Bool.xor (s.pixel x y) (picture.pixel x y) := by
  change ((Vector.zipWith (· ^^^ ·) s.rows picture.rows)[y.val]).getMsbD x.val = _
  rw [Vector.getElem_zipWith, BitVec.getMsbD_xor]
  rfl

/-- Whether some pixel is lit in both. -/
def meets (s picture : Screen) : Bool :=
  (List.finRange 32).any fun y => s.rows.get y &&& picture.rows.get y != 0

theorem meets_iff {s picture : Screen} :
    s.meets picture = true ↔ ∃ x y, s.pixel x y = true ∧ picture.pixel x y = true := by
  have both (x : Fin 64) (y : Fin 32) :
      (s.rows.get y &&& picture.rows.get y).getMsbD x.val =
        (s.pixel x y && picture.pixel x y) := BitVec.getMsbD_and
  have dark (x : Nat) : (0 : BitVec 64).getMsbD x = false := BitVec.getMsbD_zero
  unfold meets
  rw [List.any_eq_true]
  constructor
  · rintro ⟨y, -, hy⟩
    apply Classical.byContradiction
    intro hn
    refine bne_iff_ne.1 hy (BitVec.eq_of_getMsbD_eq fun x hx => ?_)
    rw [both ⟨x, hx⟩ y, dark, Bool.eq_false_iff]
    intro h
    exact hn ⟨⟨x, hx⟩, y, Bool.and_eq_true_iff.1 h⟩
  · rintro ⟨x, y, hxy⟩
    refine ⟨y, List.mem_finRange y, bne_iff_ne.2 fun h => ?_⟩
    have hb := both x y
    rw [h, dark, Bool.and_eq_true_iff.2 hxy] at hb
    cases hb

/-- A picture with one pixel, lit if the bit is set. -/
def dot (x : Fin 64) (y : Fin 32) (bit : Bool) : Screen := blank.setPixel x y bit

theorem pixel_dot (x column : Fin 64) (y row : Fin 32) (bit : Bool) :
    (dot x y bit).pixel column row = (decide (column = x ∧ row = y) && bit) := by
  rw [dot, pixel_setPixel, pixel_blank]
  split <;> simp [*]

theorem sprite_nil (x y : Nat) : sprite x y [] = blank := by
  apply ext_pixel
  intro column row
  rw [pixel, get_sprite, pixel_blank]
  split <;> exact BitVec.getMsbD_zero

theorem xor_blank (s : Screen) : s.xor blank = s := by
  apply ext_pixel
  intro x y
  rw [pixel_xor, pixel_blank, Bool.xor_false]

theorem meets_blank (s : Screen) : s.meets blank = false := by
  rw [Bool.eq_false_iff]
  intro h
  obtain ⟨x, y, -, hlit⟩ := meets_iff.1 h
  rw [pixel_blank] at hlit
  cases hlit

/-- The first byte of a sprite stands in its first row, the others in the rows behind it. -/
theorem sprite_cons (x y : Nat) (value : UInt8) (values : List UInt8) :
    sprite x y (value :: values) = (sprite x y [value]).xor (sprite x (y + 1) values) := by
  apply ext_pixel
  intro column row
  rw [pixel_xor]
  simp only [pixel, get_sprite]
  rcases Nat.lt_trichotomy row.val y with hlt | heq | hgt
  · simp [Nat.not_le.2 hlt, Nat.not_le.2 (Nat.lt_succ_of_lt hlt)]
  · rw [if_neg (show ¬y + 1 ≤ row.val by omega)]
    simp [heq]
  · obtain ⟨k, hk⟩ := Nat.exists_eq_add_of_lt hgt
    rw [if_pos (by omega), if_pos (by omega), if_pos (by omega),
      show row.val - y = k + 1 by omega, show row.val - (y + 1) = k by omega]
    simp

/-- A byte and the rows behind it have no pixel in common. -/
theorem sprite_apart {x y : Nat} {value : UInt8} {values : List UInt8} {column : Fin 64}
    {row : Fin 32} (h : (sprite x y [value]).pixel column row = true) :
    (sprite x (y + 1) values).pixel column row = false := by
  simp only [pixel, get_sprite] at h ⊢
  by_cases hrow : row.val = y
  · rw [if_neg (by omega)]
    exact BitVec.getMsbD_zero
  · split at h
    · rw [List.getElem?_eq_none (by simp; omega)] at h
      simp at h
    · simp at h

end Screen

namespace Canvas

open Screen (sprite dot blank)

variable {c : Canvas} {p q : Screen}

/-- Superposes a picture. -/
def add (c : Canvas) (picture : Screen) : Canvas where
  screen := c.screen.xor picture
  unset := c.unset || c.screen.meets picture

theorem add_blank (c : Canvas) : c.add blank = c := by
  rw [add, Screen.xor_blank, Screen.meets_blank, Bool.or_false]

/-- Pictures without a common pixel are superposed one after the other or as one. -/
theorem add_add (h : ∀ x y, p.pixel x y = true → q.pixel x y = false) :
    (c.add p).add q = c.add (p.xor q) := by
  have hscreen : (c.screen.xor p).xor q = c.screen.xor (p.xor q) := by
    apply Screen.ext_pixel
    intro x y
    simp only [Screen.pixel_xor, Bool.xor_assoc]
  have hmeets : (c.screen.meets p || (c.screen.xor p).meets q) = c.screen.meets (p.xor q) := by
    rw [Bool.eq_iff_iff, Bool.or_eq_true]
    simp only [Screen.meets_iff, Screen.pixel_xor, ← exists_or]
    refine exists_congr fun x => exists_congr fun y => ?_
    have hxy := h x y
    cases c.screen.pixel x y <;> cases hp : p.pixel x y <;> cases hq : q.pixel x y <;> simp_all
  simp only [add, hscreen, Bool.or_assoc, hmeets]

theorem flip_eq_add (c : Canvas) (x : Fin 64) (y : Fin 32) (bit : Bool) :
    c.flip x y bit = c.add (dot x y bit) := by
  have hscreen : c.screen.setPixel x y (Bool.xor (c.screen.pixel x y) bit) =
      c.screen.xor (dot x y bit) := by
    apply Screen.ext_pixel
    intro column row
    rw [Screen.pixel_setPixel, Screen.pixel_xor, Screen.pixel_dot]
    split <;> simp [*]
  have hmeets : (c.screen.pixel x y && bit) = c.screen.meets (dot x y bit) := by
    rw [Bool.eq_iff_iff, Bool.and_eq_true, Screen.meets_iff]
    simp only [Screen.pixel_dot, Bool.and_eq_true, decide_eq_true_eq]
    constructor
    · rintro ⟨hlit, hbit⟩
      exact ⟨x, y, hlit, ⟨rfl, rfl⟩, hbit⟩
    · rintro ⟨column, row, hlit, ⟨rfl, rfl⟩, hbit⟩
      exact ⟨hlit, hbit⟩
  rw [flip, add, hscreen, hmeets]

/-- The first bits of a byte, drawn on a blank screen. -/
def bits (x : Nat) (y : Fin 32) (value : UInt8) : Nat → Screen
  | 0 => blank
  | count + 1 => (bits x y value count).xor (dot (turn x count) y (value.toNat.testBit (7 - count)))

theorem eq_turn_iff {x count : Nat} (hx : x < 64) (hc : count < 64) (column : Fin 64) :
    column = turn x count ↔ (column.val + 64 - x) % 64 = count := by
  rw [Fin.ext_iff, turn]
  dsimp only
  omega

theorem pixel_dot_turn {x count : Nat} (hx : x < 64) (hc : count < 64) (y row : Fin 32)
    (column : Fin 64) (bit : Bool) : (dot (turn x count) y bit).pixel column row =
      (decide (row = y ∧ (column.val + 64 - x) % 64 = count) && bit) := by
  rw [Screen.pixel_dot]
  congr 1
  rw [decide_eq_decide, eq_turn_iff hx hc]
  exact and_comm

theorem pixel_bits {x count : Nat} (hx : x < 64) (hc : count ≤ 8) (y : Fin 32) (value : UInt8)
    (column : Fin 64) (row : Fin 32) : (bits x y value count).pixel column row =
      (decide (row = y ∧ (column.val + 64 - x) % 64 < count) &&
        value.toNat.testBit (7 - (column.val + 64 - x) % 64)) := by
  induction count with
  | zero => simp [bits]
  | succ count ih =>
    rw [bits, Screen.pixel_xor, ih (by omega), pixel_dot_turn hx (by omega)]
    generalize (column.val + 64 - x) % 64 = offset
    by_cases hrow : row = y
    · rcases Nat.lt_trichotomy offset count with hlt | rfl | hgt
      · simp [hrow, hlt, Nat.ne_of_lt hlt, Nat.lt_succ_of_lt hlt]
      · simp [hrow]
      · simp [Nat.ne_of_gt hgt, Nat.not_lt.2 (Nat.le_of_lt hgt), Nat.not_lt.2 (Nat.succ_le_of_lt hgt)]
    · simp [hrow]

theorem drawBits_eq_add {x count : Nat} (hx : x < 64) (hc : count ≤ 8) (c : Canvas) (y : Fin 32)
    (value : UInt8) : (List.range count).foldl
      (fun c column => c.flip (turn x column) y (value.toNat.testBit (7 - column))) c =
        c.add (bits x y value count) := by
  induction count with
  | zero => exact c.add_blank.symm
  | succ count ih =>
    rw [List.range_succ, List.foldl_append, ih (by omega), List.foldl_cons, List.foldl_nil,
      flip_eq_add]
    refine add_add fun column row h => ?_
    rw [pixel_bits hx (by omega), Bool.and_eq_true, decide_eq_true_eq] at h
    rw [pixel_dot_turn hx (by omega), decide_eq_false (by omega), Bool.false_and]

/-- Drawing a byte bit by bit superposes it as a whole. -/
theorem drawByte_eq_add {x : Nat} (hx : x < 64) (c : Canvas) (y : Fin 32) (value : UInt8) :
    c.drawByte x y value = c.add (sprite x y [value]) := by
  have hbits : bits x y value 8 = sprite x y [value] := by
    apply Screen.ext_pixel
    intro column row
    rw [pixel_bits hx (Nat.le_refl 8), Screen.pixel_sprite x y [value] column row hx]
    generalize (column.val + 64 - x) % 64 = offset
    by_cases hrow : row = y
    · simp [hrow, Screen.getMsbD_toBitVec]
    · have hne : row.val ≠ y.val := fun h => hrow (Fin.ext h)
      rw [decide_eq_false (fun h => hrow h.1), Bool.false_and]
      split
      · rw [List.getElem?_eq_none (by simp; omega)]
        rfl
      · rfl
  rw [drawByte, drawBits_eq_add hx (Nat.le_refl 8), hbits]

/-- Drawing row by row superposes the sprite as a whole, as far as its rows lie on the screen and in
memory. -/
theorem drawRows_eq {x : Nat} (hx : x < 64) (memory : Memory) (address : Int) (y : Nat)
    (c : Canvas) (count : Nat) : drawRows memory x address y c count =
      (c.add (sprite x y (memory.readBlock address (min count (32 - y))).1),
        (memory.readBlock address (min count (32 - y))).2) := by
  induction count generalizing address y c with
  | zero =>
    rw [Nat.zero_min, drawRows, Memory.readBlock, Screen.sprite_nil, add_blank]
  | succ count ih =>
    unfold drawRows
    by_cases hy : y < 32
    · rw [dif_pos hy, show min (count + 1) (32 - y) = min count (32 - (y + 1)) + 1 by omega,
        Memory.readBlock]
      cases memory.read address with
      | error fault =>
        simp only [Screen.sprite_nil, add_blank]
      | ok value =>
        simp only
        rw [ih, drawByte_eq_add hx, add_add fun _ _ => Screen.sprite_apart, ← Screen.sprite_cons]
    · rw [dif_neg hy, show min (count + 1) (32 - y) = 0 by omega, Memory.readBlock,
        Screen.sprite_nil, add_blank]

end Canvas

namespace Machine

/-- The number of rows of a sprite that lie on the screen. -/
def visibleRows (m : Machine) (y height : Nibble) : Nat :=
  min height.val (32 - (m.register y).toNat % 32)

/-- The picture that a sprite in memory at the index makes on the screen. -/
def picture (m : Machine) (x y height : Nibble) : Screen :=
  Screen.sprite (m.spriteOrigin x y).1 (m.spriteOrigin x y).2
    (m.memory.readBlock m.index (m.visibleRows y height)).1

theorem sketch_eq (m : Machine) (x y height : Nibble) : m.sketch x y height =
    (⟨m.screen.xor (m.picture x y height), m.screen.meets (m.picture x y height)⟩,
      (m.memory.readBlock m.index (m.visibleRows y height)).2) := by
  have hx : (m.register x).toNat % 64 < 64 := Nat.mod_lt _ (by decide)
  simp only [sketch, spriteOrigin, Canvas.drawRows_eq hx]
  rfl

/-- Drawing superposes the picture of the sprite. -/
theorem drawSprite_eq_picture (m : Machine) (x y height : Nibble) : m.drawSprite x y height =
    let drawn := { m with screen := m.screen.xor (m.picture x y height) }
    match (m.memory.readBlock m.index (m.visibleRows y height)).2 with
    | some fault => { machine := drawn.setFlag false, fault := some fault }
    | none =>
      { machine := { drawn with redraw := true }.setFlag (m.screen.meets (m.picture x y height)) } := by
  rw [drawSprite, sketch_eq]
  cases (m.memory.readBlock m.index (m.visibleRows y height)).2 with
  | some fault => rfl
  | none =>
    simp only [setFlag, setRegister]
    rw [Vector.set_set]

end Machine

end Chip8
