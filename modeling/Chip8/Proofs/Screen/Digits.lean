import Chip8.Proofs.Machine.Footprint
import Chip8.Proofs.Machine.SavedRegisters
import Chip8.Proofs.Screen.Drawing

/-!
Digits on the screen. The font lies where no game is loaded, and only an instruction that stores
bytes in its place can spoil it. While none does, the glyph of a digit is found at its address, and
the bits of its rows flip the pixels of the screen, but for the rows that fall below it.
-/
namespace Chip8

namespace Font

/-- Every glyph is at its address in memory. -/
def InPlace (memory : Memory) : Prop :=
  ∀ (digit : Nibble) (row : Nat), row < height →
    memory[address digit + row]? = (glyph digit)[row]?

theorem getElem?_flatten_glyphs (digit : Nibble) (row : Fin 5) :
    glyphs.flatten[digit.val * 5 + row.val]? = (glyph digit)[row.val]? := by
  revert digit row
  decide

theorem address_add_bounds (digit : Nibble) {row : Nat} (h : row < height) :
    80 ≤ address digit + row ∧ address digit + row < 160 := by
  simp only [address, start, height] at h ⊢
  omega

theorem install_inPlace (memory : Memory) : InPlace (install memory) := by
  intro digit row hrow
  have hplace := address_add_bounds digit hrow
  have hlen : glyphs.flatten.length = 80 := by decide
  have hglyph := getElem?_flatten_glyphs digit ⟨row, hrow⟩
  simp only [address, start, height] at hrow hplace ⊢
  have hcell := memory.getElem_overlay_add 80 glyphs.flatten (digit.val * 5 + row)
    (by rw [hlen]; omega) (by omega)
  rw [List.getElem?_eq_getElem (by rw [hlen]; omega), ← hcell] at hglyph
  rw [← hglyph, Vector.getElem?_eq_getElem (by omega)]
  simp only [Nat.add_assoc]
  rfl

/-- The font stays in place where its cells are kept. -/
theorem InPlace.congr {memory other : Memory} (h : InPlace memory)
    (hkept : ∀ p : Fin 4096, 80 ≤ p.val → p.val < 160 → other.get p = memory.get p) :
    InPlace other := by
  intro digit row hrow
  obtain ⟨hfirst, hlast⟩ := address_add_bounds digit hrow
  have hcell := hkept ⟨address digit + row, by omega⟩ hfirst hlast
  rw [← h digit row hrow, Vector.getElem?_eq_getElem (by omega),
    Vector.getElem?_eq_getElem (by omega)]
  exact congrArg some hcell

/-- Whether the glyph of a digit lights a pixel, if its first row starts in column `x` of row
`y`. -/
def lights (digit : Nibble) (x y : Nat) (column : Fin 64) (row : Fin 32) : Bool :=
  let down : Int := row.val - y
  let across : Int := (column.val - x) % 64
  if 0 ≤ down ∧ down < height ∧ across < 8 then
    (glyph digit)[down.toNat]?.any fun value => value.toNat.testBit (7 - across).toNat
  else false

end Font

namespace Machine

/-- The request stores nothing in the place of the font. -/
def SparesFont (m : Machine) : Operation → Prop
  | .step _ => ∀ i, m.Next i → ∀ p : Nat, 80 ≤ p → p < 160 → ¬i.Targets m p
  | .write address _ => ¬(80 ≤ address ∧ address < 160)
  | _ => True

/-- No request of the history stores anything in the place of the font. -/
def FontSpared (dice : Nat → Int) (m : Machine) (history : List Operation) : Prop :=
  ∀ before operation, before ++ [operation] <+: history →
    (m.after dice before).SparesFont operation

/-- The outcome of an instruction that is executed, alone or by a step that fetches it. -/
inductive Executed (dice : Nat → Int) (m : Machine) (i : Instruction) : Outcome → Prop
  | alone : m.Executed dice i (m.perform dice i.toOpcode)
  | fetched (now : Float) (h : m.Next i) : m.Executed dice i (m.step dice now)

variable {dice : Nat → Int} {m : Machine} {i : Instruction} {out : Outcome}
  {operation : Operation} {history : List Operation}

theorem write_inPlace (h : Font.InPlace m.memory) {address value : Int}
    (hs : ¬(80 ≤ address ∧ address < 160)) : Font.InPlace (m.write address value).machine.memory := by
  unfold write
  cases hw : m.memory.write address (UInt8.ofNat value.toNat) with
  | error fault => exact h
  | ok memory =>
    simp only
    split
    · refine h.congr fun p hfirst hlast => Memory.get_of_write p hw fun hp => hs ?_
      omega
    · exact h

theorem apply_inPlace (hm : m.InBounds) (h : Font.InPlace m.memory) (dice : Nat → Int)
    (hs : m.SparesFont operation) : Font.InPlace (m.apply dice operation).machine.memory := by
  cases operation with
  | loadGame game =>
    simp only [apply, loadGame]
    split
    · exact h
    · refine h.congr fun p _ hlast => ?_
      rw [Memory.get_eq_getElem, Memory.getElem_overlay, if_neg (by unfold gameStart; omega)]
      rfl
  | reset => exact Font.install_inPlace _
  | loadFont => exact Font.install_inPlace _
  | write address value => exact write_inPlace h hs
  | step now =>
    refine h.congr fun p hfirst hlast => ?_
    by_contra hne
    obtain ⟨i, hi, ht⟩ := (step_confined_of_inBounds hm dice now).memory p hne
    exact hs i hi p.val hfirst hlast ht
  | hold | updateTimers | takeRedraw | read =>
    rw [apply_memory dice (by trivial)]
    exact h

theorem fontSpared_nil (dice : Nat → Int) (m : Machine) : m.FontSpared dice [] :=
  forall_concat_prefix_nil

theorem fontSpared_concat_iff : m.FontSpared dice (history ++ [operation]) ↔
    m.FontSpared dice history ∧ (m.after dice history).SparesFont operation :=
  forall_concat_prefix_concat_iff

theorem after_inPlace (hm : m.InBounds) (h : Font.InPlace m.memory)
    (hrun : m.FontSpared dice history) : Font.InPlace (m.after dice history).memory := by
  induction history using List.reverseRecOn with
  | nil => exact h
  | append_singleton history operation ih =>
    obtain ⟨hrun, hlast⟩ := fontSpared_concat_iff.1 hrun
    rw [after_concat]
    exact apply_inPlace (after_inBounds hm history) (ih hrun) dice hlast

/-- Execution by a step differs from that alone in the counter and the timers. -/
theorem Executed.exists_eq (h : m.Executed dice i out) : ∃ counter delay sound lastTick,
    out.machine = (i.execute dice { m with counter, delay, sound, lastTick }).machine ∧
      out.fault = (i.execute dice { m with counter, delay, sound, lastTick }).fault := by
  cases h with
  | alone => exact ⟨m.counter, m.delay, m.sound, m.lastTick, m.perform_toOpcode dice i⟩
  | fetched now hi =>
    obtain ⟨delay, sound, lastTick, hp⟩ := m.poised_eq now
    refine ⟨m.counter + 2, delay, sound, lastTick, ?_⟩
    rw [← hp]
    exact step_of_next dice now hi

/-- With the index at a glyph that is in place, a sprite of five rows is the glyph. -/
theorem spriteBit_of_inPlace (h : Font.InPlace m.memory) {digit : Nibble}
    (hindex : m.index = Font.address digit) (x y : Nibble) (column : Fin 64) (row : Fin 32) :
    m.spriteBit x y (m.visibleRows y 5) column row =
      Font.lights digit ((m.register x).toNat % 64) ((m.register y).toNat % 32) column row := by
  have hrow := row.isLt
  have hvisible : m.visibleRows y 5 = min Font.height (32 - (m.register y).toNat % 32) := rfl
  have hheight : Font.height = 5 := rfl
  simp only [spriteBit, Font.lights, hvisible, hindex]
  by_cases hin : 0 ≤ (row.val : Int) - ((m.register y).toNat % 32 : Nat) ∧
      (row.val : Int) - ((m.register y).toNat % 32 : Nat) < Font.height ∧
        ((column.val : Int) - ((m.register x).toNat % 64 : Nat)) % 64 < 8
  · rw [if_pos hin, if_pos ⟨hin.1, by omega, hin.2.2⟩]
    obtain ⟨r, hr⟩ := Int.eq_ofNat_of_zero_le hin.1
    rw [hr, ← Int.natCast_add, Int.toNat_natCast, Int.toNat_natCast, h digit r (by omega)]
  · rw [if_neg hin, if_neg fun hs => hin ⟨hs.1, by omega, hs.2.2⟩]

/-- With the index at a glyph that is in place, drawing five rows shows the glyph. -/
theorem drawSprite_of_inPlace (h : Font.InPlace m.memory) {digit : Nibble}
    (hindex : m.index = Font.address digit) (a b : Nibble) :
    (m.drawSprite a b 5).fault = none ∧ ∀ column row,
      (m.drawSprite a b 5).machine.screen.pixel column row =
        Bool.xor (m.screen.pixel column row) (Font.lights digit ((m.register a).toNat % 64)
          ((m.register b).toNat % 32) column row) := by
  have hm : 0 ≤ m.index := hindex ▸ Int.natCast_nonneg _
  have hroom : m.index + m.visibleRows b 5 ≤ 4096 := by
    have hplace := (Font.address_add_bounds digit (show 4 < Font.height by decide)).2
    have hle : m.visibleRows b 5 ≤ 5 := Nat.min_le_left _ _
    omega
  rw [drawSprite_eq hm, Memory.blockFault, if_pos (Or.inr hroom)]
  refine ⟨rfl, fun column row => ?_⟩
  rw [← spriteBit_of_inPlace h hindex]
  exact (drawn_of_picture hm a b 5 (Nat.le_refl _) (fun hlt => absurd hlt (Nat.lt_irrefl _))
    _ true).pixel column row

/-- In a history from the switching on that stores nothing in the place of the font, every digit can
be drawn: the instruction that points the index at its glyph succeeds, and so does the drawing of
five rows behind it, which flips the pixels that the bits of the glyph light and no others. -/
theorem digit_shown {settings : Settings} {start : Float}
    (hrun : (fresh settings start).FontSpared dice history) (x a b : Nibble) :
    let m := (fresh settings start).after dice history
    let digit : Nibble := ⟨(m.register x).toNat % 16, Nat.mod_lt _ (by decide)⟩
    ∀ pointed drawn, m.Executed dice (.indexGlyph x) pointed →
      pointed.machine.Executed dice (.draw a b 5) drawn →
        pointed.fault = none ∧ drawn.fault = none ∧ ∀ column row,
          drawn.machine.screen.pixel column row =
            Bool.xor (m.screen.pixel column row) (Font.lights digit ((m.register a).toNat % 64)
              ((m.register b).toNat % 32) column row) := by
  intro m digit pointed drawn hpointed hdrawn
  have hfont : Font.InPlace m.memory :=
    after_inPlace (fresh_inBounds settings start) (Font.install_inPlace _) hrun
  have hdigit : Nibble.lower ((m.register x).toNat : Int) = digit := by
    apply Fin.ext
    simp only [Nibble.lower, digit]
    omega
  obtain ⟨counter, delay, sound, lastTick, hmachine, hfault⟩ := hpointed.exists_eq
  obtain ⟨counter', delay', sound', lastTick', hmachine', hfault'⟩ := hdrawn.exists_eq
  rw [hmachine] at hmachine' hfault'
  obtain ⟨hok, hpixel⟩ := drawSprite_of_inPlace
    (m := { m with
      index := Font.address (Nibble.lower (m.register x).toNat)
      counter := counter'
      delay := delay'
      sound := sound'
      lastTick := lastTick' }) hfont rfl a b
  rw [hdigit] at hpixel
  refine ⟨hfault, hfault'.trans hok, fun column row => ?_⟩
  rw [hmachine']
  exact hpixel column row

/-- The digit b is put into a register and drawn in a corner of the blank screen. Of its rows
`###.`, `#..#`, `###.`, `#..#`, `###.` the fourth column shows the second and the fourth. -/
theorem digit_shown_b :
    let history : List Operation := [.loadGame [0x60, 0x0b], .step 1]
    let m := (fresh {} 0).after (fun _ => 0) history
    let pointed := m.perform (fun _ => 0) (.ofByte 0xf 0 0x29)
    let drawn := pointed.machine.perform (fun _ => 0) (.ofNibbles 0xd 1 2 5)
    (fresh {} 0).FontSpared (fun _ => 0) history ∧ pointed.fault = none ∧ drawn.fault = none ∧
      ((List.finRange 32).filter fun row => drawn.machine.screen.pixel 3 row) = [1, 3] ∧
      ((List.finRange 64).filter fun column => drawn.machine.screen.pixel column 4) =
        [0, 1, 2] := by
  intro history m pointed drawn
  have hload := booted_eq {} 0 (fun _ => 0) (show [0x60, 0x0b].length ≤ gameCapacity by decide)
  have hset : (booted {} 0 [0x60, 0x0b]).Next (.set 0 0x0b) :=
    booted_next {} 0 (by decide) (by decide) rfl
  have hfirst : (fresh {} 0).FontSpared (fun _ => 0) ([] ++ [.loadGame [0x60, 0x0b]]) :=
    fontSpared_concat_iff.2 ⟨fontSpared_nil _ _, trivial⟩
  have hrun : (fresh {} 0).FontSpared (fun _ => 0) history := by
    change (fresh {} 0).FontSpared (fun _ => 0) ([.loadGame [0x60, 0x0b]] ++ [.step 1])
    refine fontSpared_concat_iff.2 ⟨hfirst, fun i hi p _ _ => ?_⟩
    rw [hload] at hi
    obtain rfl := next_unique hset hi
    exact id
  obtain ⟨delay, sound, lastTick, hstep⟩ := step_machine_of_next (fun _ => 0) 1 hset
  have hm : m = ((booted {} 0 [0x60, 0x0b]).step (fun _ => 0) 1).machine := by
    rw [← hload]
    exact after_concat _ _ [_] _
  rw [hstep] at hm
  have hdigit : m.register 0 = 0x0b := by
    rw [hm]
    exact register_setRegister_self _ _ _
  have hzero : ∀ v : Nibble, v ≠ 0 → m.register v = 0 := by
    intro v hv
    rw [hm]
    exact (register_setRegister_of_ne _ _ hv.symm).trans (Vector.getElem_replicate v.isLt)
  have hblank : m.screen = .blank := by
    rw [hm]
    rfl
  obtain ⟨hpointed, hdrawn, hpixel⟩ := digit_shown hrun 0 1 2 pointed drawn .alone .alone
  have hglyph (column : Fin 64) (row : Fin 32) :
      drawn.machine.screen.pixel column row = Font.lights 11 0 0 column row := by
    calc
      _ = Bool.xor (m.screen.pixel column row) (Font.lights ⟨(m.register 0).toNat % 16, _⟩
          ((m.register 1).toNat % 64) ((m.register 2).toNat % 32) column row) := hpixel column row
      _ = Bool.xor false (Font.lights 11 0 0 column row) := by
        simp only [hblank, hdigit, hzero 1 (by decide), hzero 2 (by decide), Screen.pixel_blank]
        rfl
      _ = Font.lights 11 0 0 column row := Bool.false_xor _
  simp only [hglyph]
  exact ⟨hrun, hpointed, hdrawn, by decide, by decide⟩

end Machine

end Chip8
