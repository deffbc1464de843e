import Chip8.Proofs.Screen.Drawing
import Mathlib.Data.List.Infix

/-!
Sprites on top of each other. Drawing flips pixels, so pictures add up in any order and a picture
drawn twice is gone. A draw instruction that does not take its place from the flag register finds
the same sprite at the same place after any number of others, so what holds of pictures holds of
runs of such instructions. The flag is not symmetric: it tells of lit pixels the first time and of
dark ones the second.
-/
namespace Chip8

namespace Screen

theorem xor_right_comm (s p q : Screen) : (s.xor p).xor q = (s.xor q).xor p := by
  apply ext_pixel
  intro x y
  simp only [pixel_xor]
  exact Bool.xor_right_comm _ _ _

theorem xor_xor_self (s p : Screen) : (s.xor p).xor p = s := by
  apply ext_pixel
  intro x y
  simp only [pixel_xor, Bool.xor_assoc, Bool.xor_self, Bool.xor_false]

/-- The pictures drawn on a screen one after the other. -/
def superpose (s : Screen) (pictures : List Screen) : Screen := pictures.foldl xor s

variable {s : Screen} {pictures : List Screen}

theorem superpose_perm {others : List Screen} (h : pictures.Perm others) (s : Screen) :
    s.superpose others = s.superpose pictures :=
  (h.foldl_eq' (fun p _ q _ s => s.xor_right_comm p q) s).symm

theorem superpose_append (s : Screen) (first second : List Screen) :
    s.superpose (first ++ second) = (s.superpose first).superpose second :=
  List.foldl_append

/-- A picture drawn once more is as good as not drawn at all. -/
theorem superpose_twice (s : Screen) (before : List Screen) (p : Screen) (after : List Screen) :
    s.superpose (before ++ p :: after ++ [p]) = s.superpose (before ++ after) := by
  have hp : (before ++ p :: after ++ [p]).Perm (before ++ after ++ [p, p]) := by
    rw [List.append_assoc, List.append_assoc, List.cons_append]
    refine List.Perm.append_left before ?_
    exact (List.perm_append_singleton p (after ++ [p])).symm.trans (by simp)
  rw [← superpose_perm hp, superpose_append]
  exact xor_xor_self _ p

end Screen

/-- A draw instruction whose place is not told by the flag register. -/
structure Stroke where
  x : Nibble
  y : Nibble
  height : Nibble
  x_ne : x ≠ flagRegister := by decide
  y_ne : y ≠ flagRegister := by decide

namespace Stroke

def opcode (s : Stroke) : Opcode := .ofNibbles 0xd s.x s.y s.height

/-- The number of rows of the sprite that lie on the screen. -/
def rows (m : Machine) (s : Stroke) : Nat := m.visibleRows s.y s.height

/-- The picture that the instruction draws. -/
def picture (m : Machine) (s : Stroke) : Screen := m.picture s.x s.y s.height

/-- The rows of the sprite on the screen lie in memory. -/
def Fits (m : Machine) (s : Stroke) : Prop := (m.memory.readBlock m.index (s.rows m)).2 = none

end Stroke

namespace Machine

/-- The machine after the draw instructions, failed ones among them. -/
def sketched (dice : Nat → Int) (m : Machine) (strokes : List Stroke) : Machine :=
  strokes.foldl (fun m s => (m.perform dice s.opcode).machine) m

/-- All draw instructions succeed, each after those before it. -/
def Draws (dice : Nat → Int) (m : Machine) (strokes : List Stroke) : Prop :=
  ∀ before s, before ++ [s] <+: strokes →
    ((m.sketched dice before).perform dice s.opcode).fault = none

/-- The flag register is one if the proposition holds and zero if it does not. -/
def Tells (m : Machine) (p : Prop) : Prop :=
  (p → m.register flagRegister = 1) ∧ (¬p → m.register flagRegister = 0)

/-- The machine `n` is `m` with another picture on its screen; flag register and redraw notice are
left open. -/
def Repainted (m n : Machine) (screen : Screen) : Prop :=
  ∃ flag redraw, n = { m with
    registers := m.registers.set flagRegister.val flag flagRegister.isLt, screen, redraw }

variable {dice : Nat → Int} {m n k : Machine} {s : Stroke} {strokes : List Stroke}
  {screen other : Screen}

theorem repainted_self (m : Machine) : m.Repainted m m.screen := by
  refine ⟨m.registers[flagRegister], m.redraw, ?_⟩
  simp only [Fin.getElem_fin, Vector.set_getElem_self]

namespace Repainted

theorem trans (h : m.Repainted n screen) (h' : n.Repainted k other) : m.Repainted k other := by
  obtain ⟨flag, redraw, rfl⟩ := h
  obtain ⟨flag', redraw', rfl⟩ := h'
  refine ⟨flag', redraw', ?_⟩
  simp only [Vector.set_set]

theorem screen_eq (h : m.Repainted n screen) : n.screen = screen := by
  obtain ⟨flag, redraw, rfl⟩ := h
  rfl

theorem register (h : m.Repainted n screen) {v : Nibble} (hv : v ≠ flagRegister) :
    n.register v = m.register v := by
  obtain ⟨flag, redraw, rfl⟩ := h
  exact m.register_setRegister_of_ne flag hv.symm

theorem rows (h : m.Repainted n screen) (s : Stroke) : s.rows n = s.rows m := by
  unfold Stroke.rows visibleRows
  rw [h.register s.y_ne]

theorem readBlock (h : m.Repainted n screen) (count : Nat) :
    n.memory.readBlock n.index count = m.memory.readBlock m.index count := by
  obtain ⟨flag, redraw, rfl⟩ := h
  rfl

/-- A stroke finds the same sprite at the same place. -/
theorem picture (h : m.Repainted n screen) (s : Stroke) : s.picture n = s.picture m := by
  have hrows : n.visibleRows s.y s.height = m.visibleRows s.y s.height := h.rows s
  unfold Stroke.picture Machine.picture spriteOrigin
  rw [hrows, h.readBlock, h.register s.x_ne, h.register s.y_ne]

theorem fits_iff (h : m.Repainted n screen) (s : Stroke) : s.Fits n ↔ s.Fits m := by
  unfold Stroke.Fits
  rw [h.rows, h.readBlock]

end Repainted

/-- A stroke adds its picture to the screen, as much of it as lies in memory. -/
theorem perform_stroke (dice : Nat → Int) (m : Machine) (s : Stroke) :
    m.Repainted (m.perform dice s.opcode).machine (m.screen.xor (s.picture m)) := by
  rw [Stroke.opcode, (perform_draw_eq dice m s.x s.y s.height).1]
  simp only [drawSprite_eq_picture]
  split <;> exact ⟨_, _, rfl⟩

theorem perform_stroke_fault (dice : Nat → Int) (m : Machine) (s : Stroke) :
    (m.perform dice s.opcode).fault = none ↔ s.Fits m := by
  rw [Stroke.opcode, (perform_draw_eq dice m s.x s.y s.height).2, Stroke.Fits, Stroke.rows]
  simp only [drawSprite_eq_picture]
  split <;> simp_all

/-- A stroke that succeeds raises the flag if it turns a pixel off. -/
theorem perform_stroke_flag (dice : Nat → Int) (h : s.Fits m) :
    (m.perform dice s.opcode).machine.register flagRegister =
      flagByte (m.screen.meets (s.picture m)) := by
  rw [Stroke.Fits, Stroke.rows] at h
  rw [Stroke.opcode, (perform_draw_eq dice m s.x s.y s.height).1]
  simp only [drawSprite_eq_picture, h]
  exact register_setRegister_self _ _ _

theorem sketched_concat (dice : Nat → Int) (m : Machine) (strokes : List Stroke) (s : Stroke) :
    m.sketched dice (strokes ++ [s]) = ((m.sketched dice strokes).perform dice s.opcode).machine :=
  List.foldl_append

/-- A run of strokes superposes the pictures that they make on the machine at its start. -/
theorem sketched_repainted (dice : Nat → Int) (m : Machine) (strokes : List Stroke) :
    m.Repainted (m.sketched dice strokes)
      (m.screen.superpose (strokes.map fun s => s.picture m)) := by
  induction strokes using List.reverseRecOn with
  | nil => exact m.repainted_self
  | append_singleton strokes s ih =>
    have hlast := perform_stroke dice (m.sketched dice strokes) s
    rw [ih.screen_eq, ih.picture] at hlast
    rw [sketched_concat, List.map_append, Screen.superpose_append]
    exact ih.trans hlast

theorem screen_sketched (dice : Nat → Int) (m : Machine) (strokes : List Stroke) :
    (m.sketched dice strokes).screen =
      m.screen.superpose (strokes.map fun s => s.picture m) :=
  (sketched_repainted dice m strokes).screen_eq

/-- Whether strokes succeed does not depend on their order. -/
theorem draws_iff : m.Draws dice strokes ↔ ∀ s ∈ strokes, s.Fits m := by
  have hfits (before : List Stroke) (s : Stroke) :
      ((m.sketched dice before).perform dice s.opcode).fault = none ↔ s.Fits m :=
    (perform_stroke_fault dice _ s).trans ((sketched_repainted dice m before).fits_iff s)
  constructor
  · intro h s hs
    obtain ⟨before, after, rfl⟩ := List.append_of_mem hs
    exact (hfits before s).1 (h before s ⟨after, by simp⟩)
  · intro h before s hp
    exact (hfits before s).2 (h s (hp.subset (by simp)))

end Machine

namespace Stroke

variable {m : Machine} {s : Stroke}

/-- A sprite of which something was read starts in memory. -/
theorem Fits.index_nonneg (h : s.Fits m) (hrows : 0 < s.rows m) : 0 ≤ m.index := by
  unfold Fits at h
  obtain ⟨k, hk⟩ : ∃ k, s.rows m = k + 1 :=
    Nat.exists_eq_succ_of_ne_zero (Nat.ne_of_gt hrows)
  rw [hk] at h
  exact (Memory.inRange_of_readBlock h).1

theorem Fits.pixel_picture (h : s.Fits m) (column : Fin 64) (row : Fin 32) :
    (s.picture m).pixel column row = m.spriteBit s.x s.y (s.rows m) column row := by
  by_cases hrows : 0 < s.rows m
  · exact Machine.pixel_picture (h.index_nonneg hrows) s.x s.y s.height (Nat.le_refl _)
      (fun hlt => absurd hlt (Nat.lt_irrefl _)) column row
  · have hzero : s.rows m = 0 := Nat.eq_zero_of_not_pos hrows
    have hnone : m.visibleRows s.y s.height = 0 := hzero
    have hx : (m.spriteOrigin s.x s.y).1 < 64 := Nat.mod_lt _ (by decide)
    have hbit : m.spriteBit s.x s.y 0 column row = false := if_neg (by omega)
    rw [hzero, hbit, picture, Machine.picture, Screen.pixel_sprite _ _ _ _ _ hx, hnone]
    split <;> rfl

end Stroke

namespace Machine

variable {m n : Machine} {s : Stroke}

theorem tells_flagByte {p : Prop} {raised : Bool}
    (hflag : m.register flagRegister = flagByte raised) (hp : raised = true ↔ p) : m.Tells p := by
  constructor
  · intro h
    rw [hflag, hp.2 h]
    rfl
  · intro h
    rw [hflag, Bool.eq_false_iff.2 (mt hp.1 h)]
    rfl

theorem Tells.eq_zero_iff {p : Prop} (h : m.Tells p) : m.register flagRegister = 0 ↔ ¬p := by
  constructor
  · intro hzero hp
    rw [h.1 hp] at hzero
    exact absurd hzero (by decide)
  · exact h.2

/-- The first stroke collides where a pixel is lit, the same stroke again where a pixel was dark
before the first. -/
theorem stroke_twice_tells (dice : Nat → Int) (h : s.Fits m) :
    let first := m.perform dice s.opcode
    let second := first.machine.perform dice s.opcode
    let bit := m.spriteBit s.x s.y (s.rows m)
    first.machine.Tells
      (∃ column row, bit column row = true ∧ m.screen.pixel column row = true) ∧
    second.machine.Tells
      (∃ column row, bit column row = true ∧ m.screen.pixel column row = false) := by
  intro first second bit
  have hpaint : m.Repainted first.machine (m.screen.xor (s.picture m)) := perform_stroke dice m s
  have hbit (column : Fin 64) (row : Fin 32) : (s.picture m).pixel column row = bit column row :=
    h.pixel_picture column row
  constructor
  · refine tells_flagByte (perform_stroke_flag dice h) ?_
    simp only [Screen.meets_iff, hbit, and_comm]
  · refine tells_flagByte (perform_stroke_flag dice ((hpaint.fits_iff s).2 h)) ?_
    rw [hpaint.screen_eq, hpaint.picture]
    -- Under a bit of the sprite the first stroke has turned the pixel over.
    have hturned (column : Fin 64) (row : Fin 32) :
        (Bool.xor (m.screen.pixel column row) (bit column row) = true ∧ bit column row = true) ↔
          (bit column row = true ∧ m.screen.pixel column row = false) := by
      cases bit column row <;> simp
    simp only [Screen.meets_iff, Screen.pixel_xor, hbit, hturned]

/-- Both flags are down exactly when the sprite lights nothing. -/
theorem not_tells_both {bit lit : Fin 64 → Fin 32 → Bool}
    (hm : m.Tells (∃ column row, bit column row = true ∧ lit column row = true))
    (hn : n.Tells (∃ column row, bit column row = true ∧ lit column row = false)) :
    m.register flagRegister = 0 ∧ n.register flagRegister = 0 ↔
      ∀ column row, bit column row = false := by
  rw [hm.eq_zero_iff, hn.eq_zero_iff]
  constructor
  · rintro ⟨hlit, hdark⟩ column row
    rw [Bool.eq_false_iff]
    intro hbit
    cases hl : lit column row with
    | true => exact hlit ⟨column, row, hbit, hl⟩
    | false => exact hdark ⟨column, row, hbit, hl⟩
  · intro hblank
    constructor <;> rintro ⟨column, row, hbit, -⟩ <;> rw [hblank] at hbit <;> cases hbit

/-- Strokes leave the same picture in every order, and one drawn again takes back what it drew.
Drawn twice it restores the screen, with the flag telling of lit pixels under its bits the first
time and of dark ones the second. -/
theorem strokes_commute (dice : Nat → Int) (m : Machine) :
    (∀ strokes others : List Stroke, strokes.Perm others →
      (m.sketched dice others).screen = (m.sketched dice strokes).screen ∧
      (m.Draws dice strokes → m.Draws dice others)) ∧
    (∀ before s after,
      (m.sketched dice (before ++ s :: after ++ [s])).screen =
        (m.sketched dice (before ++ after)).screen ∧
      (m.Draws dice (before ++ s :: after) → m.Draws dice (before ++ s :: after ++ [s]))) ∧
    ∀ s : Stroke, (m.perform dice s.opcode).fault = none →
      let first := m.perform dice s.opcode
      let second := first.machine.perform dice s.opcode
      let bit := m.spriteBit s.x s.y (s.rows m)
      second.fault = none ∧ second.machine.screen = m.screen ∧
      first.machine.Tells
        (∃ column row, bit column row = true ∧ m.screen.pixel column row = true) ∧
      second.machine.Tells
        (∃ column row, bit column row = true ∧ m.screen.pixel column row = false) ∧
      (first.machine.register flagRegister = 0 ∧ second.machine.register flagRegister = 0 ↔
        ∀ column row, bit column row = false) := by
  refine ⟨?order, ?again, ?twice⟩
  case order =>
    intro strokes others hp
    rw [screen_sketched, screen_sketched, draws_iff, draws_iff]
    refine ⟨Screen.superpose_perm (hp.map _) m.screen, fun h s hs => h s (hp.mem_iff.2 hs)⟩
  case again =>
    intro before s after
    rw [screen_sketched, screen_sketched, draws_iff, draws_iff]
    constructor
    · simp only [List.map_append, List.map_cons, List.map_nil]
      exact m.screen.superpose_twice _ _ _
    · intro h t ht
      refine h t ?_
      rcases List.mem_append.1 ht with ht | ht
      · exact ht
      · rw [List.mem_singleton.1 ht]
        simp
  case twice =>
    intro s hs first second bit
    have hfits : s.Fits m := (perform_stroke_fault dice m s).1 hs
    have hfirst : m.Repainted first.machine (m.screen.xor (s.picture m)) :=
      perform_stroke dice m s
    have hsecond := perform_stroke dice first.machine s
    obtain ⟨htells, htells'⟩ := stroke_twice_tells dice hfits
    refine ⟨?_, ?_, htells, htells', not_tells_both htells htells'⟩
    · exact (perform_stroke_fault dice first.machine s).2 ((hfirst.fits_iff s).2 hfits)
    · rw [hsecond.screen_eq, hfirst.picture, hfirst.screen_eq, Screen.xor_xor_self]

/-- The digit 0 drawn at two places that overlap. -/
theorem strokes_commute_digits :
    let m : Machine := { (fresh {} 0).setRegister 1 3 with index := 80 }
    let s : Stroke := { x := 0, y := 0, height := 5 }
    let t : Stroke := { x := 1, y := 0, height := 5 }
    [s, t].Perm [t, s] ∧ m.Draws (fun _ => 0) [s, t] ∧ m.Draws (fun _ => 0) [t, s] ∧
    (m.sketched (fun _ => 0) [t, s]).screen = (m.sketched (fun _ => 0) [s, t]).screen ∧
    (m.sketched (fun _ => 0) [s, t, s]).screen = (m.sketched (fun _ => 0) [t]).screen ∧
    m.Draws (fun _ => 0) [s, t, s] ∧ (m.perform (fun _ => 0) s.opcode).fault = none ∧
    ((m.perform (fun _ => 0) s.opcode).machine.perform (fun _ => 0) s.opcode).machine.screen =
      m.screen := by
  intro m s t
  have hperm : [s, t].Perm [t, s] := .swap t s []
  have hs : s.Fits m := m.memory.readBlock_fault (by decide) 5
  have ht : t.Fits m := m.memory.readBlock_fault (by decide) 5
  have hdraws : m.Draws (fun _ => 0) [s, t] := draws_iff.2 (by simp [hs, ht])
  have hfault := (perform_stroke_fault (fun _ => 0) m s).2 hs
  obtain ⟨horder, hagain, htwice⟩ := strokes_commute (fun _ => 0) m
  obtain ⟨hscreen, hothers⟩ := horder [s, t] [t, s] hperm
  obtain ⟨hcancel, hmore⟩ := hagain [] s [t]
  exact ⟨hperm, hdraws, hothers hdraws, hscreen, hcancel, hmore hdraws, hfault,
    (htwice s hfault).2.1⟩

end Machine

end Chip8
