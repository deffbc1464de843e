import Chip8.Display.Frame
import Mathlib.Data.List.Forall2

/-!
Frames can be read back from their text. A line shows its row pixel by pixel, and no row holds a
newline, so the lines of a text are the rows of its frame. What a terminal has printed falls apart
into blocks of one empty line and 32 rows, one for each frame. All that is lost is by how much a
pixel is not zero.
-/
namespace Chip8

/-- The lines of a text, the last one being what follows the last newline. -/
def textLines (text : String) : List (List Char) := text.toList.splitOn '\n'

namespace Frame

/-- The character that stands twice for a pixel: a block for a lit one, otherwise a blank. -/
def shade (pixel : Int) : Char := if pixel = 0 then ' ' else '▓'

/-- The line has two characters for each pixel of the row. -/
structure Shows (shown : List Char) (row : List Int) : Prop where
  length : shown.length = 2 * row.length
  cells : ∀ (x : Nat) (pixel : Int), row[x]? = some pixel →
    shown[2 * x]? = some (shade pixel) ∧ shown[2 * x + 1]? = some (shade pixel)

/-- Whether there is a pixel in column `x` of row `y`, and a lit one. -/
def Lit (f : Frame) (y x : Nat) : Prop := (f.getD y []).getD x 0 ≠ 0

/-- A pixel with no more to it than whether it is lit. -/
def level (pixel : Int) : Int := if pixel = 0 then 0 else 1

def leveled (f : Frame) : Frame := f.map (·.map level)

/-- Reads a row back, by the first character of each pixel. -/
def readLine : List Char → List Int
  | c :: _ :: rest => (if c = ' ' then 0 else 1) :: readLine rest
  | _ => []

variable {f g : Frame} {pixel other : Int}

theorem line_cons (pixel : Int) (row : List Int) :
    line (pixel :: row) = shade pixel :: shade pixel :: line row := by
  rw [line, List.flatMap_cons, block, shade]
  split <;> rfl

theorem level_eq_zero_iff : level pixel = 0 ↔ pixel = 0 := by
  unfold level
  split
  · rename_i h
    exact iff_of_true rfl h
  · rename_i h
    exact iff_of_false Int.one_ne_zero h

theorem level_eq_level_iff : level pixel = level other ↔ (pixel ≠ 0 ↔ other ≠ 0) := by
  unfold level
  split <;> split <;> simp [*]

theorem shade_level (pixel : Int) : shade (level pixel) = shade pixel := by
  simp only [shade, level_eq_zero_iff]

theorem shows_line (row : List Int) : Shows (line row) row where
  length := length_line row
  cells := by
    induction row with
    | nil =>
      intro x pixel h
      cases h
    | cons first row ih =>
      intro x pixel h
      rw [line_cons]
      cases x with
      | zero =>
        cases h
        exact ⟨rfl, rfl⟩
      | succ x => exact ih x pixel h

theorem shows_map_line (f : Frame) : List.Forall₂ Shows (f.map line) f := by
  rw [List.forall₂_map_left_iff, List.forall₂_same]
  exact fun row _ => shows_line row

theorem textLines_text (h : f ≠ []) : textLines f.text = f.map line := by
  rw [textLines, text, String.toList_ofList, chars]
  refine List.splitOn_intercalate '\n' (fun l hl => ?_) (mt List.map_eq_nil_iff.1 h)
  obtain ⟨row, -, rfl⟩ := List.mem_map.1 hl
  exact newline_notMem_line row

theorem readLine_line (row : List Int) : readLine (line row) = row.map level := by
  induction row with
  | nil => rfl
  | cons pixel row ih =>
    rw [line_cons, readLine, ih, List.map_cons, level, shade]
    split <;> rfl

theorem map_readLine_map_line (f : Frame) : (f.map line).map readLine = f.leveled := by
  rw [List.map_map]
  exact List.map_congr_left fun row _ => readLine_line row

theorem line_map_level (row : List Int) : line (row.map level) = line row := by
  induction row with
  | nil => rfl
  | cons pixel row ih => rw [List.map_cons, line_cons, line_cons, ih, shade_level]

theorem text_leveled (f : Frame) : f.leveled.text = f.text := by
  have hlines : f.leveled.map line = f.map line := by
    rw [leveled, List.map_map]
    exact List.map_congr_left fun row _ => line_map_level row
  rw [text, chars, hlines]
  rfl

theorem text_eq_iff_leveled (hf : f ≠ []) (hg : g ≠ []) :
    f.text = g.text ↔ f.leveled = g.leveled := by
  constructor
  · intro h
    rw [← map_readLine_map_line, ← map_readLine_map_line, ← textLines_text hf,
      ← textLines_text hg, h]
  · intro h
    rw [← text_leveled f, ← text_leveled g, h]

theorem map_level_eq_iff {row other : List Int} : row.map level = other.map level ↔
    row.length = other.length ∧ ∀ x, row.getD x 0 ≠ 0 ↔ other.getD x 0 ≠ 0 := by
  induction row generalizing other with
  | nil => cases other <;> simp
  | cons first row ih =>
    cases other with
    | nil => simp
    | cons second other =>
      rw [List.map_cons, List.map_cons, List.cons.injEq, level_eq_level_iff, ih, List.length_cons,
        List.length_cons, Nat.add_right_cancel_iff]
      constructor
      · rintro ⟨hfirst, hlength, hrest⟩
        refine ⟨hlength, fun x => ?_⟩
        cases x with
        | zero => exact hfirst
        | succ x => exact hrest x
      · rintro ⟨hlength, hlit⟩
        exact ⟨hlit 0, hlength, fun x => hlit (x + 1)⟩

/-- Leveled frames are equal if the frames have the same shape and the same pixels are lit. -/
theorem leveled_eq_iff : f.leveled = g.leveled ↔
    f.map List.length = g.map List.length ∧ ∀ y x, f.Lit y x ↔ g.Lit y x := by
  induction f generalizing g with
  | nil => cases g <;> simp [leveled]
  | cons row f ih =>
    cases g with
    | nil => simp [leveled]
    | cons other g =>
      have hcons (row : List Int) (f : Frame) :
          leveled (row :: f) = row.map level :: f.leveled := rfl
      rw [hcons, hcons, List.cons.injEq, map_level_eq_iff, ih, List.map_cons, List.map_cons,
        List.cons.injEq]
      constructor
      · rintro ⟨⟨hlength, hrow⟩, hshape, hrest⟩
        refine ⟨⟨hlength, hshape⟩, fun y => ?_⟩
        cases y with
        | zero => exact hrow
        | succ y => exact hrest y
      · rintro ⟨⟨hlength, hshape⟩, hlit⟩
        exact ⟨⟨hlength, hlit 0⟩, hshape, fun y => hlit (y + 1)⟩

end Frame

namespace Console

open Chip8.Frame

/-- What a terminal prints for frames, one after the other. -/
def output (frames : List Frame) : String := String.join (frames.map printFrame)

/-- The first blocks of 33 lines. -/
def firstBlocks : Nat → List (List Char) → List (List (List Char))
  | 0, _ => []
  | count + 1, lines => lines.take 33 :: firstBlocks count (lines.drop 33)

/-- All full blocks of 33 lines. -/
def blocks (lines : List (List Char)) : List (List (List Char)) :=
  firstBlocks (lines.length / 33) lines

/-- Reads frames back, leaving out the first line of each block. -/
def readFrames (text : String) : List Frame :=
  (blocks (textLines text)).map fun block => block.tail.map readLine

/-- The lines of a block are an empty one and the rows of a frame. -/
def Prints (block : List (List Char)) (f : Frame) : Prop :=
  block.length = 33 ∧ ∃ rows, block = [] :: rows ∧ List.Forall₂ Shows rows f

variable {frames : List Frame}

theorem textLines_output (h : ∀ f ∈ frames, f ≠ []) :
    textLines (output frames) = (frames.map fun f => [] :: f.map line).flatten ++ [[]] := by
  induction frames with
  | nil => rfl
  | cons f frames ih =>
    have hf := textLines_text (h f List.mem_cons_self)
    have hrest := ih fun g hg => h g (List.mem_cons_of_mem f hg)
    have hprinted : (output (f :: frames)).toList =
        [] ++ '\n' :: (f.text.toList ++ '\n' :: (output frames).toList) := by
      simp [output, printFrame, String.toList_join]
    rw [textLines, hprinted, List.splitOn_append_cons_self, List.splitOn_append_cons_self]
    unfold textLines at hf hrest
    rw [hf, hrest, List.splitOn_nil, List.map_cons, List.flatten_cons, List.append_assoc,
      ← List.append_assoc, List.singleton_append]

theorem firstBlocks_flatten {bs : List (List (List Char))} (h : ∀ b ∈ bs, b.length = 33)
    (rest : List (List Char)) : firstBlocks bs.length (bs.flatten ++ rest) = bs := by
  induction bs with
  | nil => rfl
  | cons b bs ih =>
    have hb := h b List.mem_cons_self
    rw [List.length_cons, firstBlocks, List.flatten_cons, List.append_assoc, List.take_left' hb,
      List.drop_left' hb, ih fun c hc => h c (List.mem_cons_of_mem b hc)]

/-- Full blocks are found again, whatever stands behind them on a line of its own. -/
theorem blocks_flatten {bs : List (List (List Char))} (h : ∀ b ∈ bs, b.length = 33)
    (last : List Char) : blocks (bs.flatten ++ [last]) = bs := by
  have hlength : (bs.flatten ++ [last]).length = 33 * bs.length + 1 := by
    rw [List.length_append, List.length_flatten, List.map_eq_replicate_iff.2 h,
      List.sum_replicate_nat, Nat.mul_comm]
    rfl
  have hcount : (bs.flatten ++ [last]).length / 33 = bs.length := by omega
  rw [blocks, hcount, firstBlocks_flatten h]

theorem ne_nil_of_rows (h : ∀ f ∈ frames, f.length = 32) : ∀ f ∈ frames, f ≠ [] := by
  rintro f hf rfl
  exact absurd (h [] hf) (by decide)

theorem length_block_of_rows (h : ∀ f ∈ frames, f.length = 32) :
    ∀ b ∈ frames.map fun f => [] :: f.map line, b.length = 33 := by
  intro b hb
  obtain ⟨f, hf, rfl⟩ := List.mem_map.1 hb
  rw [List.length_cons, List.length_map, h f hf]

theorem blocks_output (h : ∀ f ∈ frames, f.length = 32) :
    blocks (textLines (output frames)) = frames.map fun f => [] :: f.map line := by
  rw [textLines_output (ne_nil_of_rows h), blocks_flatten (length_block_of_rows h)]

theorem prints_blocks (h : ∀ f ∈ frames, f.length = 32) :
    List.Forall₂ Prints (blocks (textLines (output frames))) frames := by
  rw [blocks_output h, List.forall₂_map_left_iff, List.forall₂_same]
  intro f hf
  exact ⟨by rw [List.length_cons, List.length_map, h f hf], _, rfl, shows_map_line f⟩

theorem readFrames_output (h : ∀ f ∈ frames, f.length = 32) :
    readFrames (output frames) = frames.map leveled := by
  rw [readFrames, blocks_output h, List.map_map]
  exact List.map_congr_left fun f _ => map_readLine_map_line f

/-- What a terminal prints for screens, one after the other. -/
def printed (screens : List Screen) : String :=
  String.join (screens.map fun s => print (.frame s))

theorem printed_eq_output (screens : List Screen) :
    printed screens = output (screens.map Screen.frame) := by
  rw [output, List.map_map]
  rfl

theorem length_frame (s : Screen) : s.frame.length = 32 := by
  rw [Screen.frame, List.length_map, List.length_finRange]

theorem leveled_frame (s : Screen) : s.frame.leveled = s.frame := by
  rw [leveled, Screen.frame, List.map_map]
  refine List.map_congr_left fun y _ => ?_
  rw [Function.comp_apply, List.map_map]
  refine List.map_congr_left fun x _ => ?_
  rw [Function.comp_apply, level]
  cases s.pixel x y <;> rfl

theorem frame_injective : Function.Injective Screen.frame := by
  intro s t h
  refine Screen.ext_pixel fun x y => ?_
  have hrow := List.map_inj_left.1 h y (List.mem_finRange y)
  have hpixel := List.map_inj_left.1 hrow x (List.mem_finRange x)
  revert hpixel
  cases s.pixel x y <;> cases t.pixel x y <;> decide

theorem readFrames_printed (screens : List Screen) :
    readFrames (printed screens) = screens.map Screen.frame := by
  have hrows : ∀ f ∈ screens.map Screen.frame, f.length = 32 := by
    intro f hf
    obtain ⟨s, -, rfl⟩ := List.mem_map.1 hf
    exact length_frame s
  rw [printed_eq_output, readFrames_output hrows, List.map_map]
  exact List.map_congr_left fun s _ => leveled_frame s

/-- The lines of a text are the rows of its frame, pixel by pixel, so two frames have the same text
exactly if they have the same shape and the same pixels are lit. What is printed for frames of 32
rows comes in blocks of 33 lines, each an empty one and the rows of a frame, and the frames are read
back from it but for how far a pixel is from zero. Screens are read back exactly. -/
theorem text_legible {f g : Frame} (hf : f ≠ []) (hg : g ≠ []) {frames : List Frame}
    (hrows : ∀ f ∈ frames, f.length = 32) (screens : List Screen) :
    List.Forall₂ Shows (textLines f.text) f ∧
    (f.text = g.text ↔
      f.map List.length = g.map List.length ∧ ∀ y x, f.Lit y x ↔ g.Lit y x) ∧
    textLines (output frames) = (blocks (textLines (output frames))).flatten ++ [[]] ∧
    List.Forall₂ Prints (blocks (textLines (output frames))) frames ∧
    readFrames (output frames) = frames.map leveled ∧
    readFrames (printed screens) = screens.map Screen.frame ∧
    ∀ others, printed others = printed screens → others = screens := by
  refine ⟨?_, ?_, ?_, prints_blocks hrows, readFrames_output hrows, readFrames_printed screens,
    fun others h => ?_⟩
  · rw [textLines_text hf]
    exact shows_map_line f
  · rw [text_eq_iff_leveled hf hg, leveled_eq_iff]
  · rw [blocks_output hrows, textLines_output (ne_nil_of_rows hrows)]
  · have hread := congrArg readFrames h
    rw [readFrames_printed, readFrames_printed] at hread
    exact List.map_injective_iff.2 frame_injective hread

/-- Two ragged frames with the same text, and two screens that are printed and read back. -/
theorem text_legible_ragged :
    let f : Frame := [[1, 0], [], [-3]]
    let g : Frame := [[2, 0], [], [7]]
    f ≠ [] ∧ g ≠ [] ∧ (∀ f ∈ [Screen.full.frame], f.length = 32) ∧
      List.Forall₂ Shows ["▓▓  ".toList, [], "▓▓".toList] f ∧ (∀ y x, f.Lit y x ↔ g.Lit y x) ∧
      readFrames (printed [Screen.full, Screen.blank]) =
        [Screen.full.frame, Screen.blank.frame] := by
  intro f g
  have hf : f ≠ [] := List.cons_ne_nil _ _
  have hg : g ≠ [] := List.cons_ne_nil _ _
  have hrows : ∀ f ∈ [Screen.full.frame], f.length = 32 := by
    intro f h
    rw [List.mem_singleton.1 h, length_frame]
  obtain ⟨hshows, hsame, -, -, -, hread, -⟩ :=
    text_legible hf hg hrows [Screen.full, Screen.blank]
  have htext : f.text = g.text := rfl
  have hlines : textLines f.text = ["▓▓  ".toList, [], "▓▓".toList] := by
    rw [textLines_text hf]
    decide
  exact ⟨hf, hg, hrows, hlines ▸ hshows, (hsame.1 htext).2, hread⟩

end Console

end Chip8
