import Chip8.Display.Frame
import Chip8.Proofs.Machine.Cycle
import Chip8.Proofs.Machine.Effect
import Chip8.Proofs.Machine.History
import Mathlib.Tactic.Push

/-!
The limits of a machine. Index, program counter and call stack have no bounds of their own, so an
invariant has to keep them: the counter is bounded because returns go to addresses behind calls,
and these were counters that a fetch had left inside memory. All other components are limited by
what they are made of.
-/
namespace Chip8

namespace Machine

/-- The limits that histories keep. -/
structure InBounds (m : Machine) : Prop where
  index_nonneg : 0 ≤ m.index
  index_le : m.index ≤ 65535
  counter_nonneg : 0 ≤ m.counter
  counter_le : m.counter ≤ 4350
  stack_length : m.stack.length ≤ stackCapacity
  stack_mem : ∀ a ∈ m.stack, 2 ≤ a ∧ a ≤ 4096

/-- The limits of every component. -/
structure WithinLimits (m : Machine) : Prop where
  bounds : m.InBounds
  memory : m.memory.toList.length = 4096
  registers : m.registers.toList.length = 16
  delay : m.delay.toNat ≤ 255
  sound : m.sound.toNat ≤ 255
  key : ∀ key ∈ m.key, key.val ≤ 15
  screen : m.screen.frame.length = 32
  row : ∀ row ∈ m.screen.frame, row.length = 64
  pixel : ∀ row ∈ m.screen.frame, ∀ pixel ∈ row, pixel = 0 ∨ pixel = 1

variable {dice : Nat → Int} {m n : Machine} {now : Float}

theorem InBounds.withinLimits (h : m.InBounds) : m.WithinLimits where
  bounds := h
  memory := Vector.length_toList
  registers := Vector.length_toList
  delay := Nat.le_of_lt_succ m.delay.toNat_lt
  sound := Nat.le_of_lt_succ m.sound.toNat_lt
  key := fun key _ => Nat.le_of_lt_succ key.isLt
  screen := by simp only [Screen.frame, List.length_map, List.length_finRange]
  row := by
    intro row hrow
    obtain ⟨y, -, rfl⟩ := List.mem_map.1 hrow
    rw [List.length_map, List.length_finRange]
  pixel := by
    intro row hrow pixel hpixel
    obtain ⟨y, -, rfl⟩ := List.mem_map.1 hrow
    obtain ⟨x, -, rfl⟩ := List.mem_map.1 hpixel
    split
    · exact Or.inr rfl
    · exact Or.inl rfl

/-- Only index, counter and call stack matter. -/
theorem InBounds.congr (h : m.InBounds) (hi : n.index = m.index) (hc : n.counter = m.counter)
    (hs : n.stack = m.stack) : n.InBounds := by
  constructor
  · rw [hi]
    exact h.index_nonneg
  · rw [hi]
    exact h.index_le
  · rw [hc]
    exact h.counter_nonneg
  · rw [hc]
    exact h.counter_le
  · rw [hs]
    exact h.stack_length
  · rw [hs]
    exact h.stack_mem

theorem fresh_inBounds (settings : Settings) (start : Float) :
    (fresh settings start).InBounds := by
  constructor <;> simp [fresh, gameStart]

/-- A machine that has just fetched: its counter stands behind two bytes of memory. -/
structure Fetched (m : Machine) : Prop where
  bounds : m.InBounds
  two_le : 2 ≤ m.counter
  le_end : m.counter ≤ 4096

theorem InBounds.updateTimers (h : m.InBounds) : (m.updateTimers now).machine.InBounds := by
  obtain ⟨delay, sound, lastTick, ht⟩ := m.updateTimers_eq now
  rw [ht]
  exact h.congr rfl rfl rfl

theorem InBounds.fetched {w : Nat} (h : m.InBounds) (hw : m.word? = some w) :
    (m.poised now).Fetched := by
  have hc : ¬(m.counter < 0 ∨ 4094 < m.counter) := by
    intro hn
    rw [(m.word?_eq_none_iff).2 hn] at hw
    cases hw
  obtain ⟨delay, sound, lastTick, ht⟩ := m.poised_eq now
  rw [ht]
  have h1 := h.counter_nonneg
  exact {
    bounds := {
      index_nonneg := h.index_nonneg
      index_le := h.index_le
      counter_nonneg := show 0 ≤ m.counter + 2 by omega
      counter_le := show m.counter + 2 ≤ 4350 by omega
      stack_length := h.stack_length
      stack_mem := h.stack_mem }
    two_le := show 2 ≤ m.counter + 2 by omega
    le_end := show m.counter + 2 ≤ 4096 by omega }

section
variable (i : Instruction)

theorem indexAfter_bounds (h : m.InBounds) : 0 ≤ i.indexAfter m ∧ i.indexAfter m ≤ 65535 := by
  have h1 := h.index_nonneg
  have h2 := h.index_le
  cases i with
  | setIndex value =>
    simp only [Instruction.indexAfter]
    omega
  | addToIndex x =>
    simp only [Instruction.indexAfter, raisedIndex]
    omega
  | indexGlyph x =>
    have hg := (Nibble.lower ((m.register x).toNat : Int)).isLt
    simp only [Instruction.indexAfter, Font.address, Font.start, Font.height]
    omega
  | _ => exact ⟨h1, h2⟩

theorem counterAfter_bounds (h : m.Fetched) :
    0 ≤ i.counterAfter m ∧ i.counterAfter m ≤ 4350 := by
  have h1 := h.two_le
  have h2 := h.le_end
  cases i with
  | ret =>
    simp only [Instruction.counterAfter]
    cases hs : m.stack with
    | nil => exact ⟨h.bounds.counter_nonneg, h.bounds.counter_le⟩
    | cons top below =>
      have ht := h.bounds.stack_mem top (by rw [hs]; exact List.mem_cons_self)
      simp only [List.headD_cons]
      omega
  | jump target =>
    simp only [Instruction.counterAfter]
    omega
  | call target =>
    simp only [Instruction.counterAfter]
    split <;> omega
  | jumpOffset base =>
    have hr := (m.register (m.jumpRegister base)).toNat_lt
    simp only [Instruction.counterAfter]
    omega
  | awaitKey x =>
    simp only [Instruction.counterAfter]
    split <;> omega
  | _ =>
    simp only [Instruction.counterAfter]
    split <;> omega

theorem stackAfter_bounds (h : m.Fetched) : (i.stackAfter m).length ≤ stackCapacity ∧
    ∀ a ∈ i.stackAfter m, 2 ≤ a ∧ a ≤ 4096 := by
  have h1 := h.bounds.stack_length
  have h2 := h.bounds.stack_mem
  cases i with
  | ret =>
    constructor
    · simp only [Instruction.stackAfter, List.length_tail]
      omega
    · intro a ha
      exact h2 a (List.mem_of_mem_tail ha)
  | call target =>
    simp only [Instruction.stackAfter]
    split
    · exact ⟨h1, h2⟩
    · rename_i hroom
      constructor
      · rw [List.length_cons]
        omega
      · intro a ha
        rcases List.mem_cons.1 ha with rfl | ha
        · exact ⟨h.two_le, h.le_end⟩
        · exact h2 a ha
  | _ => exact ⟨h1, h2⟩

theorem execute_inBounds (h : m.Fetched) : (i.execute dice m).machine.InBounds := by
  have hi := indexAfter_bounds i h.bounds
  have hc := counterAfter_bounds i h
  have hs := stackAfter_bounds i h
  rw [← i.execute_index dice] at hi
  rw [← i.execute_counter dice] at hc
  rw [← i.execute_stack dice] at hs
  exact ⟨hi.1, hi.2, hc.1, hc.2, hs.1, hs.2⟩

end

theorem step_inBounds (h : m.InBounds) : (m.step dice now).machine.InBounds := by
  rcases m.word?_cases with hw | ⟨w, hw, hi⟩ | ⟨i, hi⟩
  · rw [(step_of_word?_eq_none dice now hw h.counter_nonneg).1]
    exact h.updateTimers
  · rw [(step_of_unknown dice now hw hi).1]
    exact (h.fetched hw).bounds
  · rw [(step_of_next dice now hi).1]
    exact execute_inBounds i (h.fetched hi)

/-- What a request can touch that has nothing to do with the clock. -/
theorem apply_untimed (dice : Nat → Int) (m : Machine) {operation : Operation}
    (hs : ∀ now, operation ≠ .step now) (hu : ∀ now, operation ≠ .updateTimers now)
    (hr : ∀ now, operation ≠ .reset now) :
    ∃ memory counter key redraw, (m.apply dice operation).machine =
        { m with memory, counter, key, redraw } ∧
      (counter = m.counter ∨ counter = gameStart) ∧
      (operation ≠ .takeRedraw → redraw = m.redraw) := by
  have same : ∃ memory counter key redraw, m = { m with memory, counter, key, redraw } ∧
      (counter = m.counter ∨ counter = gameStart) ∧
      (operation ≠ .takeRedraw → redraw = m.redraw) :=
    ⟨_, _, _, _, rfl, Or.inl rfl, fun _ => rfl⟩
  cases operation with
  | loadGame game =>
    simp only [apply, loadGame]
    split
    · exact same
    · exact ⟨_, _, _, _, rfl, Or.inr rfl, fun _ => rfl⟩
  | reset now => exact absurd rfl (hr now)
  | loadFont => exact ⟨_, _, _, _, rfl, Or.inl rfl, fun _ => rfl⟩
  | hold key =>
    simp only [apply, hold]
    repeat' split
    all_goals exact ⟨_, _, _, _, rfl, Or.inl rfl, fun _ => rfl⟩
  | updateTimers now => exact absurd rfl (hu now)
  | takeRedraw => exact ⟨_, _, _, _, rfl, Or.inl rfl, fun h => absurd rfl h⟩
  | read address =>
    simp only [apply]
    split <;> exact same
  | write address value =>
    simp only [apply, write]
    repeat' split
    all_goals exact ⟨_, _, _, _, rfl, Or.inl rfl, fun _ => rfl⟩
  | step now => exact absurd rfl (hs now)

/-- What a request can touch that is neither a step nor a reset. -/
theorem apply_frame (dice : Nat → Int) (m : Machine) {operation : Operation}
    (hs : ∀ now, operation ≠ .step now) (hr : ∀ now, operation ≠ .reset now) :
    ∃ memory counter delay sound key redraw lastTick, (m.apply dice operation).machine =
        { m with memory, counter, delay, sound, key, redraw, lastTick } ∧
      (counter = m.counter ∨ counter = gameStart) ∧
      (operation ≠ .takeRedraw → redraw = m.redraw) := by
  by_cases hu : ∃ now, operation = .updateTimers now
  · obtain ⟨now, rfl⟩ := hu
    obtain ⟨delay, sound, lastTick, h⟩ := m.updateTimers_eq now
    exact ⟨_, _, _, _, _, _, _, h, Or.inl rfl, fun _ => rfl⟩
  · push Not at hu
    obtain ⟨memory, counter, key, redraw, h, hc, hredraw⟩ := m.apply_untimed dice hs hu hr
    exact ⟨_, _, _, _, _, _, _, h, hc, hredraw⟩

theorem apply_inBounds (h : m.InBounds) (operation : Operation) :
    (m.apply dice operation).machine.InBounds := by
  by_cases hs : ∃ now, operation = .step now
  · obtain ⟨now, rfl⟩ := hs
    exact step_inBounds h
  by_cases hr : ∃ now, operation = .reset now
  · obtain ⟨now, rfl⟩ := hr
    exact (fresh_inBounds m.settings now).congr rfl rfl rfl
  push Not at hs hr
  obtain ⟨memory, counter, delay, sound, key, redraw, lastTick, he, hc, -⟩ :=
    m.apply_frame dice hs hr
  have hcounter : 0 ≤ counter ∧ counter ≤ 4350 := by
    rcases hc with rfl | rfl
    · exact ⟨h.counter_nonneg, h.counter_le⟩
    · decide
  rw [he]
  exact ⟨h.index_nonneg, h.index_le, hcounter.1, hcounter.2, h.stack_length, h.stack_mem⟩

theorem after_inBounds (h : m.InBounds) (history : List Operation) :
    (m.after dice history).InBounds := by
  induction history generalizing m with
  | nil => exact h
  | cons operation history ih => exact ih (apply_inBounds h operation)

/-- The machine comes out of some history of requests to a machine just switched on. -/
def Reachable (m : Machine) : Prop :=
  ∃ settings start dice history, (fresh settings start).after dice history = m

theorem Reachable.inBounds (h : m.Reachable) : m.InBounds := by
  obtain ⟨settings, start, dice, history, rfl⟩ := h
  exact after_inBounds (fresh_inBounds settings start) history

/-- A machine switched on with a game in memory, about to execute its first word. -/
def booted (settings : Settings) (start : Float) (game : List UInt8) : Machine :=
  { fresh settings start with memory := (Font.install .blank).overlay gameStart game }

theorem booted_eq (settings : Settings) (start : Float) (dice : Nat → Int) {game : List UInt8}
    (h : game.length ≤ gameCapacity) :
    (fresh settings start).after dice [.loadGame game] = booted settings start game := by
  simp only [after, List.foldl_cons, List.foldl_nil, apply, loadGame]
  rw [if_neg (by omega)]
  rfl

theorem booted_reachable (settings : Settings) (start : Float) (game : List UInt8)
    (h : game.length ≤ gameCapacity) : (booted settings start game).Reachable :=
  ⟨settings, start, fun _ => 0, [.loadGame game], booted_eq settings start _ h⟩

theorem booted_next (settings : Settings) (start : Float) {game : List UInt8} {i : Instruction}
    (hk : 1 < game.length) (hg : game.length ≤ gameCapacity)
    (hi : 256 * game[0].toNat + game[1].toNat = i.word) : (booted settings start game).Next i :=
  next_of_game 0 rfl rfl hk hg hi

/-- No history of requests, refused and faulty ones among them, leads beyond the limits. -/
theorem after_withinLimits (settings : Settings) (start : Float) (dice : Nat → Int)
    (history : List Operation) : ((fresh settings start).after dice history).WithinLimits :=
  (after_inBounds (fresh_inBounds settings start) history).withinLimits

end Machine

end Chip8
