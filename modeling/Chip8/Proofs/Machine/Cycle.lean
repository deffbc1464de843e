import Chip8.Machine.Step
import Chip8.Proofs.Instruction.Word
import Chip8.Proofs.Memory.Block
import Mathlib.Tactic.ByContra

/-!
One step taken apart. It depends on the word at the program counter alone whether an instruction
is executed, and on which machine: the one whose timers have ticked and whose counter has moved
past the word. A step has three ways to go. There is no word, the word is no instruction, or it is
exactly one.
-/
namespace Chip8.Machine

/-- The big-endian word at the program counter, where both its bytes lie in memory. -/
def word? (m : Machine) : Option Nat :=
  if h : 0 ≤ m.counter ∧ m.counter ≤ 4094 then
    some (256 * m.memory[m.counter.toNat].toNat + m.memory[m.counter.toNat + 1].toNat)
  else none

/-- The instruction `i` is the one at the program counter. -/
def Next (m : Machine) (i : Instruction) : Prop := m.word? = some i.word

instance (m : Machine) (i : Instruction) : Decidable (m.Next i) :=
  inferInstanceAs (Decidable (m.word? = some i.word))

/-- The machine on which a step executes its instruction. -/
def poised (m : Machine) (now : Float) : Machine := (m.updateTimers now).machine.advance

variable (dice : Nat → Int) (m : Machine) (now : Float)

theorem word?_eq_none_iff : m.word? = none ↔ m.counter < 0 ∨ 4094 < m.counter := by
  unfold word?
  by_cases h : 0 ≤ m.counter ∧ m.counter ≤ 4094
  · rw [dif_pos h]
    constructor
    · intro hn
      cases hn
    · omega
  · rw [dif_neg h]
    constructor
    · omega
    · exact fun _ => rfl

variable {m} in
theorem word?_of_counter {a : Nat} (ha : a + 1 < 4096) (hc : m.counter = a) :
    m.word? = some (256 * m.memory[a].toNat + m.memory[a + 1].toNat) := by
  unfold word?
  rw [dif_pos (show 0 ≤ m.counter ∧ m.counter ≤ 4094 by omega)]
  simp only [hc, Int.toNat_natCast]

variable {m} in
/-- While the counter stands inside a loaded game, the word is the game's. -/
theorem word?_of_game {base : Memory} {game : List UInt8} {k : Nat}
    (hm : m.memory = base.overlay gameStart game) (hc : m.counter = (gameStart + k : Nat))
    (hk : k + 1 < game.length) (hg : game.length ≤ gameCapacity) :
    m.word? = some (256 * game[k].toNat + game[k + 1].toNat) := by
  unfold gameStart gameCapacity at *
  rw [word?_of_counter (by omega) hc]
  simp only [hm]
  rw [base.getElem_overlay_add 512 game k (by omega) (by omega)]
  have h := base.getElem_overlay_add 512 game (k + 1) hk (by omega)
  simp only [← Nat.add_assoc] at h
  rw [h]

variable {m} in
theorem next_of_game {base : Memory} {game : List UInt8} {i : Instruction} (k : Nat)
    (hm : m.memory = base.overlay gameStart game) (hc : m.counter = (gameStart + k : Nat))
    (hk : k + 1 < game.length) (hg : game.length ≤ gameCapacity)
    (hi : 256 * game[k].toNat + game[k + 1].toNat = i.word) : m.Next i := by
  rw [Next, word?_of_game hm hc hk hg, hi]

variable {m} in
theorem next_unique {i j : Instruction} (hi : m.Next i) (hj : m.Next j) : i = j :=
  Instruction.word_injective (Option.some.inj (hi.symm.trans hj))

variable {m} in
theorem opcode_of_word? {w : Nat} (h : m.word? = some w) :
    ∃ o, m.opcode = .ok o ∧ o.rest = [] ∧ o.word = w := by
  have hc : 0 ≤ m.counter ∧ m.counter ≤ 4094 := by
    by_contra hn
    rw [(m.word?_eq_none_iff).2 (by omega)] at h
    cases h
  have h1 : Memory.InRange m.counter := ⟨hc.1, by omega⟩
  have h2 : Memory.InRange (m.counter + 1) := ⟨by omega, by omega⟩
  obtain ⟨a, ha, ha'⟩ := m.memory.read_of_inRange h1
  obtain ⟨b, hb, hb'⟩ := m.memory.read_of_inRange h2
  refine ⟨⟨a, b, []⟩, by simp only [opcode, ha, hb], rfl, ?_⟩
  rw [show (m.counter + 1).toNat = m.counter.toNat + 1 by omega] at hb'
  rw [Vector.getElem?_eq_getElem (by omega)] at ha' hb'
  unfold word? at h
  rw [dif_pos hc, Option.some.inj ha', Option.some.inj hb'] at h
  exact Option.some.inj h

variable {m} in
theorem opcode_of_word?_eq_none (h : m.word? = none) (hc : 0 ≤ m.counter) :
    m.opcode = .error (.outOfRange (max m.counter 4096)) := by
  have hc' : 4094 < m.counter := by
    rcases (m.word?_eq_none_iff).1 h with hn | hn <;> omega
  unfold opcode
  by_cases he : m.counter = 4095
  · have h1 : Memory.InRange m.counter := ⟨hc, by omega⟩
    obtain ⟨a, ha, -⟩ := m.memory.read_of_inRange h1
    have hb : ¬Memory.InRange (m.counter + 1) := fun hn => by have := hn.2; omega
    simp only [ha, m.memory.read_of_not_inRange hb]
    rw [show max m.counter 4096 = m.counter + 1 by omega]
  · have ha : ¬Memory.InRange m.counter := fun hn => by have := hn.2; omega
    simp only [m.memory.read_of_not_inRange ha]
    rw [show max m.counter 4096 = m.counter by omega]

variable {m} in
theorem exists_outOfRange_of_word?_eq_none (h : m.word? = none) :
    ∃ address, m.opcode = .error (.outOfRange address) := by
  by_cases hc : 0 ≤ m.counter
  · exact ⟨_, m.opcode_of_word?_eq_none h hc⟩
  · refine ⟨m.counter, ?_⟩
    simp only [opcode, m.memory.read_of_not_inRange fun hr => hc hr.1]

/-- The timers touch nothing but themselves. -/
theorem updateTimers_eq : ∃ delay sound lastTick,
    (m.updateTimers now).machine = { m with delay, sound, lastTick } := by
  unfold updateTimers
  by_cases h : m.ticks now
  · rw [if_pos h]
    exact ⟨countDown m.delay, countDown m.sound, now, rfl⟩
  · rw [if_neg h]
    exact ⟨m.delay, m.sound, m.lastTick, rfl⟩

theorem poised_eq : ∃ delay sound lastTick,
    m.poised now = { m with counter := m.counter + 2, delay, sound, lastTick } := by
  obtain ⟨delay, sound, lastTick, h⟩ := m.updateTimers_eq now
  refine ⟨delay, sound, lastTick, ?_⟩
  rw [poised, h, advance]

/-- To execute the opcode of an instruction is to execute the instruction. -/
theorem perform_toOpcode (i : Instruction) :
    (m.perform dice i.toOpcode).machine = (i.execute dice m).machine ∧
      (m.perform dice i.toOpcode).fault = (i.execute dice m).fault := by
  simp only [perform, Instruction.ofOpcode?_toOpcode, and_self]

theorem opcode_updateTimers : (m.updateTimers now).machine.opcode = m.opcode := by
  obtain ⟨delay, sound, lastTick, h⟩ := m.updateTimers_eq now
  rw [h]
  rfl

section
variable {m}

/-- Without a word at the counter a step does no more than let the timers tick. -/
theorem step_of_opcode_eq_error {fault : Fault} (h : m.opcode = .error fault) :
    (m.step dice now).machine = (m.updateTimers now).machine ∧
      (m.step dice now).fault = some fault := by
  rw [← m.opcode_updateTimers now] at h
  simp only [step, cycle, h, Outcome.refuse, and_self]

theorem step_of_word?_eq_none (h : m.word? = none) (hc : 0 ≤ m.counter) :
    (m.step dice now).machine = (m.updateTimers now).machine ∧
      (m.step dice now).fault = some (.outOfRange (max m.counter 4096)) :=
  step_of_opcode_eq_error dice now (opcode_of_word?_eq_none h hc)

/-- A word that is no instruction is passed over. -/
theorem step_of_unknown {w : Nat} (h : m.word? = some w) (hw : ∀ i : Instruction, i.word ≠ w) :
    (m.step dice now).machine = m.poised now ∧ (m.step dice now).fault = none := by
  obtain ⟨o, ho, hr, rfl⟩ := opcode_of_word? h
  have hi : Instruction.ofOpcode? o = none := by
    by_contra hn
    obtain ⟨i, hi⟩ := Option.ne_none_iff_exists'.1 hn
    exact hw i ((Instruction.ofOpcode?_eq_some_iff_word hr).1 hi).symm
  rw [← m.opcode_updateTimers now] at ho
  simp only [step, cycle, ho, perform, hi, poised, and_self]

theorem step_of_next {i : Instruction} (h : m.Next i) :
    (m.step dice now).machine = (i.execute dice (m.poised now)).machine ∧
      (m.step dice now).fault = (i.execute dice (m.poised now)).fault := by
  obtain ⟨o, ho, hr, hw⟩ := opcode_of_word? h
  have hi := (Instruction.ofOpcode?_eq_some_iff_word hr).2 hw
  rw [← m.opcode_updateTimers now] at ho
  simp only [step, cycle, ho, perform, hi, poised, and_self]

/-- The machine after an instruction, the timers left open. -/
theorem step_machine_of_next {i : Instruction} (h : m.Next i) : ∃ delay sound lastTick,
    (m.step dice now).machine =
      (i.execute dice { m with counter := m.counter + 2, delay, sound, lastTick }).machine := by
  obtain ⟨delay, sound, lastTick, hp⟩ := m.poised_eq now
  refine ⟨delay, sound, lastTick, ?_⟩
  rw [(step_of_next dice now h).1, hp]

end

theorem word?_cases : m.word? = none ∨
    (∃ w, m.word? = some w ∧ ∀ i : Instruction, i.word ≠ w) ∨ ∃ i, m.Next i := by
  cases h : m.word? with
  | none => exact Or.inl rfl
  | some w =>
    by_cases hi : ∃ i : Instruction, i.word = w
    · obtain ⟨i, rfl⟩ := hi
      exact Or.inr (Or.inr ⟨i, h⟩)
    · exact Or.inr (Or.inl ⟨w, rfl, fun i hw => hi ⟨i, hw⟩⟩)

variable {m} in
/-- A step without an instruction leaves all but the counter and the timers alone. -/
theorem step_of_not_next (h : ∀ i, ¬m.Next i) :
    ∃ counter delay sound lastTick,
      (m.step dice now).machine = { m with counter, delay, sound, lastTick } := by
  rcases m.word?_cases with hw | ⟨w, hw, hu⟩ | ⟨i, hi⟩
  · obtain ⟨address, ho⟩ := exists_outOfRange_of_word?_eq_none hw
    obtain ⟨delay, sound, lastTick, ht⟩ := m.updateTimers_eq now
    exact ⟨m.counter, delay, sound, lastTick, (step_of_opcode_eq_error dice now ho).1.trans ht⟩
  · obtain ⟨delay, sound, lastTick, ht⟩ := m.poised_eq now
    refine ⟨m.counter + 2, delay, sound, lastTick, ?_⟩
    rw [(step_of_unknown dice now hw hu).1, ht]
  · exact absurd hi (h i)

end Chip8.Machine
