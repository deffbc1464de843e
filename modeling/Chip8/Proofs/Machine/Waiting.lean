import Chip8.Proofs.Machine.Footprint

/-!
Waiting for a key. A step that finds no key held goes back to its own instruction, so fetch, tick
and return together leave everything but the timers in place. However long the wait is, the first
key held ends it.
-/
namespace Chip8.Machine

/-- The machine is about to ask for a key, and none is held. -/
structure Waits (m : Machine) (x : Nibble) : Prop where
  next : m.Next (.awaitKey x)
  key : m.key = none

variable {m : Machine} {x : Nibble}

theorem Waits.updateTimers (h : m.Waits x) (now : Float) :
    (m.updateTimers now).machine.Waits x := by
  obtain ⟨delay, sound, lastTick, ht⟩ := m.updateTimers_eq now
  rw [ht]
  exact ⟨h.next, h.key⟩

/-- The counter moves past the instruction and back again, so only the tick is left. -/
theorem Waits.step (h : m.Waits x) (dice : Nat → Int) (now : Float) :
    (m.step dice now).machine = (m.updateTimers now).machine ∧
      (m.step dice now).fault = none := by
  obtain ⟨hmachine, hfault⟩ := step_of_next dice now h.next
  obtain ⟨delay, sound, lastTick, ht⟩ := m.updateTimers_eq now
  rw [hmachine, hfault, poised, ht]
  simp only [Instruction.execute, advance, h.key, Int.add_sub_cancel, and_self]

/-- Steps that wait are ticks, and the wait goes on behind them. -/
theorem Waits.played (h : m.Waits x) (dice : Nat → Int) (readings : List Float) :
    m.played dice readings = m.after dice (readings.map .updateTimers) ∧
      (m.played dice readings).Waits x := by
  induction readings generalizing m with
  | nil => exact ⟨rfl, h⟩
  | cons now rest ih =>
    have htick := h.updateTimers now
    have hfirst : m.played dice (now :: rest) = (m.updateTimers now).machine.played dice rest := by
      rw [← (h.step dice now).1]
      rfl
    rw [hfirst]
    exact ih htick

theorem after_updateTimers_eq (dice : Nat → Int) (m : Machine) (readings : List Float) :
    ∃ delay sound lastTick,
      m.after dice (readings.map .updateTimers) = { m with delay, sound, lastTick } := by
  induction readings generalizing m with
  | nil => exact ⟨m.delay, m.sound, m.lastTick, rfl⟩
  | cons now rest ih =>
    obtain ⟨delay, sound, lastTick, ht⟩ := m.updateTimers_eq now
    obtain ⟨delay', sound', lastTick', hrest⟩ := ih (m.updateTimers now).machine
    refine ⟨delay', sound', lastTick', hrest.trans ?_⟩
    rw [ht]

/-- With a key held the same instruction stores it and lets the machine go on. -/
theorem step_of_held {key : Nibble} (hnext : m.Next (.awaitKey x)) (hkey : m.key = some key)
    (dice : Nat → Int) (now : Float) :
    (m.step dice now).machine =
        (m.ticked now (m.counter + 2)).setRegister x (UInt8.ofNat key.val) ∧
      (m.step dice now).fault = none := by
  have hheld : (m.ticked now (m.counter + 2)).key = some key := hkey
  obtain ⟨hmachine, hfault⟩ := step_of_next dice now hnext
  rw [hmachine, hfault, poised_eq_ticked]
  simp only [Instruction.execute, hheld, and_self]

/-- While no key is held, any number of steps at the instruction that asks for one succeeds and
does what as many ticks of the timers do. After a key is held the next step stores it and goes on,
and nothing else changes but the timers. -/
theorem waits_until_held (hnext : m.Next (.awaitKey x)) (hkey : m.key = none) (dice : Nat → Int)
    (readings : List Float) :
    let waited := m.played dice readings
    let timed := m.after dice (readings.map .updateTimers)
    (∀ before now, before ++ [now] <+: readings →
      ((m.played dice before).step dice now).fault = none) ∧
    waited = { m with delay := timed.delay, sound := timed.sound, lastTick := timed.lastTick } ∧
    ∀ (key : Nibble) (now : Float),
      let held := waited.hold (some key.val)
      held.fault = none ∧ held.machine = { waited with key := some key } ∧
        (held.machine.step dice now).fault = none ∧
        (held.machine.step dice now).machine =
          (held.machine.ticked now (m.counter + 2)).setRegister x (UInt8.ofNat key.val) := by
  intro waited timed
  have hwaits : m.Waits x := ⟨hnext, hkey⟩
  obtain ⟨htimed, hstill⟩ := hwaits.played dice readings
  obtain ⟨delay, sound, lastTick, heq⟩ := m.after_updateTimers_eq dice readings
  have hwaited : waited = { m with delay, sound, lastTick } := htimed.trans heq
  refine ⟨?_, ?_, ?_⟩
  · intro before now _
    exact ((hwaits.played dice before).2.step dice now).2
  · rw [hwaited, show timed = _ from heq]
  · intro key now held
    obtain ⟨hmachine, hfault⟩ := waited.hold_of_nibble key
    have hasks : held.machine.Next (.awaitKey x) := by
      rw [hmachine]
      exact hstill.next
    have hcounter : held.machine.counter = m.counter := by rw [hmachine, hwaited]
    have hpressed : held.machine.key = some key := by rw [hmachine]
    obtain ⟨hstored, hgoes⟩ := step_of_held hasks hpressed dice now
    rw [hcounter] at hstored
    exact ⟨hfault, hmachine, hgoes, hstored⟩

/-- A wait of three steps, ended by the key e. -/
theorem waits_until_held_e :
    let m := booted {} 0 [0xf3, 0x0a]
    let held := (m.played (fun _ => 0) [1, 2, 3]).hold (some 14)
    let n := (held.machine.step (fun _ => 0) 4).machine
    m.Reachable ∧ m.Next (.awaitKey 3) ∧ m.key = none ∧
      (m.played (fun _ => 0) [1, 2, 3]).counter = 0x200 ∧ n.counter = 0x202 ∧ n.register 3 = 14 := by
  intro m held n
  have hnext : m.Next (.awaitKey 3) := booted_next {} 0 (by decide) (by decide) rfl
  obtain ⟨-, hwaited, hend⟩ := waits_until_held hnext rfl (fun _ => 0) [1, 2, 3]
  obtain ⟨-, -, -, hn⟩ := hend 14 4
  have hn : n = _ := hn
  refine ⟨booted_reachable {} 0 [0xf3, 0x0a] (by decide), hnext, rfl, ?_, ?_, ?_⟩
  · rw [hwaited]
    rfl
  · rw [hn]
    rfl
  · rw [hn]
    exact register_setRegister_self _ _ _

end Chip8.Machine
