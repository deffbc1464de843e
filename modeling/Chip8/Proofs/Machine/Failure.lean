import Chip8.Proofs.Machine.Bounds

/-!
Exactly when a step fails, with which fault, and what it leaves behind. The causes are read off
the word at the program counter, the call stack, the index and the registers before the step; the
timers have no part in them. All of these faults stop the emulation.
-/
namespace Chip8

namespace Memory

theorem stops_of_readBlock (m : Memory) (address : Int) (count : Nat) {fault : Fault}
    (h : (m.readBlock address count).2 = some fault) : fault.StopsEmulation := by
  induction count generalizing address with
  | zero => cases h
  | succ count ih =>
    unfold readBlock at h
    cases hr : m.read address with
    | error fault' =>
      rw [hr] at h
      obtain rfl := Option.some.inj h
      obtain ⟨-, rfl⟩ := read_eq_error_iff.1 hr
      trivial
    | ok value =>
      rw [hr] at h
      exact ih _ h

theorem stops_of_writeBlock (m : Memory) (address : Int) (values : List UInt8) {fault : Fault}
    (h : (m.writeBlock address values).2 = some fault) : fault.StopsEmulation := by
  induction values generalizing m address with
  | nil => cases h
  | cons value values ih =>
    unfold writeBlock at h
    by_cases hr : InRange address
    · obtain ⟨n, hn⟩ := m.write_of_inRange value hr
      rw [hn] at h
      exact ih n _ h
    · rw [m.write_of_not_inRange value hr] at h
      obtain rfl := Option.some.inj h
      trivial

end Memory

theorem Instruction.stops_of_execute {dice : Nat → Int} {m : Machine} {i : Instruction}
    {fault : Fault} (h : (i.execute dice m).fault = some fault) : fault.StopsEmulation := by
  cases i with
  | ret | call =>
    simp only [execute] at h
    split at h
    · obtain rfl := Option.some.inj h
      trivial
    · cases h
  | draw x y height =>
    cases hr : (m.memory.readBlock m.index (m.visibleRows y height)).2 with
    | some fault' =>
      simp only [execute, Machine.drawSprite_eq_picture, hr] at h
      obtain rfl := Option.some.inj h
      exact m.memory.stops_of_readBlock _ _ hr
    | none =>
      simp only [execute, Machine.drawSprite_eq_picture, hr] at h
      cases h
  | storeDecimal x =>
    exact m.memory.stops_of_writeBlock m.index (Machine.decimalDigits (m.register x)) h
  | store x => exact m.memory.stops_of_writeBlock m.index (m.firstRegisters x) h
  | load x => exact m.memory.stops_of_readBlock m.index (x.val + 1) h
  | awaitKey =>
    simp only [execute] at h
    split at h <;> cases h
  | _ => cases h

/-- Every fault of a step is one of those that stop the emulation. -/
theorem Machine.stops_of_step {dice : Nat → Int} {m : Machine} {now : Float} {fault : Fault}
    (h : (m.step dice now).fault = some fault) : fault.StopsEmulation := by
  rcases m.word?_cases with hw | ⟨w, hw, hu⟩ | ⟨i, hi⟩
  · obtain ⟨address, ho⟩ := exists_outOfRange_of_word?_eq_none hw
    rw [(step_of_opcode_eq_error dice now ho).2] at h
    obtain rfl := Option.some.inj h
    trivial
  · rw [(step_of_unknown dice now hw hu).2] at h
    cases h
  · rw [(step_of_next dice now hi).2] at h
    exact Instruction.stops_of_execute h

namespace Machine

/-- The causes for which a step fails, each with its fault. -/
inductive Fails (m : Machine) : Fault → Prop
  | fetch (h : 4094 < m.counter) : m.Fails (.outOfRange (max m.counter 4096))
  | ret (hw : m.word? = some 0x00ee) (hs : m.stack = []) : m.Fails .stackUnderflow
  | call (target : Fin 4096) (hw : m.word? = some (0x2000 + target.val))
      (hs : m.stack.length = 32) : m.Fails .stackOverflow
  | storeDecimal (x : Nibble) (hw : m.word? = some (0xf033 + 0x100 * x.val))
      (hi : 4093 < m.index) : m.Fails (.outOfRange (max m.index 4096))
  | store (x : Nibble) (hw : m.word? = some (0xf055 + 0x100 * x.val))
      (hi : 4095 < m.index + x.val) : m.Fails (.outOfRange (max m.index 4096))
  | load (x : Nibble) (hw : m.word? = some (0xf065 + 0x100 * x.val))
      (hi : 4095 < m.index + x.val) : m.Fails (.outOfRange (max m.index 4096))
  | draw (x y height : Nibble)
      (hw : m.word? = some (0xd000 + 0x100 * x.val + 0x10 * y.val + height.val))
      (hh : 0 < height.val)
      (hi : 4096 < m.index + (min height.val (32 - (m.register y).toNat % 32) : Nat)) :
      m.Fails (.outOfRange (max m.index 4096))

variable {dice : Nat → Int} {m : Machine} {now : Float} {i : Instruction} {fault : Fault}

theorem faultOn_poised (now : Float) : i.faultOn (m.poised now) = i.faultOn m := by
  obtain ⟨delay, sound, lastTick, h⟩ := m.poised_eq now
  rw [h]
  cases i <;> rfl

theorem visibleRows_pos_iff {y height : Nibble} : 0 < m.visibleRows y height ↔ 0 < height.val := by
  unfold visibleRows
  omega

/-- A machine whose next word is an instruction fails for what stops that instruction. -/
theorem fails_iff_of_next (hm : m.InBounds) (hi : m.Next i) :
    m.Fails fault ↔ i.faultOn m = some fault := by
  constructor
  · intro hf
    cases hf with
    | fetch h =>
      have hn := (m.word?_eq_none_iff).2 (Or.inr h)
      rw [hi] at hn
      cases hn
    | ret hw hs =>
      obtain rfl := next_unique hi (j := .ret) hw
      exact if_pos hs
    | call target hw hs =>
      obtain rfl := next_unique hi (j := .call target) hw
      exact if_pos (Nat.le_of_eq hs.symm)
    | storeDecimal x hw h =>
      obtain rfl := next_unique hi (j := .storeDecimal x) hw
      exact Memory.blockFault_eq_some_iff.2 ⟨⟨by decide, by omega⟩, rfl⟩
    | store x hw h =>
      obtain rfl := next_unique hi (j := .store x) hw
      exact Memory.blockFault_eq_some_iff.2 ⟨⟨by omega, by omega⟩, rfl⟩
    | load x hw h =>
      obtain rfl := next_unique hi (j := .load x) hw
      exact Memory.blockFault_eq_some_iff.2 ⟨⟨by omega, by omega⟩, rfl⟩
    | draw x y height hw hh h =>
      obtain rfl := next_unique hi (j := .draw x y height) hw
      exact Memory.blockFault_eq_some_iff.2 ⟨⟨visibleRows_pos_iff.2 hh, h⟩, rfl⟩
  · intro hf
    cases i with
    | ret =>
      by_cases hs : m.stack = []
      · obtain rfl := Option.some.inj ((if_pos hs).symm.trans hf)
        exact .ret hi hs
      · cases (if_neg hs).symm.trans hf
    | call target =>
      by_cases hs : m.stack.length ≥ stackCapacity
      · obtain rfl := Option.some.inj ((if_pos hs).symm.trans hf)
        exact .call target hi (Nat.le_antisymm hm.stack_length hs)
      · cases (if_neg hs).symm.trans hf
    | storeDecimal x =>
      obtain ⟨⟨-, h⟩, rfl⟩ := Memory.blockFault_eq_some_iff.1 hf
      exact .storeDecimal x hi (by omega)
    | store x =>
      obtain ⟨⟨-, h⟩, rfl⟩ := Memory.blockFault_eq_some_iff.1 hf
      exact .store x hi (by omega)
    | load x =>
      obtain ⟨⟨-, h⟩, rfl⟩ := Memory.blockFault_eq_some_iff.1 hf
      exact .load x hi (by omega)
    | draw x y height =>
      obtain ⟨⟨hh, h⟩, rfl⟩ := Memory.blockFault_eq_some_iff.1 hf
      exact .draw x y height hi (visibleRows_pos_iff.1 hh) h
    | _ => cases hf

/-- Every cause but the fetch names an instruction. -/
theorem Fails.next (hf : m.Fails fault) : 4094 < m.counter ∨ ∃ i, m.Next i := by
  cases hf with
  | fetch h => exact Or.inl h
  | ret hw => exact Or.inr ⟨.ret, hw⟩
  | call target hw => exact Or.inr ⟨.call target, hw⟩
  | storeDecimal x hw => exact Or.inr ⟨.storeDecimal x, hw⟩
  | store x hw => exact Or.inr ⟨.store x, hw⟩
  | load x hw => exact Or.inr ⟨.load x, hw⟩
  | draw x y height hw => exact Or.inr ⟨.draw x y height, hw⟩

theorem step_fault_of_next (hm : m.InBounds) (hi : m.Next i) :
    (m.step dice now).fault = i.faultOn m := by
  have hp : 0 ≤ (m.poised now).index := (hm.fetched hi).bounds.index_nonneg
  rw [(step_of_next dice now hi).2, i.execute_fault dice hp, faultOn_poised]

theorem step_fault_eq_some_iff (hm : m.InBounds) :
    (m.step dice now).fault = some fault ↔ m.Fails fault := by
  rcases m.word?_cases with hw | ⟨w, hw, hu⟩ | ⟨i, hi⟩
  · rw [(step_of_word?_eq_none dice now hw hm.counter_nonneg).2]
    constructor
    · intro hf
      obtain rfl := Option.some.inj hf
      rcases (m.word?_eq_none_iff).1 hw with hc | hc
      · exact absurd hm.counter_nonneg (by omega)
      · exact .fetch hc
    · intro hf
      cases hf with
      | fetch h => rfl
      | ret hn | call _ hn | storeDecimal _ hn | store _ hn | load _ hn | draw _ _ _ hn =>
        rw [hw] at hn
        cases hn
  · rw [(step_of_unknown dice now hw hu).2]
    constructor
    · intro hf
      cases hf
    · intro hf
      rcases hf.next with hc | ⟨i, hi⟩
      · rw [(m.word?_eq_none_iff).2 (Or.inr hc)] at hw
        cases hw
      · exact absurd (Option.some.inj (hi.symm.trans hw)) (hu i)
  · rw [step_fault_of_next hm hi, fails_iff_of_next hm hi]

/-- A return or a call that the call stack refuses changes nothing. -/
theorem execute_of_stackFault
    (hf : i.faultOn m = some .stackUnderflow ∨ i.faultOn m = some .stackOverflow) :
    (i.execute dice m).machine = m := by
  cases i with
  | ret =>
    obtain ⟨settings, memory, registers, index, counter, stack⟩ := m
    cases stack with
    | nil => rfl
    | cons top below => rcases hf with hf | hf <;> cases hf
  | call target =>
    by_cases hs : m.stack.length ≥ stackCapacity
    · simp only [Instruction.execute, if_pos hs]
    · simp only [Instruction.faultOn, if_neg hs] at hf
      rcases hf with hf | hf <;> cases hf
  | draw | storeDecimal | store | load =>
    rcases hf with hf | hf <;> cases (Memory.blockFault_eq_some_iff.1 hf).2
  | _ => rcases hf with hf | hf <;> cases hf

theorem updateTimers_machine : (m.updateTimers now).machine =
    { m with
      delay := (m.updateTimers now).machine.delay
      sound := (m.updateTimers now).machine.sound
      lastTick := (m.updateTimers now).machine.lastTick } := by
  obtain ⟨delay, sound, lastTick, h⟩ := m.updateTimers_eq now
  rw [h]

/-- A step of a reachable machine fails for the listed causes and for no other. A fetch that
fails leaves the machine as the timers left it, and so does a fault of the call stack, only that
the counter has moved on. -/
theorem step_fails_iff (hm : m.Reachable) (dice : Nat → Int) (now : Float) :
    (∀ fault, (m.step dice now).fault = some fault ↔ m.Fails fault) ∧
    (4094 < m.counter → (m.step dice now).machine =
      { m with
        delay := (m.updateTimers now).machine.delay
        sound := (m.updateTimers now).machine.sound
        lastTick := (m.updateTimers now).machine.lastTick }) ∧
    ((m.step dice now).fault = some .stackUnderflow ∨
        (m.step dice now).fault = some .stackOverflow →
      (m.step dice now).machine =
        { m with
          counter := m.counter + 2
          delay := (m.updateTimers now).machine.delay
          sound := (m.updateTimers now).machine.sound
          lastTick := (m.updateTimers now).machine.lastTick }) := by
  have hb := hm.inBounds
  refine ⟨fun fault => step_fault_eq_some_iff hb, ?_, ?_⟩
  · intro hc
    have hw := (m.word?_eq_none_iff).2 (Or.inr hc)
    rw [(step_of_word?_eq_none dice now hw hb.counter_nonneg).1]
    exact updateTimers_machine
  · intro hf
    have hnext : ∃ i, m.Next i := by
      rcases hf with hf | hf
      · cases (step_fault_eq_some_iff hb).1 hf with
        | ret hw hs => exact ⟨.ret, hw⟩
      · cases (step_fault_eq_some_iff hb).1 hf with
        | call target hw hs => exact ⟨.call target, hw⟩
    obtain ⟨i, hi⟩ := hnext
    rw [step_fault_of_next hb hi, ← faultOn_poised now] at hf
    rw [(step_of_next dice now hi).1, execute_of_stackFault hf, poised, updateTimers_machine]
    rfl

/-- A game that starts with a return. -/
theorem step_fails_ret : (booted {} 0 [0x00, 0xee]).Reachable ∧
    (booted {} 0 [0x00, 0xee]).Fails .stackUnderflow ∧
    ((booted {} 0 [0x00, 0xee]).step (fun _ => 0) 1).fault = some .stackUnderflow := by
  have hm := booted_reachable {} 0 [0x00, 0xee] (by decide)
  have hw := word?_of_game (m := booted {} 0 [0x00, 0xee]) (k := 0) rfl rfl (by decide) (by decide)
  have hf : (booted {} 0 [0x00, 0xee]).Fails .stackUnderflow := .ret hw rfl
  exact ⟨hm, hf, ((step_fails_iff hm (fun _ => 0) 1).1 .stackUnderflow).2 hf⟩

end Machine

end Chip8
