import Chip8.Proofs.Machine.Failure
import Mathlib.Data.List.Infix

/-!
What a step may touch. For every component of a machine a few instructions are named, and a step
that changes the component executes one of these; a step without an instruction leaves all but the
program counter to the timers. So a cell of memory that a run has changed was a target of some
instruction on the way.
-/
namespace Chip8

namespace Instruction

/-- The instruction may store at the address `p`. -/
def Targets (m : Machine) (p : Int) : Instruction → Prop
  | .storeDecimal _ => m.index ≤ p ∧ p ≤ m.index + 2
  | .store x => m.index ≤ p ∧ p ≤ m.index + x.val
  | _ => False

/-- The instruction may put a result into register `v`. -/
def Writes (v : Nibble) : Instruction → Prop
  | .set x _ | .increase x _ | .copy x _ | .or x _ | .and x _ | .xor x _ | .add x _ | .sub x _
  | .shiftRight x _ | .subFrom x _ | .shiftLeft x _ | .random x _ | .getDelay x | .awaitKey x =>
    v = x
  | .load x => v ≤ x
  | _ => False

/-- The instruction tells something in the flag register. -/
def SetsFlag : Instruction → Prop
  | .add .. | .sub .. | .shiftRight .. | .subFrom .. | .shiftLeft .. | .draw .. | .addToIndex _ =>
    True
  | _ => False

def MovesStack : Instruction → Prop
  | .ret | .call _ => True
  | _ => False

def Paints : Instruction → Prop
  | .clear | .draw .. => True
  | _ => False

def SetsIndex : Instruction → Prop
  | .setIndex _ | .addToIndex _ | .indexGlyph _ => True
  | _ => False

variable (dice : Nat → Int) {m : Machine} {i : Instruction}

theorem memoryAfter_get {p : Fin 4096} (h : ¬i.Targets m p.val) :
    (i.memoryAfter m).get p = m.memory.get p := by
  cases i with
  | storeDecimal x =>
    have hlen : (Machine.decimalDigits (m.register x)).length = 3 := rfl
    refine m.memory.get_writeBlock_of_outside m.index _ p fun hp => h ⟨hp.1, ?_⟩
    omega
  | store x =>
    have hlen := m.length_firstRegisters x
    refine m.memory.get_writeBlock_of_outside m.index _ p fun hp => h ⟨hp.1, ?_⟩
    omega
  | _ => rfl

theorem stackAfter_eq (h : ¬i.MovesStack) : i.stackAfter m = m.stack := by
  cases i with
  | ret | call => exact absurd trivial h
  | _ => rfl

theorem screenAfter_eq (h : ¬i.Paints) : i.screenAfter m = m.screen := by
  cases i with
  | clear | draw => exact absurd trivial h
  | _ => rfl

theorem redrawAfter_eq (h : ¬i.Paints) : i.redrawAfter m = m.redraw := by
  cases i with
  | clear | draw => exact absurd trivial h
  | _ => rfl

theorem indexAfter_eq (h : ¬i.SetsIndex) : i.indexAfter m = m.index := by
  cases i with
  | setIndex | addToIndex | indexGlyph => exact absurd trivial h
  | _ => rfl

theorem register_setFlag {v : Nibble} (raised : Bool) (h : v ≠ flagRegister) :
    (m.setFlag raised).register v = m.register v :=
  m.register_setRegister_of_ne _ h.symm

theorem register_loadFromIndex {v x : Nibble} (h : ¬v ≤ x) :
    (m.loadFromIndex x).machine.register v = m.register v := by
  let values := (m.memory.readBlock m.index (x.val + 1)).1
  have hlen : values.length ≤ x.val + 1 := m.memory.length_readBlock_le _ _
  have hv : x.val + 1 ≤ v.val := Nat.lt_of_not_le h
  refine (m.register_loadRegisters values v).trans ?_
  rw [List.getD_eq_getElem?_getD, List.getElem?_eq_none (Nat.le_trans hlen hv), Option.getD_none]

theorem execute_register {v : Nibble} (hw : ¬i.Writes v) (hf : ¬(v = flagRegister ∧ i.SetsFlag)) :
    (i.execute dice m).machine.register v = m.register v := by
  cases i with
  | set | increase | copy | or | and | xor | getDelay =>
    exact m.register_setRegister_of_ne _ (Ne.symm hw)
  | random => exact m.register_setRegister_of_ne _ (Ne.symm hw)
  | add | sub | shiftRight | subFrom | shiftLeft =>
    have hv : v ≠ flagRegister := fun hv => hf ⟨hv, trivial⟩
    exact (register_setFlag _ hv).trans (m.register_setRegister_of_ne _ (Ne.symm hw))
  | addToIndex =>
    have hv : v ≠ flagRegister := fun hv => hf ⟨hv, trivial⟩
    exact register_setFlag _ hv
  | draw x y height =>
    have hv : v ≠ flagRegister := fun hv => hf ⟨hv, trivial⟩
    simp only [execute, Machine.drawSprite_eq_picture]
    split <;> exact register_setFlag _ hv
  | awaitKey x =>
    simp only [execute]
    split
    · rfl
    · exact m.register_setRegister_of_ne _ (Ne.symm hw)
  | load x => exact register_loadFromIndex hw
  | ret | call =>
    simp only [execute]
    split <;> rfl
  | skipIfEqual | skipIfUnequal | skipIfSame | skipIfDifferent | skipIfHeld | skipIfNotHeld =>
    simp only [execute, skipIf_eq]
    rfl
  | _ => rfl

end Instruction

namespace Machine

/-- The machine as it is after a tick, if one is due, with its counter at `counter`. -/
def ticked (m : Machine) (now : Float) (counter : Int) : Machine :=
  { m with
    counter
    delay := (m.updateTimers now).machine.delay
    sound := (m.updateTimers now).machine.sound
    lastTick := (m.updateTimers now).machine.lastTick }

/-- From `m` to `n` nothing has changed but what the instruction that is next may touch, and what
the timers do. -/
structure Confined (now : Float) (m n : Machine) : Prop where
  settings : n.settings = m.settings
  key : n.key = m.key
  memory : ∀ p : Fin 4096, n.memory.get p ≠ m.memory.get p → ∃ i, m.Next i ∧ i.Targets m p.val
  register : ∀ v, n.register v ≠ m.register v →
    ∃ i, m.Next i ∧ (i.Writes v ∨ v = flagRegister ∧ i.SetsFlag)
  index : n.index ≠ m.index → ∃ i, m.Next i ∧ i.SetsIndex
  stack : n.stack ≠ m.stack → ∃ i, m.Next i ∧ i.MovesStack
  screen : n.screen ≠ m.screen → ∃ i, m.Next i ∧ i.Paints
  redraw : n.redraw ≠ m.redraw → ∃ i, m.Next i ∧ i.Paints
  delay : n.delay ≠ (m.updateTimers now).machine.delay → ∃ x, m.Next (.setDelay x)
  sound : n.sound ≠ (m.updateTimers now).machine.sound → ∃ x, m.Next (.setSound x)
  lastTick : n.lastTick = (m.updateTimers now).machine.lastTick
  rolled : (∃ x mask, m.Next (.random x mask)) → n.draws = m.draws + 1
  unrolled : (¬∃ x mask, m.Next (.random x mask)) → n.draws = m.draws
  unknown : ∀ w, m.word? = some w → (∀ i : Instruction, i.word ≠ w) →
    n = m.ticked now (m.counter + 2)

variable {dice : Nat → Int} {m : Machine} {now : Float} {i : Instruction}

theorem poised_eq_ticked (m : Machine) (now : Float) :
    m.poised now = m.ticked now (m.counter + 2) := by
  rw [poised, updateTimers_machine]
  rfl

theorem updateTimers_eq_ticked (m : Machine) (now : Float) :
    (m.updateTimers now).machine = m.ticked now m.counter :=
  updateTimers_machine

theorem confined_of_idle (hn : ∀ i, ¬m.Next i) (counter : Int)
    (hu : ∀ w, m.word? = some w → counter = m.counter + 2) :
    Confined now m (m.ticked now counter) where
  settings := rfl
  key := rfl
  memory := fun _ h => absurd rfl h
  register := fun _ h => absurd rfl h
  index := fun h => absurd rfl h
  stack := fun h => absurd rfl h
  screen := fun h => absurd rfl h
  redraw := fun h => absurd rfl h
  delay := fun h => absurd rfl h
  sound := fun h => absurd rfl h
  lastTick := rfl
  rolled := fun ⟨_, _, h⟩ => absurd h (hn _)
  unrolled := fun _ => rfl
  unknown := fun w hw _ => by rw [hu w hw]

theorem targets_ticked {p counter : Int} :
    i.Targets (m.ticked now counter) p ↔ i.Targets m p := by
  cases i <;> exact Iff.rfl

theorem exists_next_of_ne {α : Type} {old new : α} {P : Instruction → Prop} (hi : m.Next i)
    (hkeep : ¬P i → new = old) (hne : new ≠ old) : ∃ i, m.Next i ∧ P i := by
  refine ⟨i, hi, ?_⟩
  by_contra hn
  exact hne (hkeep hn)

theorem confined_of_next (dice : Nat → Int) (hi : m.Next i) :
    Confined now m (i.execute dice (m.ticked now (m.counter + 2))).machine where
  settings := i.execute_settings dice _
  key := i.execute_key dice _
  memory := by
    intro p
    refine exists_next_of_ne hi fun hn => ?_
    rw [i.execute_memory, Instruction.memoryAfter_get (mt targets_ticked.1 hn)]
    rfl
  register := by
    intro v
    refine exists_next_of_ne hi fun hn => ?_
    rw [not_or] at hn
    exact Instruction.execute_register dice hn.1 hn.2
  index := exists_next_of_ne hi fun hn =>
    (i.execute_index dice _).trans (Instruction.indexAfter_eq hn)
  stack := exists_next_of_ne hi fun hn =>
    (i.execute_stack dice _).trans (Instruction.stackAfter_eq hn)
  screen := exists_next_of_ne hi fun hn =>
    (i.execute_screen dice _).trans (Instruction.screenAfter_eq hn)
  redraw := exists_next_of_ne hi fun hn =>
    (i.execute_redraw dice _).trans (Instruction.redrawAfter_eq hn)
  delay := by
    intro h
    rw [i.execute_delay] at h
    cases i with
    | setDelay x => exact ⟨x, hi⟩
    | _ => exact absurd rfl h
  sound := by
    intro h
    rw [i.execute_sound] at h
    cases i with
    | setSound x => exact ⟨x, hi⟩
    | _ => exact absurd rfl h
  lastTick := i.execute_lastTick dice _
  rolled := by
    intro hr
    obtain ⟨x, mask, hr⟩ := hr
    obtain rfl := next_unique hi hr
    rfl
  unrolled := by
    intro hr
    rw [i.execute_draws]
    cases i with
    | random x mask => exact absurd ⟨x, mask, hi⟩ hr
    | _ => rfl
  unknown := by
    intro w hw hu
    exact absurd (Option.some.inj (hi.symm.trans hw)) (hu i)

theorem step_confined_of_inBounds (hm : m.InBounds) (dice : Nat → Int) (now : Float) :
    Confined now m (m.step dice now).machine := by
  rcases m.word?_cases with hw | ⟨w, hw, hu⟩ | ⟨i, hi⟩
  · rw [(step_of_word?_eq_none dice now hw hm.counter_nonneg).1, updateTimers_eq_ticked]
    refine confined_of_idle (fun i hi => ?_) m.counter fun w hw' => ?_
    · rw [Next, hw] at hi
      cases hi
    · rw [hw] at hw'
      cases hw'
  · rw [(step_of_unknown dice now hw hu).1, poised_eq_ticked]
    refine confined_of_idle (fun i hi => ?_) (m.counter + 2) fun _ _ => rfl
    exact hu i (Option.some.inj (hi.symm.trans hw))
  · rw [(step_of_next dice now hi).1, poised_eq_ticked]
    exact confined_of_next dice hi

/-- The machine after steps at the given clock readings, failed ones among them. -/
def played (dice : Nat → Int) (m : Machine) (readings : List Float) : Machine :=
  m.after dice (readings.map .step)

theorem played_concat (dice : Nat → Int) (m : Machine) (readings : List Float) (now : Float) :
    m.played dice (readings ++ [now]) = ((m.played dice readings).step dice now).machine := by
  rw [played, List.map_append]
  exact after_concat dice m (readings.map .step) (.step now)

theorem exists_target_of_played (hm : m.InBounds) (dice : Nat → Int) (readings : List Float)
    (p : Fin 4096) (hp : (m.played dice readings).memory.get p ≠ m.memory.get p) :
    ∃ before now i, before ++ [now] <+: readings ∧ (m.played dice before).Next i ∧
      i.Targets (m.played dice before) p.val := by
  induction readings using List.reverseRecOn with
  | nil => exact absurd rfl hp
  | append_singleton readings now ih =>
    by_cases hkept : (m.played dice readings).memory.get p = m.memory.get p
    · -- The last step has changed the cell.
      have hb : (m.played dice readings).InBounds := after_inBounds hm _
      rw [played_concat, ← hkept] at hp
      obtain ⟨i, hi, ht⟩ := (step_confined_of_inBounds hb dice now).memory p hp
      exact ⟨readings, now, i, List.prefix_refl _, hi, ht⟩
    · obtain ⟨before, now', i, hpre, hi, ht⟩ := ih hkept
      exact ⟨before, now', i, hpre.trans (List.prefix_append _ _), hi, ht⟩

/-- A step touches what its instruction may touch and nothing else, and over a run of steps only
the targets of executed instructions change in memory. -/
theorem steps_confined (hm : m.Reachable) (dice : Nat → Int) :
    (∀ now, Confined now m (m.step dice now).machine) ∧
    ∀ (readings : List Float) (p : Fin 4096),
      (m.played dice readings).memory.get p ≠ m.memory.get p →
        ∃ before now i, before ++ [now] <+: readings ∧ (m.played dice before).Next i ∧
          i.Targets (m.played dice before) p.val :=
  ⟨step_confined_of_inBounds hm.inBounds dice, exists_target_of_played hm.inBounds dice⟩

theorem steps_confined_set : (booted {} 0 [0x60, 0x07]).Reachable ∧
    Confined 0 (booted {} 0 [0x60, 0x07])
      ((booted {} 0 [0x60, 0x07]).step (fun _ => 0) 0).machine := by
  have hm := booted_reachable {} 0 [0x60, 0x07] (by decide)
  exact ⟨hm, (steps_confined hm fun _ => 0).1 0⟩

end Machine

end Chip8
