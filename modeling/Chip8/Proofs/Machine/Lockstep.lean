import Chip8.Proofs.Machine.Bounds

/-!
Two machines in lockstep. They may differ in their settings, in the redraw notice and in the
position among the random numbers, and in nothing else. A request does the same to both, unless
it executes an instruction that asks for one of the settings or for a random number and gets
different answers.
-/
namespace Chip8

/-- The machines are equal but for settings, redraw notice and position among the random
numbers. -/
def Machine.Alike (m n : Machine) : Prop :=
  ∃ settings redraw draws, n = { m with settings, redraw, draws }

/-- Both requests ran into the same fault, or into none, and left machines that are alike. -/
structure Outcome.Alike (a b : Outcome) : Prop where
  fault : b.fault = a.fault
  machine : a.machine.Alike b.machine

namespace Instruction

/-- What the instruction makes of settings and random numbers is the same on both machines. -/
def Coincides (dice dice' : Nat → Int) (m n : Machine) : Instruction → Prop
  | .shiftRight x y | .shiftLeft x y => m.shiftSource x y = n.shiftSource x y
  | .jumpOffset base => m.register (m.jumpRegister base) = n.register (n.jumpRegister base)
  | .random _ mask => m.maskedDraw dice mask = n.maskedDraw dice' mask
  | _ => True

variable {dice dice' : Nat → Int} {m n : Machine} {i : Instruction}

theorem execute_alike (h : m.Alike n) (hi : i.Coincides dice dice' m n) :
    (i.execute dice m).Alike (i.execute dice' n) := by
  obtain ⟨settings, redraw, draws, rfl⟩ := h
  cases i with
  | ret =>
    simp only [execute]
    split <;> exact ⟨rfl, _, _, _, rfl⟩
  | call target =>
    simp only [execute]
    split <;> exact ⟨rfl, _, _, _, rfl⟩
  | skipIfEqual | skipIfUnequal | skipIfSame | skipIfDifferent | skipIfHeld | skipIfNotHeld =>
    simp only [execute, skipIf_eq]
    exact ⟨rfl, _, _, _, rfl⟩
  | shiftRight x y | shiftLeft x y =>
    have hsource : m.shiftSource x y = _ := hi
    simp only [execute, ← hsource]
    exact ⟨rfl, _, _, _, rfl⟩
  | jumpOffset base =>
    have htarget : m.register (m.jumpRegister base) = _ := hi
    simp only [execute, ← htarget]
    exact ⟨rfl, _, _, _, rfl⟩
  | random x mask =>
    have hdraw : m.maskedDraw dice mask = _ := hi
    simp only [execute, ← hdraw]
    exact ⟨rfl, _, _, _, rfl⟩
  | draw x y height =>
    have hrows : ({ m with settings, redraw, draws } : Machine).visibleRows y height =
        m.visibleRows y height := rfl
    simp only [execute, Machine.drawSprite_eq_picture, hrows]
    cases (m.memory.readBlock m.index (m.visibleRows y height)).2 <;> exact ⟨rfl, _, _, _, rfl⟩
  | awaitKey x =>
    simp only [execute]
    split <;> exact ⟨rfl, _, _, _, rfl⟩
  | _ => exact ⟨rfl, _, _, _, rfl⟩

end Instruction

/-- The request executes no instruction, or one that coincides on both machines. -/
def Operation.Coincides (dice dice' : Nat → Int) (m n : Machine) : Operation → Prop
  | .step _ => ∀ i, m.Next i → i.Coincides dice dice' m n
  | _ => True

namespace Machine

/-- The number of random numbers that a request draws: one, if it executes a word of the class
`C`. -/
def rollsOf (m : Machine) : Operation → Nat
  | .step _ => if ∃ w ∈ m.word?, w / 0x1000 = 0xc then 1 else 0
  | _ => 0

variable {dice dice' : Nat → Int} {m n : Machine} {now : Float} {i : Instruction}
  {operation : Operation}

theorem Alike.word? (h : m.Alike n) : n.word? = m.word? := by
  obtain ⟨settings, redraw, draws, rfl⟩ := h
  rfl

theorem Alike.opcode (h : m.Alike n) : n.opcode = m.opcode := by
  obtain ⟨settings, redraw, draws, rfl⟩ := h
  rfl

theorem Alike.next_iff (h : m.Alike n) (i : Instruction) : n.Next i ↔ m.Next i := by
  rw [Next, Next, h.word?]

theorem Alike.rollsOf (h : m.Alike n) (operation : Operation) :
    n.rollsOf operation = m.rollsOf operation := by
  cases operation <;> simp only [Machine.rollsOf, h.word?]

theorem Alike.advance (h : m.Alike n) : m.advance.Alike n.advance := by
  obtain ⟨settings, redraw, draws, rfl⟩ := h
  exact ⟨_, _, _, rfl⟩

theorem Alike.updateTimers (h : m.Alike n) (now : Float) :
    (m.updateTimers now).Alike (n.updateTimers now) ∧
      (n.updateTimers now).lines = (m.updateTimers now).lines := by
  obtain ⟨settings, redraw, draws, rfl⟩ := h
  have hticks : ({ m with settings, redraw, draws } : Machine).ticks now = m.ticks now := rfl
  simp only [Machine.updateTimers, hticks]
  split <;> exact ⟨⟨rfl, _, _, _, rfl⟩, rfl⟩

theorem Alike.poised (h : m.Alike n) (now : Float) : (m.poised now).Alike (n.poised now) :=
  (h.updateTimers now).1.machine.advance

theorem coincides_poised (now : Float) :
    i.Coincides dice dice' (m.poised now) (n.poised now) ↔ i.Coincides dice dice' m n := by
  obtain ⟨_, _, _, hm⟩ := m.poised_eq now
  obtain ⟨_, _, _, hn⟩ := n.poised_eq now
  rw [hm, hn]
  cases i <;> exact Iff.rfl

theorem step_alike (h : m.Alike n) (now : Float)
    (hi : ∀ i, m.Next i → i.Coincides dice dice' m n) :
    (m.step dice now).Alike (n.step dice' now) := by
  rcases m.word?_cases with hw | ⟨w, hw, hu⟩ | ⟨i, hnext⟩
  · obtain ⟨address, ho⟩ := exists_outOfRange_of_word?_eq_none hw
    obtain ⟨hm, hmf⟩ := step_of_opcode_eq_error dice now ho
    obtain ⟨hn, hnf⟩ := step_of_opcode_eq_error dice' now (h.opcode.trans ho)
    constructor
    · rw [hmf, hnf]
    · rw [hm, hn]
      exact (h.updateTimers now).1.machine
  · obtain ⟨hm, hmf⟩ := step_of_unknown dice now hw hu
    obtain ⟨hn, hnf⟩ := step_of_unknown dice' now (h.word?.trans hw) hu
    constructor
    · rw [hmf, hnf]
    · rw [hm, hn]
      exact h.poised now
  · obtain ⟨hm, hmf⟩ := step_of_next dice now hnext
    obtain ⟨hn, hnf⟩ := step_of_next dice' now ((h.next_iff i).2 hnext)
    have hexec := Instruction.execute_alike (h.poised now)
      ((coincides_poised now).2 (hi i hnext))
    constructor
    · rw [hmf, hnf, hexec.fault]
    · rw [hm, hn]
      exact hexec.machine

/-- A request that is no step has nothing to do with settings and random numbers. -/
theorem apply_alike_of_not_step (dice dice' : Nat → Int) (h : m.Alike n)
    (hs : ∀ now, operation ≠ .step now) :
    (m.apply dice operation).Alike (n.apply dice' operation) ∧
      (n.apply dice' operation).lines = (m.apply dice operation).lines := by
  cases operation with
  | updateTimers now => exact h.updateTimers now
  | step now => exact absurd rfl (hs now)
  | loadGame game =>
    obtain ⟨settings, redraw, draws, rfl⟩ := h
    simp only [apply, loadGame]
    split <;> exact ⟨⟨rfl, _, _, _, rfl⟩, rfl⟩
  | hold key =>
    obtain ⟨settings, redraw, draws, rfl⟩ := h
    cases key with
    | none => exact ⟨⟨rfl, _, _, _, rfl⟩, rfl⟩
    | some key =>
      simp only [apply, hold]
      split <;> exact ⟨⟨rfl, _, _, _, rfl⟩, rfl⟩
  | read address =>
    obtain ⟨settings, redraw, draws, rfl⟩ := h
    have hread : ({ m with settings, redraw, draws } : Machine).read address = m.read address := rfl
    simp only [apply, hread]
    split <;> exact ⟨⟨rfl, _, _, _, rfl⟩, rfl⟩
  | write address value =>
    obtain ⟨settings, redraw, draws, rfl⟩ := h
    simp only [apply, write]
    repeat' split
    all_goals exact ⟨⟨rfl, _, _, _, rfl⟩, rfl⟩
  | _ =>
    obtain ⟨settings, redraw, draws, rfl⟩ := h
    exact ⟨⟨rfl, _, _, _, rfl⟩, rfl⟩

theorem apply_alike (h : m.Alike n) (hc : operation.Coincides dice dice' m n) :
    (m.apply dice operation).Alike (n.apply dice' operation) := by
  by_cases hs : ∃ now, operation = .step now
  · obtain ⟨now, rfl⟩ := hs
    exact step_alike h now hc
  · push Not at hs
    exact (apply_alike_of_not_step dice dice' h hs).1

theorem settings_fresh (settings : Settings) (now : Float) :
    (fresh settings now).settings = settings := rfl

theorem apply_reset (dice : Nat → Int) (m : Machine) (now : Float) :
    (m.apply dice (.reset now)).machine =
      { fresh m.settings now with redraw := true, draws := m.draws } :=
  m.machine_reset now

/-- The settings stay fixed. -/
theorem settings_apply (dice : Nat → Int) (m : Machine) (operation : Operation) :
    (m.apply dice operation).machine.settings = m.settings := by
  by_cases hs : ∃ now, operation = .step now
  · obtain ⟨now, rfl⟩ := hs
    by_cases hn : ∃ i, m.Next i
    · obtain ⟨i, hi⟩ := hn
      obtain ⟨_, _, _, he⟩ := step_machine_of_next dice now hi
      exact (congrArg Machine.settings he).trans (i.execute_settings dice _)
    · push Not at hn
      obtain ⟨_, _, _, _, he⟩ := step_of_not_next dice now hn
      exact (congrArg Machine.settings he).trans rfl
  by_cases hr : ∃ now, operation = .reset now
  · obtain ⟨now, rfl⟩ := hr
    rw [apply_reset, settings_fresh]
  push Not at hs hr
  obtain ⟨_, _, _, _, _, _, _, he, -⟩ := m.apply_frame dice hs hr
  rw [he]

theorem settings_after (dice : Nat → Int) (m : Machine) (history : List Operation) :
    (m.after dice history).settings = m.settings := by
  induction history generalizing m with
  | nil => rfl
  | cons operation rest ih => exact (ih _).trans (m.settings_apply dice operation)

theorem drawsAfter_eq (m : Machine) (i : Instruction) :
    i.drawsAfter m = m.draws + if i.word / 0x1000 = 0xc then 1 else 0 := by
  rw [← i.word_toOpcode, Opcode.word_div_class]
  cases i <;> simp only [Instruction.toOpcode, Opcode.kind_ofNibbles, Opcode.kind_ofByte,
    Opcode.kind_ofAddress] <;> rfl

/-- Every word of the class `C` is an instruction. -/
theorem exists_instruction_of_div_eq {w : Nat} (hw : w / 0x1000 = 0xc) :
    ∃ i : Instruction, i.word = w := by
  have hx : w / 0x100 % 16 < 16 := Nat.mod_lt _ (by decide)
  have hmask : (UInt8.ofNat (w % 0x100)).toNat = w % 0x100 := by
    rw [UInt8.toNat_ofNat']
    omega
  refine ⟨.random ⟨_, hx⟩ (UInt8.ofNat (w % 0x100)), ?_⟩
  simp only [Instruction.word, hmask]
  omega

theorem rollsOf_of_next (now : Float) (hi : m.Next i) :
    m.rollsOf (.step now) = if i.word / 0x1000 = 0xc then 1 else 0 := by
  simp only [rollsOf, show m.word? = some i.word from hi, Option.mem_some_iff, exists_eq_left']

theorem rollsOf_of_not_next (now : Float) (hn : ∀ i, ¬m.Next i) : m.rollsOf (.step now) = 0 := by
  refine if_neg ?_
  rintro ⟨w, hw, hclass⟩
  obtain ⟨i, rfl⟩ := exists_instruction_of_div_eq hclass
  exact hn i hw

/-- A request moves the position among the random numbers on by as many as it draws. -/
theorem draws_apply (dice : Nat → Int) (m : Machine) (operation : Operation) :
    (m.apply dice operation).machine.draws = m.draws + m.rollsOf operation := by
  by_cases hs : ∃ now, operation = .step now
  · obtain ⟨now, rfl⟩ := hs
    by_cases hn : ∃ i, m.Next i
    · obtain ⟨i, hi⟩ := hn
      obtain ⟨_, _, _, he⟩ := step_machine_of_next dice now hi
      refine (congrArg Machine.draws he).trans ?_
      rw [i.execute_draws, drawsAfter_eq, rollsOf_of_next now hi]
    · push Not at hn
      obtain ⟨_, _, _, _, he⟩ := step_of_not_next dice now hn
      rw [rollsOf_of_not_next now hn]
      exact (congrArg Machine.draws he).trans rfl
  by_cases hr : ∃ now, operation = .reset now
  · obtain ⟨now, rfl⟩ := hr
    rfl
  push Not at hs hr
  obtain ⟨_, _, _, _, _, _, _, he, -⟩ := m.apply_frame dice hs hr
  rw [he]
  cases operation with
  | step now => exact absurd rfl (hs now)
  | _ => rfl

/-- After a request that coincides the machines are equal again, but for their settings, the redraw
notice and a lead of one of them among the random numbers. -/
theorem Alike.apply_machine (h : m.Alike n) (hc : operation.Coincides dice dice' m n) :
    (n.apply dice' operation).machine = { (m.apply dice operation).machine with
      settings := n.settings
      redraw := (n.apply dice' operation).machine.redraw
      draws := n.draws + m.rollsOf operation } := by
  have hsettings := n.settings_apply dice' operation
  have hdraws := n.draws_apply dice' operation
  obtain ⟨settings, redraw, draws, he⟩ := (apply_alike h hc).machine
  rw [h.rollsOf] at hdraws
  rw [← hsettings, ← hdraws, he]

end Machine

end Chip8
