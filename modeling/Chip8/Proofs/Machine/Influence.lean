import Chip8.Proofs.Machine.Lockstep
import Chip8.Proofs.Machine.Redraw
import Mathlib.Data.List.Infix

/-!
How settings and random numbers reach a run. The rate never does. The other settings matter only to
a shift between registers that differ and to an offset jump whose two registers differ. Of a random
number only the lowest eight bits matter, and each is used by one instruction.
-/
namespace Chip8

namespace Machine

/-- The machine with other settings. -/
def configured (m : Machine) (settings : Settings) : Machine := { m with settings }

/-- A step of the history executes the instruction, on the machine `n`. -/
def Executes (dice : Nat → Int) (m : Machine) (history : List Operation) (n : Machine)
    (i : Instruction) : Prop :=
  ∃ before now, before ++ [.step now] <+: history ∧ m.after dice before = n ∧ n.Next i

/-- The number of random numbers that a history draws. -/
def rolls (dice : Nat → Int) (m : Machine) : List Operation → Nat
  | [] => 0
  | operation :: rest => m.rollsOf operation + (m.apply dice operation).machine.rolls dice rest

/-- Where the settings differ, the history executes nothing that asks for the difference: a shift
finds its two registers equal, and an offset jump finds register 0 equal to the one that the first
digit of its address names. The history draws no more random numbers than agree in their lowest
eight bits. -/
structure Indifferent (dice dice' : Nat → Int) (m : Machine) (settings : Settings)
    (history : List Operation) : Prop where
  shifts : settings.shiftsFromY = m.settings.shiftsFromY ∨ ∀ n x y,
    m.Executes dice history n (.shiftRight x y) ∨ m.Executes dice history n (.shiftLeft x y) →
      n.register x = n.register y
  jumps : settings.jumpsByX = m.settings.jumpsByX ∨ ∀ n base,
    m.Executes dice history n (.jumpOffset base) →
      n.register (Nibble.upper (base.val / 16)) = n.register 0
  numbers : ∃ k, m.rolls dice history ≤ k ∧
    ∀ j < k, dice' (m.draws + j) % 256 = dice (m.draws + j) % 256

/-- After every request of the history the machine with other settings has run into the same fault
and is in the same state. -/
def Agrees (dice dice' : Nat → Int) (m : Machine) (settings : Settings)
    (history : List Operation) : Prop :=
  ∀ before operation, before ++ [operation] <+: history →
    (((m.configured settings).after dice' before).apply dice' operation).fault =
      ((m.after dice before).apply dice operation).fault ∧
    (m.configured settings).after dice' (before ++ [operation]) =
      (m.after dice (before ++ [operation])).configured settings

variable {dice dice' : Nat → Int} {m n : Machine} {settings : Settings} {i : Instruction}
  {operation : Operation} {history before : List Operation}

theorem configured_alike (m : Machine) (settings : Settings) : m.Alike (m.configured settings) :=
  ⟨_, _, _, rfl⟩

theorem rolls_append (m : Machine) (first second : List Operation) :
    m.rolls dice (first ++ second) =
      m.rolls dice first + (m.after dice first).rolls dice second := by
  induction first generalizing m with
  | nil => exact (Nat.zero_add _).symm
  | cons operation rest ih => exact (congrArg _ (ih _)).trans (Nat.add_assoc ..).symm

theorem draws_after (dice : Nat → Int) (m : Machine) (history : List Operation) :
    (m.after dice history).draws = m.draws + m.rolls dice history := by
  induction history generalizing m with
  | nil => rfl
  | cons operation rest ih =>
    calc
      _ = (m.apply dice operation).machine.draws + _ := ih _
      _ = m.draws + m.rollsOf operation + _ := by rw [m.draws_apply]
      _ = _ := Nat.add_assoc ..

theorem Executes.of_prefix (h : m.Executes dice before n i) (hp : before <+: history) :
    m.Executes dice history n i := by
  obtain ⟨earlier, now, he, hn⟩ := h
  exact ⟨earlier, now, he.trans hp, hn⟩

theorem Indifferent.of_prefix (h : Indifferent dice dice' m settings history)
    (hp : before <+: history) : Indifferent dice dice' m settings before where
  shifts := h.shifts.imp_right fun hs n x y he =>
    hs n x y (he.imp (fun he => he.of_prefix hp) fun he => he.of_prefix hp)
  jumps := h.jumps.imp_right fun hj n base he => hj n base (he.of_prefix hp)
  numbers := by
    obtain ⟨k, hk, hd⟩ := h.numbers
    obtain ⟨rest, rfl⟩ := hp
    rw [rolls_append] at hk
    exact ⟨k, by omega, hd⟩

/-- The rate is read by no request. -/
theorem indifferent_of_rate (hs : settings.shiftsFromY = m.settings.shiftsFromY)
    (hj : settings.jumpsByX = m.settings.jumpsByX) (history : List Operation) :
    Indifferent dice dice m settings history :=
  ⟨.inl hs, .inl hj, _, Nat.le_refl _, fun _ _ => rfl⟩

theorem shiftSource_configured {x y : Nibble}
    (h : settings.shiftsFromY = m.settings.shiftsFromY ∨ m.register x = m.register y) :
    m.shiftSource x y = (m.configured settings).shiftSource x y := by
  change m.register _ = m.register (if settings.shiftsFromY then y else x)
  rcases h with h | h
  · rw [h]
  · split <;> split <;> first | rfl | exact h | exact h.symm

theorem register_jumpRegister_configured {base : Fin 4096}
    (h : settings.jumpsByX = m.settings.jumpsByX ∨
      m.register (Nibble.upper (base.val / 16)) = m.register 0) :
    m.register (m.jumpRegister base) =
      (m.configured settings).register ((m.configured settings).jumpRegister base) := by
  change m.register _ = m.register (if settings.jumpsByX then _ else 0)
  rcases h with h | h
  · rw [h]
    rfl
  · unfold jumpRegister
    split <;> split <;> first | rfl | exact h | exact h.symm

theorem rollsOf_of_next_random {x : Nibble} {mask : UInt8} (now : Float)
    (h : m.Next (.random x mask)) : m.rollsOf (.step now) = 1 := by
  have hclass : (Instruction.random x mask).word / 0x1000 = 0xc := by
    have hx := x.isLt
    have hmask := mask.toNat_lt
    simp only [Instruction.word]
    omega
  rw [rollsOf_of_next now h, if_pos hclass]

/-- What an indifferent history comes to next is the same with both settings and both sequences of
random numbers. -/
theorem Indifferent.coincides
    (h : Indifferent dice dice' m settings (history ++ [operation])) :
    operation.Coincides dice dice' (m.after dice history)
      ((m.after dice history).configured settings) := by
  cases operation with
  | step now =>
    intro i hi
    have hexec : m.Executes dice (history ++ [.step now]) (m.after dice history) i :=
      ⟨history, now, List.prefix_refl _, rfl, hi⟩
    have hsettings := settings_after dice m history
    cases i with
    | shiftRight x y =>
      refine shiftSource_configured ?_
      rw [hsettings]
      exact h.shifts.imp_right fun hs => hs _ x y (.inl hexec)
    | shiftLeft x y =>
      refine shiftSource_configured ?_
      rw [hsettings]
      exact h.shifts.imp_right fun hs => hs _ x y (.inr hexec)
    | jumpOffset base =>
      refine register_jumpRegister_configured ?_
      rw [hsettings]
      exact h.jumps.imp_right fun hj => hj _ base hexec
    | random x mask =>
      obtain ⟨k, hk, hd⟩ := h.numbers
      have hroll : (m.after dice history).rolls dice [.step now] = 1 :=
        rollsOf_of_next_random now hi
      rw [rolls_append, hroll] at hk
      have hbyte := hd (m.rolls dice history) (by omega)
      rw [← draws_after] at hbyte
      exact congrArg (fun byte : Int => mask &&& UInt8.ofNat byte.toNat) hbyte.symm
    | _ => trivial
  | _ => trivial

/-- The redraw notice after a request depends on nothing but what the machines have in common. -/
theorem redraw_apply_configured (dice dice' : Nat → Int) (m : Machine) (settings : Settings)
    (operation : Operation) : ((m.configured settings).apply dice' operation).machine.redraw =
      (m.apply dice operation).machine.redraw := by
  by_cases hs : ∃ now, operation = .step now
  · obtain ⟨now, rfl⟩ := hs
    have hnext := (configured_alike m settings).next_iff
    by_cases hn : ∃ i, m.Next i
    · obtain ⟨i, hi⟩ := hn
      calc
        _ = i.redrawAfter (m.configured settings) := step_redraw_of_next ((hnext i).2 hi)
        _ = i.redrawAfter m := by cases i <;> rfl
        _ = _ := (step_redraw_of_next hi).symm
    · push Not at hn
      have hn' : ∀ i, ¬(m.configured settings).Next i := fun i hi => hn i ((hnext i).1 hi)
      calc
        _ = m.redraw := (step_screen_of_not_next dice' now hn').2
        _ = _ := (step_screen_of_not_next dice now hn).2.symm
  by_cases hr : ∃ now, operation = .reset now
  · obtain ⟨now, rfl⟩ := hr
    rw [apply_reset, apply_reset]
  by_cases ht : operation = .takeRedraw
  · rw [ht]
    rfl
  push Not at hs hr
  obtain ⟨_, _, _, _, _, _, _, he, -, hkeep⟩ := m.apply_frame dice hs hr
  obtain ⟨_, _, _, _, _, _, _, he', -, hkeep'⟩ := (m.configured settings).apply_frame dice' hs hr
  rw [he, he']
  exact (hkeep' ht).trans (hkeep ht).symm

theorem apply_configured (hc : operation.Coincides dice dice' m (m.configured settings)) :
    ((m.configured settings).apply dice' operation).fault = (m.apply dice operation).fault ∧
      ((m.configured settings).apply dice' operation).machine =
        (m.apply dice operation).machine.configured settings := by
  have halike := configured_alike m settings
  have hmachine := halike.apply_machine hc
  rw [redraw_apply_configured dice dice' m settings operation] at hmachine
  have hdraws : (m.configured settings).draws + m.rollsOf operation =
      (m.apply dice operation).machine.draws := (m.draws_apply dice operation).symm
  rw [hdraws] at hmachine
  exact ⟨(apply_alike halike hc).fault, hmachine⟩

theorem after_configured (h : Indifferent dice dice' m settings history) :
    (m.configured settings).after dice' history = (m.after dice history).configured settings := by
  induction history using List.reverseRecOn with
  | nil => rfl
  | append_singleton history operation ih =>
    rw [after_concat, after_concat, ih (h.of_prefix (List.prefix_append _ _))]
    exact (apply_configured h.coincides).2

theorem Indifferent.agrees (h : Indifferent dice dice' m settings history) :
    Agrees dice dice' m settings history := by
  intro before operation hp
  have hnow := h.of_prefix hp
  refine ⟨?_, after_configured hnow⟩
  rw [after_configured (hnow.of_prefix (List.prefix_append _ _))]
  exact (apply_configured hnow.coincides).1

theorem register_of_next_random {x : Nibble} {mask : UInt8} (now : Float)
    (h : m.Next (.random x mask)) :
    (m.step dice now).machine.register x = m.maskedDraw dice mask := by
  obtain ⟨_, _, _, he⟩ := step_machine_of_next dice now h
  rw [he]
  exact register_setRegister_self _ _ _

/-- A change of the rate goes unnoticed by every history. A change of the other settings and of the
random numbers goes unnoticed by histories that are indifferent to it. An instruction that uses a
random number uses the next one, and of this the lowest eight bits as far as its mask lets them
through. -/
theorem influence_confined (dice dice' : Nat → Int) (m : Machine) (settings : Settings)
    (history : List Operation) :
    (settings.shiftsFromY = m.settings.shiftsFromY → settings.jumpsByX = m.settings.jumpsByX →
      Agrees dice dice m settings history) ∧
    (Indifferent dice dice' m settings history → Agrees dice dice' m settings history) ∧
    (∀ now x mask, (m.after dice history).Next (.random x mask) →
      (m.after dice (history ++ [.step now])).register x = mask &&&
        UInt8.ofNat (dice (m.draws + m.rolls dice history) % 256).toNat ∧
      (m.after dice (history ++ [.step now])).register x &&& ~~~mask = 0) := by
  refine ⟨fun hs hj => (indifferent_of_rate hs hj history).agrees, Indifferent.agrees, ?_⟩
  intro now x mask hnext
  have hregister : (m.after dice (history ++ [.step now])).register x = mask &&&
      UInt8.ofNat (dice (m.draws + m.rolls dice history) % 256).toNat := by
    rw [after_concat, ← draws_after]
    exact register_of_next_random now hnext
  refine ⟨hregister, ?_⟩
  rw [hregister, UInt8.and_comm mask, UInt8.and_assoc, UInt8.and_not_self, UInt8.and_zero]

end Machine

end Chip8
