import Chip8.Proofs.Machine.Cycle

/-!
Register arithmetic in numbers. Operands, result and flag share one set of registers, and any two
of them may be the same. The operands are read before anything is written and the flag is written
last, so result and flag obey the same law in all cases, only that a result in the flag register
is lost.
-/
namespace Chip8

/-! Results and flags as numbers. -/

theorem toNat_flagByte (raised : Bool) : (flagByte raised).toNat = if raised then 1 else 0 := by
  cases raised <;> rfl

theorem toNat_flagByte_decide (p : Prop) [Decidable p] :
    (flagByte (decide p)).toNat = if p then 1 else 0 := by
  rw [toNat_flagByte]
  simp only [decide_eq_true_eq]

theorem toNat_lowFlag (s : UInt8) : (flagByte (s &&& 1 != 0)).toNat = s.toNat % 2 := by
  have hbit : (s &&& 1).toNat = s.toNat % 2 := by
    rw [UInt8.toNat_and]
    exact Nat.and_one_is_mod s.toNat
  rw [toNat_flagByte]
  simp only [bne_iff_ne, Ne, ← UInt8.toNat_inj, hbit, UInt8.toNat_zero]
  split <;> omega

theorem toNat_highFlag (s : UInt8) : (flagByte (s >>> 7 != 0)).toNat = s.toNat / 128 := by
  have hs := s.toNat_lt
  have hbit : (s >>> 7).toNat = s.toNat / 128 := by
    rw [UInt8.toNat_shiftRight]
    exact Nat.shiftRight_eq_div_pow s.toNat 7
  rw [toNat_flagByte]
  simp only [bne_iff_ne, Ne, ← UInt8.toNat_inj, hbit, UInt8.toNat_zero]
  split <;> omega

theorem toNat_add_carry (a b : UInt8) :
    (a + b).toNat + 256 * (if 256 ≤ a.toNat + b.toNat then 1 else 0) = a.toNat + b.toNat := by
  have ha := a.toNat_lt
  have hb := b.toNat_lt
  rw [UInt8.toNat_add]
  split <;> omega

theorem Difference.value_borrow (a b : UInt8) :
    ((Difference.of a.toNat b.toNat).value.toNat : Int) =
      a.toNat - b.toNat + 256 * (1 - (if b.toNat ≤ a.toNat then 1 else 0 : Nat)) := by
  have ha := a.toNat_lt
  have hb := b.toNat_lt
  rw [Difference.value_of]
  split <;> omega

theorem Difference.noBorrow_eq (a b : UInt8) :
    (Difference.of a.toNat b.toNat).noBorrow = decide (b.toNat ≤ a.toNat) := by
  simp only [Difference.of, Int.ofNat_le]

theorem toNat_halved (s : UInt8) : 2 * (s >>> 1).toNat + s.toNat % 2 = s.toNat := by
  rw [UInt8.toNat_shiftRight]
  exact Nat.div_add_mod s.toNat 2

theorem toNat_doubled (s : UInt8) :
    (s <<< 1).toNat + 256 * (s.toNat / 128) = 2 * s.toNat := by
  have hs := s.toNat_lt
  have hvalue : (s <<< 1).toNat = s.toNat * 2 % 256 := by
    rw [UInt8.toNat_shiftLeft]
    exact congrArg (· % 256) (Nat.shiftLeft_eq s.toNat 1)
  rw [hvalue]
  omega

namespace Machine

/-- An instruction has put its result into register `x` and then the flag into the flag register.
Result and flag obey the law, and nothing else has changed. -/
structure Computes (m : Machine) (out : Outcome) (x : Nibble) (flag : Nat)
    (law : Nat → Nat → Prop) : Prop where
  fault : out.fault = none
  tells : (out.machine.register flagRegister).toNat = flag
  result : x ≠ flagRegister → law (out.machine.register x).toNat flag
  kept : ∀ v, v ≠ x → v ≠ flagRegister → out.machine.register v = m.register v
  rest : out.machine = { m with registers := out.machine.registers }

/-- An instruction has put its result into register `x` and has changed nothing else, the flag
register among it unless that is `x`. -/
structure Replaces (m : Machine) (out : Outcome) (x : Nibble) (result : Nat) : Prop where
  fault : out.fault = none
  result : (out.machine.register x).toNat = result
  kept : ∀ v, v ≠ x → out.machine.register v = m.register v
  rest : out.machine = { m with registers := out.machine.registers }

variable {dice : Nat → Int} {m : Machine} {i : Instruction} {x : Nibble} {result : UInt8}

theorem computes_of_execute {raised : Bool} {flag : Nat} {law : Nat → Nat → Prop}
    (hi : i.execute dice m = { machine := (m.setRegister x result).setFlag raised })
    (hflag : (flagByte raised).toNat = flag) (hlaw : law result.toNat flag) :
    m.Computes (m.perform dice i.toOpcode) x flag law := by
  obtain ⟨hmachine, hfault⟩ := m.perform_toOpcode dice i
  rw [hi] at hmachine hfault
  constructor
  · exact hfault
  · rw [hmachine, setFlag, register_setRegister_self, hflag]
  · intro hx
    rw [hmachine, setFlag, register_setRegister_of_ne _ _ hx.symm, register_setRegister_self]
    exact hlaw
  · intro v hvx hvf
    rw [hmachine, setFlag, register_setRegister_of_ne _ _ hvf.symm,
      register_setRegister_of_ne _ _ hvx.symm]
  · rw [hmachine]
    rfl

theorem replaces_of_execute {value : Nat}
    (hi : i.execute dice m = { machine := m.setRegister x result })
    (hvalue : result.toNat = value) : m.Replaces (m.perform dice i.toOpcode) x value := by
  obtain ⟨hmachine, hfault⟩ := m.perform_toOpcode dice i
  rw [hi] at hmachine hfault
  constructor
  · exact hfault
  · rw [hmachine, register_setRegister_self, hvalue]
  · intro v hv
    rw [hmachine, register_setRegister_of_ne _ _ hv.symm]
  · rw [hmachine]
    rfl

theorem toNat_shiftSource (m : Machine) (x y : Nibble) : (m.shiftSource x y).toNat =
    if m.settings.shiftsFromY then (m.register y).toNat else (m.register x).toNat := by
  rw [shiftSource]
  split <;> rfl

/-- The result and the flag of every arithmetic instruction, as numbers, for all choices of its
registers. Those that copy, combine bits or add a constant have no flag. -/
theorem arithmetic_exact (dice : Nat → Int) (m : Machine) (x y : Nibble) (value : UInt8) :
    let a := (m.register x).toNat
    let b := (m.register y).toNat
    let s := if m.settings.shiftsFromY then b else a
    let out (n : Nibble) := m.perform dice (.ofNibbles 0x8 x y n)
    m.Computes (out 0x4) x (if 256 ≤ a + b then 1 else 0) (fun r f => r + 256 * f = a + b) ∧
    m.Computes (out 0x5) x (if b ≤ a then 1 else 0)
      (fun r f => (r : Int) = a - b + 256 * (1 - f)) ∧
    m.Computes (out 0x7) x (if a ≤ b then 1 else 0)
      (fun r f => (r : Int) = b - a + 256 * (1 - f)) ∧
    m.Computes (out 0x6) x (s % 2) (fun r f => 2 * r + f = s) ∧
    m.Computes (out 0xe) x (s / 128) (fun r f => r + 256 * f = 2 * s) ∧
    m.Replaces (out 0x0) x b ∧ m.Replaces (out 0x1) x (a ||| b) ∧
    m.Replaces (out 0x2) x (a &&& b) ∧ m.Replaces (out 0x3) x (a ^^^ b) ∧
    m.Replaces (m.perform dice (.ofByte 0x7 x value)) x ((a + value.toNat) % 256) := by
  intro a b s out
  have hs : (m.shiftSource x y).toNat = s := m.toNat_shiftSource x y
  refine ⟨?add, ?sub, ?subFrom, ?shiftRight, ?shiftLeft, ?copy, ?or, ?and, ?xor, ?increase⟩
  case add =>
    exact computes_of_execute (i := .add x y) rfl (toNat_flagByte_decide _) (toNat_add_carry _ _)
  case sub =>
    refine computes_of_execute (i := .sub x y) rfl ?_ (Difference.value_borrow _ _)
    rw [Difference.noBorrow_eq]
    exact toNat_flagByte_decide _
  case subFrom =>
    refine computes_of_execute (i := .subFrom x y) rfl ?_ (Difference.value_borrow _ _)
    rw [Difference.noBorrow_eq]
    exact toNat_flagByte_decide _
  case shiftRight =>
    rw [← hs]
    exact computes_of_execute (i := .shiftRight x y) rfl (toNat_lowFlag _) (toNat_halved _)
  case shiftLeft =>
    rw [← hs]
    exact computes_of_execute (i := .shiftLeft x y) rfl (toNat_highFlag _) (toNat_doubled _)
  case copy => exact replaces_of_execute (i := .copy x y) rfl rfl
  case or => exact replaces_of_execute (i := .or x y) rfl (UInt8.toNat_or _ _)
  case and => exact replaces_of_execute (i := .and x y) rfl (UInt8.toNat_and _ _)
  case xor => exact replaces_of_execute (i := .xor x y) rfl (UInt8.toNat_xor _ _)
  case increase => exact replaces_of_execute (i := .increase x value) rfl (UInt8.toNat_add _ _)

end Machine

end Chip8
