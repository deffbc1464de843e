import Chip8.Proofs.Machine.Cycle
import Chip8.Proofs.Machine.Effect
import Mathlib.Data.Fin.VecNotation

/-!
Transfers between registers and memory. Bytes go one by one from the index on until memory ends,
so a transfer that is too long for what is left of memory is done as far as it goes, and then it
names the first address outside. Nothing but the cells or the registers of that part changes.
-/
namespace Chip8.Machine

/-- How many of `count` bytes from the index on lie in memory. -/
def room (m : Machine) (count : Nat) : Nat := (min (count : Int) (4096 - m.index)).toNat

/-- What stops the transfer of `count` bytes, if not all of them lie in memory. -/
def stop (m : Machine) (count : Nat) : Option Fault :=
  if m.room count = count then none else some (.outOfRange (max m.index 4096))

/-- The bytes are in memory from the index on, as many of them as there is room for. -/
structure Stores (m : Machine) (out : Outcome) {count : Nat} (bytes : Fin count → UInt8) :
    Prop where
  fault : out.fault = m.stop count
  stored : ∀ k : Fin count, k.val < m.room count →
    out.machine.memory[(m.index + k.val).toNat]? = some (bytes k)
  kept : ∀ p : Fin 4096, ¬(m.index ≤ p.val ∧ p.val < m.index + m.room count) →
    out.machine.memory.get p = m.memory.get p
  rest : out.machine = { m with memory := out.machine.memory }

/-- The first `count` registers hold what stands in memory from the index on, as many of them as
there is memory left. -/
structure Loads (m : Machine) (out : Outcome) (count : Nat) : Prop where
  fault : out.fault = m.stop count
  loaded : ∀ v : Nibble, v.val < m.room count →
    m.memory[(m.index + v.val).toNat]? = some (out.machine.register v)
  kept : ∀ v : Nibble, m.room count ≤ v.val → out.machine.register v = m.register v
  rest : out.machine = { m with registers := out.machine.registers }

variable {dice : Nat → Int} {m : Machine} {i : Instruction} {x : Nibble} {count k : Nat}

theorem lt_room_iff : k < m.room count ↔ k < count ∧ m.index + k < 4096 := by
  unfold room
  omega

theorem blockFault_eq_stop (m : Machine) (count : Nat) :
    Memory.blockFault m.index count = m.stop count := by
  have hroom : count = 0 ∨ m.index + count ≤ 4096 ↔ m.room count = count := by
    unfold room
    omega
  simp only [Memory.blockFault, stop, hroom]

theorem firstRegisters_eq_ofFn (m : Machine) (x : Nibble) :
    m.firstRegisters x = List.ofFn fun k : Fin (x.val + 1) => m.register (k.castLE x.isLt) := by
  apply List.ext_getElem
  · rw [m.length_firstRegisters, List.length_ofFn]
  · intro k hk hk'
    rw [List.getElem_ofFn]
    simp only [firstRegisters, List.getElem_take, Vector.getElem_toList]
    rfl

/-- A byte is spelled by its hundreds, tens and units. -/
theorem decimalDigits_spec (value : UInt8) : ∃ h t u : UInt8,
    (h.toNat ≤ 9 ∧ t.toNat ≤ 9 ∧ u.toNat ≤ 9) ∧
    100 * h.toNat + 10 * t.toNat + u.toNat = value.toNat ∧
    decimalDigits value = List.ofFn ![h, t, u] := by
  have hv := value.toNat_lt
  refine ⟨value / 100 % 10, value / 10 % 10, value % 10, ?_, ?_, by simp [decimalDigits]⟩ <;>
    simp only [UInt8.toNat_mod, UInt8.toNat_div, UInt8.reduceToNat] <;> omega

theorem stores_of_execute (hm : 0 ≤ m.index) {bytes : Fin count → UInt8}
    (hi : i.execute dice m = m.storeAtIndex (List.ofFn bytes)) :
    m.Stores (m.perform dice i.toOpcode) bytes := by
  obtain ⟨hmachine, hfault⟩ := m.perform_toOpcode dice i
  rw [hi] at hmachine hfault
  have hlen : (List.ofFn bytes).length = count := List.length_ofFn
  have hmemory : (m.perform dice i.toOpcode).machine.memory =
      (m.memory.writeBlock m.index (List.ofFn bytes)).1 := by
    rw [hmachine]
    rfl
  constructor
  · have hstop := m.memory.writeBlock_fault hm (List.ofFn bytes)
    rw [hlen, blockFault_eq_stop] at hstop
    exact hfault.trans hstop
  · intro k hk
    have hlt := (lt_room_iff.1 hk).2
    rw [hmemory, m.memory.writeBlock_eq_overlay hm,
      show (m.index + k.val).toNat = m.index.toNat + k.val by omega,
      Vector.getElem?_eq_getElem (by omega),
      Memory.getElem_overlay_add _ _ _ _ (by rw [hlen]; exact k.isLt), List.getElem_ofFn]
  · intro p hp
    rw [hmemory]
    refine m.memory.get_writeBlock_of_outside m.index _ p fun hin => hp ⟨hin.1, ?_⟩
    rw [hlen] at hin
    unfold room
    omega
  · rw [hmachine]
    rfl

theorem loads_of_execute (hm : 0 ≤ m.index) (hi : i.execute dice m = m.loadFromIndex x) :
    m.Loads (m.perform dice i.toOpcode) (x.val + 1) := by
  obtain ⟨hmachine, hfault⟩ := m.perform_toOpcode dice i
  rw [hi] at hmachine hfault
  have hregister (v : Nibble) : (m.perform dice i.toOpcode).machine.register v =
      (if v.val < x.val + 1 then m.memory[m.index.toNat + v.val]? else none).getD
        (m.register v) := by
    rw [hmachine, ← m.memory.getElem?_readBlock hm, ← List.getD_eq_getElem?_getD]
    exact m.register_loadRegisters _ v
  constructor
  · rw [← blockFault_eq_stop, ← m.memory.readBlock_fault hm]
    exact hfault
  · intro v hv
    obtain ⟨hcount, hlt⟩ := lt_room_iff.1 hv
    rw [hregister, if_pos hcount, show (m.index + v.val).toNat = m.index.toNat + v.val by omega,
      Vector.getElem?_eq_getElem (by omega), Option.getD_some]
  · intro v hv
    have hout : ¬v.val < m.room (x.val + 1) := Nat.not_lt.2 hv
    rw [hregister]
    split
    next hcount =>
      rw [Vector.getElem?_eq_none, Option.getD_none]
      rw [lt_room_iff] at hout
      omega
    next => rfl
  · rw [hmachine]
    rfl

/-- Decimal digits are stored, and registers stored and loaded, exactly as far as memory goes. -/
theorem transfer_exact (hm : 0 ≤ m.index) (dice : Nat → Int) (x : Nibble) :
    (∃ h t u : UInt8, (h.toNat ≤ 9 ∧ t.toNat ≤ 9 ∧ u.toNat ≤ 9) ∧
      100 * h.toNat + 10 * t.toNat + u.toNat = (m.register x).toNat ∧
      m.Stores (m.perform dice (.ofByte 0xf x 0x33)) ![h, t, u]) ∧
    m.Stores (m.perform dice (.ofByte 0xf x 0x55))
      (fun k : Fin (x.val + 1) => m.register (k.castLE x.isLt)) ∧
    m.Loads (m.perform dice (.ofByte 0xf x 0x65)) (x.val + 1) := by
  refine ⟨?decimal, ?store, ?load⟩
  case decimal =>
    obtain ⟨h, t, u, hsmall, hsum, hdigits⟩ := decimalDigits_spec (m.register x)
    exact ⟨h, t, u, hsmall, hsum, stores_of_execute (i := .storeDecimal x) hm
      (congrArg m.storeAtIndex hdigits)⟩
  case store =>
    exact stores_of_execute (i := .store x) hm
      (congrArg m.storeAtIndex (m.firstRegisters_eq_ofFn x))
  case load => exact loads_of_execute (i := .load x) hm rfl

/-- Three registers to be stored where only two bytes of memory are left. -/
theorem transfer_exact_cut :
    let m : Machine := { (fresh {} 0).setRegister 1 7 with index := 4094 }
    let out := m.perform (fun _ => 0) (.ofByte 0xf 2 0x55)
    0 ≤ m.index ∧ out.fault = some (.outOfRange 4096) ∧ out.machine.memory[4095]? = some 7 ∧
      out.machine.memory.get 80 = m.memory.get 80 := by
  intro m out
  have hm : 0 ≤ m.index := by decide
  obtain ⟨-, hstores, -⟩ := transfer_exact hm (fun _ => 0) 2
  exact ⟨hm, hstores.fault, hstores.stored 1 (by decide), hstores.kept 80 (by decide)⟩

end Chip8.Machine
