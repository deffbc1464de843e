import Chip8.Proofs.Machine.Bounds
import Chip8.Proofs.Machine.Transfer

/-!
Registers that are saved in memory come back. Storing and loading go through the same addresses, so
a load undoes a store and a store undoes a load. Between the two a program may do what it likes, as
long as it stores nothing else and the index is back in its place: no other instruction writes to
memory.
-/
namespace Chip8

namespace Machine

/-- The request leaves memory alone: no game or byte is put there, and a step stores nothing. -/
def Spares (m : Machine) : Operation → Prop
  | .loadGame _ | .reset _ | .loadFont | .write .. => False
  | .step _ => ∀ x, ¬m.Next (.storeDecimal x) ∧ ¬m.Next (.store x)
  | .hold _ | .updateTimers _ | .takeRedraw | .read _ => True

/-- Every request of the history leaves memory alone. -/
def Sparing (dice : Nat → Int) (m : Machine) : List Operation → Prop
  | [] => True
  | operation :: rest => m.Spares operation ∧ (m.apply dice operation).machine.Sparing dice rest

variable {dice : Nat → Int} {m n : Machine} {now : Float} {x : Nibble} {operation : Operation}
  {history : List Operation}

theorem step_memory (dice : Nat → Int) (now : Float)
    (h : ∀ x, ¬m.Next (.storeDecimal x) ∧ ¬m.Next (.store x)) :
    (m.step dice now).machine.memory = m.memory := by
  by_cases hn : ∃ i, m.Next i
  · obtain ⟨i, hi⟩ := hn
    obtain ⟨delay, sound, lastTick, hstep⟩ := step_machine_of_next dice now hi
    rw [hstep, i.execute_memory]
    cases i with
    | storeDecimal x => exact absurd hi (h x).1
    | store x => exact absurd hi (h x).2
    | _ => rfl
  · push Not at hn
    obtain ⟨counter, delay, sound, lastTick, hstep⟩ := step_of_not_next dice now hn
    rw [hstep]

theorem apply_memory (dice : Nat → Int) (h : m.Spares operation) :
    (m.apply dice operation).machine.memory = m.memory := by
  cases operation with
  | loadGame | reset | loadFont | write => exact h.elim
  | step now => exact step_memory dice now h
  | updateTimers now =>
    obtain ⟨delay, sound, lastTick, ht⟩ := m.updateTimers_eq now
    simp only [apply, ht]
  | hold key =>
    simp only [apply, hold]
    repeat' split
    all_goals rfl
  | takeRedraw => rfl
  | read address =>
    simp only [apply]
    split <;> rfl

theorem after_memory (h : m.Sparing dice history) : (m.after dice history).memory = m.memory := by
  induction history generalizing m with
  | nil => rfl
  | cons operation rest ih => exact (ih h.2).trans (apply_memory dice h.1)

theorem getD_firstRegisters (m : Machine) (x v : Nibble) (old : UInt8) :
    (m.firstRegisters x).getD v.val old = if v ≤ x then m.register v else old := by
  rw [firstRegisters_eq_ofFn, List.getD_eq_getElem?_getD, List.getElem?_ofFn]
  by_cases hv : v ≤ x
  · rw [dif_pos (Nat.lt_succ_of_le hv), if_pos hv]
    rfl
  · rw [dif_neg (fun hlt => hv (Nat.le_of_lt_succ hlt)), if_neg hv]
    rfl

/-- A load finds what the store before it has left, whatever else has changed. -/
theorem loadFromIndex_of_stored (hs : (m.storeAtIndex (m.firstRegisters x)).fault = none)
    (hmemory : n.memory = (m.storeAtIndex (m.firstRegisters x)).machine.memory)
    (hindex : n.index = m.index) :
    n.loadFromIndex x = { machine := n.loadRegisters (m.firstRegisters x) } := by
  obtain ⟨first, others, hcons⟩ := List.exists_cons_of_length_eq_add_one (m.length_firstRegisters x)
  have hwritten : (m.memory.writeBlock m.index (m.firstRegisters x)).2 = none := hs
  have hin : Memory.InRange m.index := by
    rw [hcons] at hwritten
    exact Memory.inRange_of_writeBlock hwritten
  have hread := m.memory.readBlock_writeBlock hin.1 hwritten
  rw [m.length_firstRegisters] at hread
  have hback : n.memory.readBlock n.index (x.val + 1) = (m.firstRegisters x, none) := by
    rw [hmemory, hindex]
    exact hread
  simp only [loadFromIndex, hback]

theorem firstRegisters_loadRegisters (m : Machine) {values : List UInt8}
    (h : values.length = x.val + 1) : (m.loadRegisters values).firstRegisters x = values := by
  rw [firstRegisters_eq_ofFn]
  apply List.ext_getElem
  · rw [List.length_ofFn, h]
  · intro k hk hk'
    rw [List.getElem_ofFn, register_loadRegisters, List.getD_eq_getElem?_getD, Fin.val_castLE,
      List.getElem?_eq_getElem hk', Option.getD_some]

/-- A store puts back what the load before it has found. -/
theorem storeAtIndex_of_loaded (hl : (m.loadFromIndex x).fault = none)
    (hn : n = (m.loadFromIndex x).machine) :
    n.storeAtIndex (n.firstRegisters x) = { machine := n } := by
  obtain ⟨values, hvalues⟩ : ∃ values, (m.memory.readBlock m.index (x.val + 1)).1 = values :=
    ⟨_, rfl⟩
  have hread : (m.memory.readBlock m.index (x.val + 1)).2 = none := hl
  have hin : Memory.InRange m.index := Memory.inRange_of_readBlock hread
  have hlen := Memory.length_readBlock hread
  have hback := m.memory.writeBlock_readBlock hin.1 (x.val + 1)
  have hfault := m.memory.writeBlock_fault hin.1 values
  rw [hvalues] at hlen hback
  rw [hlen, ← m.memory.readBlock_fault hin.1, hread] at hfault
  have hn : n = m.loadRegisters values := hvalues ▸ hn
  have hwritten : n.memory.writeBlock n.index (n.firstRegisters x) = (n.memory, none) := by
    rw [hn, m.firstRegisters_loadRegisters hlen]
    exact Prod.ext hback hfault
  simp only [storeAtIndex, hwritten]

/-- Registers that a store has saved are loaded again after any run that stores nothing and brings
the index back, and a store right behind a load leaves memory as it is. -/
theorem saved_registers_return (dice : Nat → Int) (m : Machine) (x : Nibble) :
    let store (m : Machine) := m.perform dice (.ofByte 0xf x 0x55)
    let load (m : Machine) := m.perform dice (.ofByte 0xf x 0x65)
    ((store m).fault = none → ∀ history n, (store m).machine.Sparing dice history →
      (store m).machine.after dice history = n → n.index = m.index →
        (load n).fault = none ∧ (∀ v ≤ x, (load n).machine.register v = m.register v) ∧
          ∀ v, x < v → (load n).machine.register v = n.register v) ∧
    ((load m).fault = none → (store (load m).machine).fault = none ∧
      (store (load m).machine).machine.memory = (load m).machine.memory) := by
  intro store load
  constructor
  · intro hs history n hrun hn hindex
    obtain ⟨hmachine, hfault⟩ := m.perform_toOpcode dice (.store x)
    obtain ⟨hmachine', hfault'⟩ := n.perform_toOpcode dice (.load x)
    have hmemory : n.memory = (m.storeAtIndex (m.firstRegisters x)).machine.memory := by
      rw [← hn, after_memory hrun]
      exact congrArg Machine.memory hmachine
    have hload : (Instruction.load x).execute dice n =
        { machine := n.loadRegisters (m.firstRegisters x) } :=
      loadFromIndex_of_stored (hfault.symm.trans hs) hmemory hindex
    rw [hload] at hmachine' hfault'
    have hregister (v : Nibble) :
        (load n).machine.register v = if v ≤ x then m.register v else n.register v := by
      rw [← getD_firstRegisters, ← register_loadRegisters]
      exact congrArg (Machine.register · v) hmachine'
    refine ⟨hfault', ?_, ?_⟩
    · intro v hv
      rw [hregister, if_pos hv]
    · intro v hv
      rw [hregister, if_neg (Fin.not_le.2 hv)]
  · intro hl
    obtain ⟨hmachine, hfault⟩ := m.perform_toOpcode dice (.load x)
    obtain ⟨hmachine', hfault'⟩ := (load m).machine.perform_toOpcode dice (.store x)
    have hstore : (Instruction.store x).execute dice (load m).machine =
        { machine := (load m).machine } :=
      storeAtIndex_of_loaded (hfault.symm.trans hl) hmachine
    rw [hstore] at hmachine' hfault'
    exact ⟨hfault', congrArg Machine.memory hmachine'⟩

/-- An instruction stays next as long as its two bytes in memory do. -/
theorem next_of_agree {i : Instruction} {a : Nat} (ha : a + 1 < 4096) (hi : m.Next i)
    (hm : m.counter = a) (hn : n.counter = a)
    (hfirst : n.memory.get ⟨a, by omega⟩ = m.memory.get ⟨a, by omega⟩)
    (hsecond : n.memory.get ⟨a + 1, ha⟩ = m.memory.get ⟨a + 1, ha⟩) : n.Next i := by
  rw [Next, word?_of_counter ha hm] at hi
  rw [Next, word?_of_counter ha hn]
  simp only [Memory.get_eq_getElem] at hfirst hsecond
  rw [hfirst, hsecond, hi]

/-- A register is set between its store and its load, by an instruction ahead of the saved byte. -/
theorem store_then_set (dice : Nat → Int) {a b : Nat} {value : UInt8}
    (hset : m.Next (.set 0 value)) (hcounter : m.counter = a) (hindex : m.index = b)
    (ha : a + 1 < b) (hb : b < 4096) :
    let saved := m.perform dice (.ofByte 0xf 0 0x55)
    let n := saved.machine.after dice [.hold (some 5), .step now]
    saved.fault = none ∧ saved.machine.Sparing dice [.hold (some 5), .step now] ∧
      n.index = m.index ∧ n.register 0 = value := by
  intro saved n
  have hstores : m.Stores saved fun k : Fin (0 + 1) => m.register (k.castLE (by decide)) :=
    stores_of_execute (i := .store 0) (by omega)
      (congrArg m.storeAtIndex (m.firstRegisters_eq_ofFn 0))
  have hroom : m.room 1 = 1 := by
    unfold room
    omega
  have hkept (p : Fin 4096) (hp : p.val < b) :
      saved.machine.memory.get p = m.memory.get p :=
    hstores.kept p fun hin => by omega
  have hheld : ({ saved.machine with key := some 5 } : Machine).Next (.set 0 value) := by
    refine next_of_agree (a := a) (by omega) hset hcounter ?_ (hkept _ (Nat.lt_of_succ_lt ha))
      (hkept _ ha)
    rw [hstores.rest]
    exact hcounter
  obtain ⟨delay, sound, lastTick, hstep⟩ := step_machine_of_next dice now hheld
  have hn : n = _ := hstep
  have hsaved : saved.machine.index = m.index := by rw [hstores.rest]
  refine ⟨hstores.fault.trans (if_pos hroom), ⟨trivial, fun x => ⟨fun hx => ?_, fun hx => ?_⟩,
    trivial⟩, ?_, ?_⟩
  · cases next_unique hheld hx
  · cases next_unique hheld hx
  · rw [hn]
    exact hsaved
  · rw [hn]
    exact register_setRegister_self _ _ _

/-- The run between store and load overwrites the register. -/
theorem saved_registers_return_after_set :
    let m : Machine := { (booted {} 0 [0x60, 0x09]).setRegister 0 7 with index := 1000 }
    let saved := m.perform (fun _ => 0) (.ofByte 0xf 0 0x55)
    let n := saved.machine.after (fun _ => 0) [.hold (some 5), .step 0]
    let loaded := n.perform (fun _ => 0) (.ofByte 0xf 0 0x65)
    let again := loaded.machine.perform (fun _ => 0) (.ofByte 0xf 0 0x55)
    (saved.fault = none ∧ saved.machine.Sparing (fun _ => 0) [.hold (some 5), .step 0] ∧
      n.index = m.index ∧ n.register 0 = 9 ∧ loaded.fault = none ∧
      loaded.machine.register 0 = 7) ∧
    again.fault = none ∧ again.machine.memory = loaded.machine.memory := by
  -- What follows the store stays folded, so that no comparison of terms unfolds the run.
  intro m
  have hmemory : m.memory = (Font.install .blank).overlay gameStart [0x60, 0x09] := rfl
  have hset : m.Next (.set 0 9) := next_of_game 0 hmemory rfl (by decide) (by decide) rfl
  have hseven : m.register 0 = 7 := register_setRegister_self _ _ _
  obtain ⟨hfault, hsparing, hback, hnine⟩ := store_then_set (fun _ => 0) hset rfl rfl
    (by decide) (by decide)
  obtain ⟨hloads, hregister, -⟩ :=
    (saved_registers_return (fun _ => 0) m 0).1 hfault _ _ hsparing rfl hback
  have hagain := (saved_registers_return (fun _ => 0) _ 0).2 hloads
  exact ⟨⟨hfault, hsparing, hback, hnine, hloads,
    (hregister 0 (Fin.le_refl 0)).trans hseven⟩, hagain⟩

end Machine

end Chip8
