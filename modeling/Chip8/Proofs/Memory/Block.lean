import Chip8.Memory
import Mathlib.Tactic.ByContra

/-!
Blocks of memory. A transfer of several bytes goes through unless it reaches past the end of
memory, and then it names the first address outside. What a block read returns is what the cells
held.
-/
namespace Chip8.Memory

/-- What stops the transfer of `count` bytes from `address` on. -/
def blockFault (address : Int) (count : Nat) : Option Fault :=
  if count = 0 ∨ address + count ≤ 4096 then none else some (.outOfRange (max address 4096))

theorem blockFault_eq_some_iff {address : Int} {count : Nat} {fault : Fault} :
    blockFault address count = some fault ↔
      (0 < count ∧ 4096 < address + count) ∧ fault = .outOfRange (max address 4096) := by
  unfold blockFault
  by_cases h : count = 0 ∨ address + count ≤ 4096
  · rw [if_pos h]
    constructor
    · intro hn
      cases hn
    · rintro ⟨⟨hc, ha⟩, -⟩
      omega
  · rw [if_neg h, Option.some.injEq, eq_comm]
    constructor
    · intro hf
      exact ⟨by omega, hf⟩
    · exact fun hf => hf.2

/-- One more byte is stopped by its own address or by what stops the bytes behind it. -/
theorem blockFault_succ {address : Int} (h : 0 ≤ address) (count : Nat) :
    blockFault address (count + 1) =
      if InRange address then blockFault (address + 1) count else some (.outOfRange address) := by
  unfold blockFault
  by_cases ha : InRange address
  · have hlt := ha.2
    rw [if_pos ha, show max (address + 1) 4096 = max address 4096 by omega]
    by_cases hc : count = 0 ∨ address + 1 + count ≤ 4096
    · rw [if_pos hc, if_pos (by omega)]
    · rw [if_neg hc, if_neg (by omega)]
  · have hge : 4096 ≤ address := by
      unfold InRange at ha
      omega
    rw [if_neg ha, if_neg (by omega), show max address 4096 = address by omega]

theorem read_of_inRange (m : Memory) {address : Int} (h : InRange address) :
    ∃ value, m.read address = .ok value ∧ m[address.toNat]? = some value := by
  have h1 := h.1
  have h2 := h.2
  have hi : address.toNat < 4096 := by omega
  refine ⟨m[address.toNat], ?_, Vector.getElem?_eq_getElem hi⟩
  unfold read
  rw [dif_pos h, get_eq_getElem]

theorem write_of_inRange (m : Memory) {address : Int} (value : UInt8) (h : InRange address) :
    ∃ n, m.write address value = .ok n := by
  unfold write
  rw [dif_pos h]
  exact ⟨_, rfl⟩

theorem read_of_not_inRange (m : Memory) {address : Int} (h : ¬InRange address) :
    m.read address = .error (.outOfRange address) := by
  unfold read
  rw [dif_neg h]

theorem write_of_not_inRange (m : Memory) {address : Int} (value : UInt8)
    (h : ¬InRange address) : m.write address value = .error (.outOfRange address) := by
  unfold write
  rw [dif_neg h]

theorem read_val (m : Memory) (p : Fin 4096) : m.read p.val = .ok (m.get p) := by
  have hp := p.isLt
  unfold read
  rw [dif_pos (show InRange p.val from ⟨by omega, by omega⟩)]
  rfl

theorem get_of_write {m n : Memory} {address : Int} {value : UInt8} (p : Fin 4096)
    (h : m.write address value = .ok n) (hp : (p.val : Int) ≠ address) : n.get p = m.get p := by
  have hr : n.read p.val = if (p.val : Int) = address then .ok value else m.read p.val :=
    read_of_write h
  rw [if_neg hp, read_val, read_val] at hr
  exact Except.ok.inj hr

theorem readBlock_fault (m : Memory) {address : Int} (h : 0 ≤ address) (count : Nat) :
    (m.readBlock address count).2 = blockFault address count := by
  induction count generalizing address with
  | zero => rfl
  | succ count ih =>
    rw [blockFault_succ h, readBlock]
    by_cases ha : InRange address
    · obtain ⟨value, hv, -⟩ := m.read_of_inRange ha
      rw [if_pos ha, hv, ← ih (show 0 ≤ address + 1 by omega)]
    · rw [if_neg ha, m.read_of_not_inRange ha]

theorem writeBlock_fault (m : Memory) {address : Int} (h : 0 ≤ address) (values : List UInt8) :
    (m.writeBlock address values).2 = blockFault address values.length := by
  induction values generalizing m address with
  | nil => rfl
  | cons value values ih =>
    rw [List.length_cons, blockFault_succ h, writeBlock]
    by_cases ha : InRange address
    · obtain ⟨n, hn⟩ := m.write_of_inRange value ha
      rw [if_pos ha, hn, ← ih n (show 0 ≤ address + 1 by omega)]
    · rw [if_neg ha, m.write_of_not_inRange value ha]

/-- A transfer that starts outside memory fails unless there is nothing to transfer. -/
theorem inRange_of_readBlock {m : Memory} {address : Int} {count : Nat}
    (h : (m.readBlock address (count + 1)).2 = none) : InRange address := by
  by_contra hn
  rw [readBlock, m.read_of_not_inRange hn] at h
  cases h

theorem inRange_of_writeBlock {m : Memory} {address : Int} {value : UInt8} {values : List UInt8}
    (h : (m.writeBlock address (value :: values)).2 = none) : InRange address := by
  by_contra hn
  rw [writeBlock, m.write_of_not_inRange value hn] at h
  cases h

theorem length_readBlock_le (m : Memory) (address : Int) (count : Nat) :
    (m.readBlock address count).1.length ≤ count := by
  induction count generalizing address with
  | zero => exact Nat.le_refl 0
  | succ count ih =>
    rw [readBlock]
    cases m.read address with
    | error fault => exact Nat.zero_le _
    | ok value => exact Nat.succ_le_succ (ih (address + 1))

/-- Cells outside a block keep what they hold, also where the block runs out of memory. -/
theorem get_writeBlock_of_outside (m : Memory) (address : Int) (values : List UInt8)
    (p : Fin 4096) (hp : ¬(address ≤ p.val ∧ p.val < address + values.length)) :
    (m.writeBlock address values).1.get p = m.get p := by
  induction values generalizing m address with
  | nil => rfl
  | cons value values ih =>
    rw [List.length_cons] at hp
    rw [writeBlock]
    cases hw : m.write address value with
    | error fault => rfl
    | ok n =>
      have hrest := ih n (address + 1) (by omega)
      exact hrest.trans (get_of_write p hw (by omega))

theorem getElem?_readBlock (m : Memory) {address : Int} (h : 0 ≤ address) (count k : Nat) :
    (m.readBlock address count).1[k]? = if k < count then m[address.toNat + k]? else none := by
  induction count generalizing address k with
  | zero => rfl
  | succ count ih =>
    rw [readBlock]
    by_cases ha : InRange address
    · obtain ⟨value, hv, hm⟩ := m.read_of_inRange ha
      rw [hv]
      cases k with
      | zero => simpa using hm.symm
      | succ k =>
        have hk := ih (show 0 ≤ address + 1 by omega) k
        rw [show (address + 1).toNat + k = address.toNat + (k + 1) by omega] at hk
        simpa using hk
    · have hn : m[address.toNat + k]? = none := by
        apply Vector.getElem?_eq_none
        unfold InRange at ha
        omega
      rw [m.read_of_not_inRange ha, hn]
      simp

theorem getElem_overlay_add (m : Memory) (start : Nat) (values : List UInt8) (k : Nat)
    (hk : k < values.length) (h : start + k < 4096) :
    (m.overlay start values)[start + k] = values[k] := by
  rw [getElem_overlay, if_pos (Nat.le_add_right start k), Nat.add_sub_cancel_left,
    List.getD_eq_getElem?_getD, List.getElem?_eq_getElem hk, Option.getD_some]

theorem overlay_nil (m : Memory) (start : Nat) : m.overlay start [] = m := by
  apply Vector.ext
  intro i hi
  rw [getElem_overlay, List.getD_nil, ite_self]

theorem overlay_cons (m : Memory) (start : Nat) (value : UInt8) (values : List UInt8)
    (h : start < 4096) :
    overlay (m.set start value h) (start + 1) values = m.overlay start (value :: values) := by
  apply Vector.ext
  intro i hi
  rw [getElem_overlay, getElem_overlay, Vector.getElem_set]
  rcases Nat.lt_trichotomy i start with hlt | rfl | hlt
  · rw [if_neg (by omega), if_neg (by omega), if_neg (by omega)]
  · rw [if_neg (by omega), if_pos rfl, if_pos (Nat.le_refl i), Nat.sub_self, List.getD_cons_zero]
  · rw [if_pos (show start + 1 ≤ i from hlt), if_neg (by omega), if_pos (by omega),
      show i - start = i - (start + 1) + 1 by omega, List.getD_cons_succ]

theorem overlay_outside (m : Memory) (start : Nat) (values : List UInt8) (h : 4096 ≤ start) :
    m.overlay start values = m := by
  apply Vector.ext
  intro i hi
  rw [getElem_overlay, if_neg (by omega)]

/-- Writing puts bytes over the cells from the address on, and drops those behind the end of
memory. -/
theorem writeBlock_eq_overlay (m : Memory) {address : Int} (h : 0 ≤ address)
    (values : List UInt8) :
    (m.writeBlock address values).1 = m.overlay address.toNat values := by
  induction values generalizing m address with
  | nil => exact (m.overlay_nil _).symm
  | cons value values ih =>
    rw [writeBlock]
    by_cases ha : InRange address
    · have hlt : address.toNat < 4096 := by
        have := ha.2
        omega
      have hwrite : m.write address value = .ok (m.set address.toNat value hlt) := dif_pos ha
      rw [hwrite, ← m.overlay_cons, show address.toNat + 1 = (address + 1).toNat by omega]
      exact ih _ (show 0 ≤ address + 1 by omega)
    · rw [m.write_of_not_inRange value ha, overlay_outside]
      unfold InRange at ha
      omega

theorem length_readBlock {m : Memory} {address : Int} {count : Nat}
    (h : (m.readBlock address count).2 = none) :
    (m.readBlock address count).1.length = count := by
  induction count generalizing address with
  | zero => rfl
  | succ count ih =>
    obtain ⟨value, hv, -⟩ := m.read_of_inRange (inRange_of_readBlock h)
    rw [readBlock, hv] at h ⊢
    exact congrArg (· + 1) (ih h)

theorem blockFault_eq_none_iff {address : Int} {count : Nat} :
    blockFault address count = none ↔ count = 0 ∨ address + count ≤ 4096 := by
  unfold blockFault
  split
  · exact iff_of_true rfl ‹_›
  · exact iff_of_false (Option.some_ne_none _) ‹_›

/-- What was written is read back. -/
theorem readBlock_writeBlock (m : Memory) {address : Int} (h : 0 ≤ address) {values : List UInt8}
    (hw : (m.writeBlock address values).2 = none) :
    (m.writeBlock address values).1.readBlock address values.length = (values, none) := by
  rw [writeBlock_fault m h] at hw
  have hroom := blockFault_eq_none_iff.1 hw
  apply Prod.ext
  · apply List.ext_getElem?
    intro k
    rw [getElem?_readBlock _ h, writeBlock_eq_overlay m h]
    by_cases hk : k < values.length
    · rw [if_pos hk, Vector.getElem?_eq_getElem (by omega), List.getElem?_eq_getElem hk,
        getElem_overlay_add]
    · rw [if_neg hk, List.getElem?_eq_none (Nat.le_of_not_lt hk)]
  · rw [readBlock_fault _ h]
    exact hw

/-- Writing back what was read changes nothing. -/
theorem writeBlock_readBlock (m : Memory) {address : Int} (h : 0 ≤ address) (count : Nat) :
    (m.writeBlock address (m.readBlock address count).1).1 = m := by
  rw [writeBlock_eq_overlay m h]
  apply Vector.ext
  intro i hi
  rw [getElem_overlay, List.getD_eq_getElem?_getD, getElem?_readBlock m h]
  split
  · rw [show address.toNat + (i - address.toNat) = i by omega, Vector.getElem?_eq_getElem hi]
    split <;> rfl
  · rfl

/-- Bytes that fit are put in the place of as many others. -/
theorem toList_overlay (m : Memory) (start : Nat) (values : List UInt8)
    (h : start + values.length ≤ 4096) : (m.overlay start values).toList =
      m.toList.take start ++ values ++ m.toList.drop (start + values.length) := by
  have hm : m.toList.length = 4096 := Vector.length_toList
  have hlen : (m.toList.take start).length = start := by
    rw [List.length_take, hm]
    omega
  apply List.ext_getElem
  · simp only [Vector.length_toList, List.length_append, List.length_take, List.length_drop]
    omega
  · intro i hi hi'
    rw [Vector.length_toList] at hi
    rw [Vector.getElem_toList, getElem_overlay]
    by_cases hs : i < start
    · rw [if_neg (by omega), List.getElem_append_left (by rw [List.length_append]; omega),
        List.getElem_append_left (by omega), List.getElem_take, Vector.getElem_toList]
    · rw [if_pos (by omega), List.getD_eq_getElem?_getD]
      by_cases hv : i - start < values.length
      · rw [List.getElem?_eq_getElem hv, Option.getD_some, List.getElem_append_left
          (by rw [List.length_append]; omega), List.getElem_append_right (by omega)]
        simp only [hlen]
      · rw [List.getElem?_eq_none (by omega), Option.getD_none, List.getElem_append_right
          (by rw [List.length_append]; omega), List.getElem_drop]
        simp only [List.length_append, hlen, Vector.getElem_toList]
        congr 1
        omega

end Chip8.Memory
