import Chip8.Byte
import Chip8.Fault

/-!
The 4096 bytes of memory. Addresses are integers: one outside memory is a fault that names it.
Blocks are read and written byte by byte, so a block that runs out of memory is handled up to
the first address outside.
-/
namespace Chip8

abbrev Memory := Vector UInt8 4096

namespace Memory

def InRange (address : Int) : Prop := 0 ≤ address ∧ address < 4096

instance : DecidablePred InRange := fun address =>
  inferInstanceAs (Decidable (0 ≤ address ∧ address < 4096))

def blank : Memory := Vector.replicate 4096 0

/-- Refuses an address outside memory. -/
def check (address : Int) : Except Fault Unit :=
  if InRange address then .ok () else .error (.outOfRange address)

def read (m : Memory) (address : Int) : Except Fault UInt8 :=
  if h : InRange address then .ok (m.get ⟨address.toNat, by have := h.1; have := h.2; omega⟩)
  else .error (.outOfRange address)

def write (m : Memory) (address : Int) (value : UInt8) : Except Fault Memory :=
  if h : InRange address then
    .ok (m.set address.toNat value (by have := h.1; have := h.2; omega))
  else .error (.outOfRange address)

theorem check_eq_ok_iff {address : Int} : check address = .ok () ↔ InRange address := by
  unfold check
  by_cases h : InRange address <;> simp [h]

theorem read_eq_error_iff {m : Memory} {address : Int} {fault : Fault} :
    m.read address = .error fault ↔ ¬InRange address ∧ fault = .outOfRange address := by
  unfold read
  by_cases h : InRange address
  · simp [h]
  · simp [h, eq_comm]

theorem get_eq_getElem (m : Memory) (i : Fin 4096) : m.get i = m[i.val] := rfl

/-- A byte that was written is read back, and the other cells keep theirs. -/
theorem read_of_write {m n : Memory} {address other : Int} {value : UInt8}
    (h : m.write address value = .ok n) :
    n.read other = if other = address then .ok value else m.read other := by
  unfold write at h
  by_cases ha : InRange address
  · rw [dif_pos ha] at h
    obtain rfl := Except.ok.inj h
    unfold read
    by_cases ho : InRange other
    · have h1 := ha.1
      have h2 := ho.1
      simp only [dif_pos ho, get_eq_getElem, Vector.getElem_set]
      by_cases he : other = address
      · rw [if_pos he, if_pos (by omega)]
      · rw [if_neg he, if_neg (by omega)]
    · have he : other ≠ address := fun he => ho (he.symm ▸ ha)
      rw [dif_neg ho, dif_neg ho, if_neg he]
  · rw [dif_neg ha] at h
    cases h

/-- The bytes at `count` addresses from `address` on, cut short by the first one outside memory. -/
def readBlock (m : Memory) (address : Int) : Nat → List UInt8 × Option Fault
  | 0 => ([], none)
  | count + 1 =>
    match m.read address with
    | .error fault => ([], some fault)
    | .ok value =>
      let (values, fault) := m.readBlock (address + 1) count
      (value :: values, fault)

/-- Writes bytes from `address` on, up to the first address outside memory. -/
def writeBlock (m : Memory) (address : Int) : List UInt8 → Memory × Option Fault
  | [] => (m, none)
  | value :: values =>
    match m.write address value with
    | .error fault => (m, some fault)
    | .ok m => m.writeBlock (address + 1) values

/-- Puts bytes over the cells from `start` on; bytes past the end of memory are dropped. -/
def overlay (m : Memory) (start : Nat) (values : List UInt8) : Memory :=
  let cells := values.toArray
  m.mapIdx fun i old => if start ≤ i then cells.getD (i - start) old else old

theorem getElem_overlay (m : Memory) (start : Nat) (values : List UInt8) (i : Nat)
    (h : i < 4096) :
    (m.overlay start values)[i] = if start ≤ i then values.getD (i - start) m[i] else m[i] := by
  unfold overlay
  rw [Vector.getElem_mapIdx]
  simp only [Array.getD_eq_getD_getElem?, List.getElem?_toArray, List.getD_eq_getElem?_getD]

/-- The cells from `start` up to `stop`; a negative bound counts from the end of memory. -/
def slice (m : Memory) (start stop : Int) : List UInt8 :=
  let bound (b : Int) : Nat := (if b < 0 then b + 4096 else b).toNat
  (m.toList.take (bound stop)).drop (bound start)

end Memory

end Chip8
