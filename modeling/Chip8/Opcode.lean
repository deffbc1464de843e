import Chip8.Byte
import Chip8.Text.Numeral

/-!
Opcodes: two bytes, cut into the class nibble and the parameters of an instruction. Bytes after
the first two are kept for the record and mean nothing. An opcode is put together again from its
nibbles, from two nibbles and a byte, or from a nibble and an address.
-/
namespace Chip8

instance neZero_addresses : @NeZero Nat Zero.ofOfNat0 4096 := Nat.instNeZeroSucc

structure Opcode where
  first : UInt8
  second : UInt8
  rest : List UInt8 := []
deriving DecidableEq, Repr

namespace Opcode

def ofBytes? : List UInt8 → Option Opcode
  | first :: second :: rest => some ⟨first, second, rest⟩
  | _ => none

def toBytes (o : Opcode) : List UInt8 := o.first :: o.second :: o.rest

/-- All bytes of the opcode, two hexadecimal digits each. -/
def text (o : Opcode) : String := Hexadecimal.bytes o.toBytes

def kind (o : Opcode) : Nibble := Nibble.upper o.first.toNat

def x (o : Opcode) : Nibble := Nibble.lower o.first.toNat

def y (o : Opcode) : Nibble := Nibble.upper o.second.toNat

def n (o : Opcode) : Nibble := Nibble.lower o.second.toNat

/-- The last twelve bits, an address. -/
def address (o : Opcode) : Fin 4096 :=
  ⟨256 * o.x.val + o.second.toNat, by
    have := o.x.isLt
    have := o.second.toNat_lt
    omega⟩

/-- The big-endian number that the first two bytes spell. -/
def word (o : Opcode) : Nat := 256 * o.first.toNat + o.second.toNat

/-- The opcode with the given nibbles. -/
def ofNibbles (kind x y n : Nibble) : Opcode where
  first := UInt8.ofNat (16 * kind.val + x.val)
  second := UInt8.ofNat (16 * y.val + n.val)

/-- The opcode with class `kind`, register `x` and a constant byte. -/
def ofByte (kind x : Nibble) (value : UInt8) : Opcode where
  first := UInt8.ofNat (16 * kind.val + x.val)
  second := value

/-- The opcode with class `kind` and the twelve bits of an address. -/
def ofAddress (kind : Nibble) (a : Fin 4096) : Opcode where
  first := UInt8.ofNat (16 * kind.val + a.val / 256)
  second := UInt8.ofNat (a.val % 256)

variable {o : Opcode} {k x y n : Nibble} {value : UInt8} {a : Fin 4096}

theorem toBytes_of_ofBytes? {bytes : List UInt8} (h : ofBytes? bytes = some o) :
    o.toBytes = bytes := by
  match bytes, h with
  | first :: second :: rest, h =>
    simp only [ofBytes?, Option.some.injEq] at h
    subst h
    rfl

theorem val_kind : o.kind.val = o.first.toNat / 16 := by
  have := o.first.toNat_lt
  simp only [kind, Nibble.upper]
  omega

theorem val_x : o.x.val = o.first.toNat % 16 := by
  simp only [Opcode.x, Nibble.lower]
  omega

theorem val_y : o.y.val = o.second.toNat / 16 := by
  have := o.second.toNat_lt
  simp only [Opcode.y, Nibble.upper]
  omega

theorem val_n : o.n.val = o.second.toNat % 16 := by
  simp only [Opcode.n, Nibble.lower]
  omega

theorem val_address : o.address.val = 256 * o.x.val + o.second.toNat := rfl

theorem word_eq : o.word = 4096 * o.kind.val + 256 * o.x.val + 16 * o.y.val + o.n.val := by
  rw [val_kind, val_x, val_y, val_n, word]
  omega

@[simp] theorem kind_ofNibbles : (ofNibbles k x y n).kind = k := by
  apply Fin.ext
  simp only [val_kind, ofNibbles, UInt8.toNat_ofNat']
  omega

@[simp] theorem x_ofNibbles : (ofNibbles k x y n).x = x := by
  apply Fin.ext
  simp only [val_x, ofNibbles, UInt8.toNat_ofNat']
  omega

@[simp] theorem y_ofNibbles : (ofNibbles k x y n).y = y := by
  apply Fin.ext
  simp only [val_y, ofNibbles, UInt8.toNat_ofNat']
  omega

@[simp] theorem n_ofNibbles : (ofNibbles k x y n).n = n := by
  apply Fin.ext
  simp only [val_n, ofNibbles, UInt8.toNat_ofNat']
  omega

@[simp] theorem kind_ofByte : (ofByte k x value).kind = k := by
  apply Fin.ext
  simp only [val_kind, ofByte, UInt8.toNat_ofNat']
  omega

@[simp] theorem x_ofByte : (ofByte k x value).x = x := by
  apply Fin.ext
  simp only [val_x, ofByte, UInt8.toNat_ofNat']
  omega

@[simp] theorem second_ofByte : (ofByte k x value).second = value := rfl

@[simp] theorem kind_ofAddress : (ofAddress k a).kind = k := by
  apply Fin.ext
  simp only [val_kind, ofAddress, UInt8.toNat_ofNat']
  omega

@[simp] theorem address_ofAddress : (ofAddress k a).address = a := by
  apply Fin.ext
  simp only [val_address, val_x, ofAddress, UInt8.toNat_ofNat']
  omega

/-- Two-byte opcodes with the same nibbles are equal. -/
theorem eq_ofNibbles (h : o.rest = []) : o = ofNibbles o.kind o.x o.y o.n := by
  obtain ⟨first, second, rest⟩ := o
  obtain rfl : rest = [] := h
  have := first.toNat_lt
  have := second.toNat_lt
  simp only [ofNibbles, mk.injEq, and_true, val_kind, val_x, val_y, val_n]
  constructor <;> apply UInt8.toNat_inj.1 <;> simp only [UInt8.toNat_ofNat'] <;> omega

theorem eq_ofByte (h : o.rest = []) : o = ofByte o.kind o.x o.second := by
  obtain ⟨first, second, rest⟩ := o
  obtain rfl : rest = [] := h
  have := first.toNat_lt
  simp only [ofByte, mk.injEq, and_true, val_kind, val_x]
  apply UInt8.toNat_inj.1
  simp only [UInt8.toNat_ofNat']
  omega

theorem eq_ofAddress (h : o.rest = []) : o = ofAddress o.kind o.address := by
  obtain ⟨first, second, rest⟩ := o
  obtain rfl : rest = [] := h
  have := first.toNat_lt
  have := second.toNat_lt
  simp only [ofAddress, mk.injEq, and_true, val_kind, val_address, val_x]
  constructor <;> apply UInt8.toNat_inj.1 <;> simp only [UInt8.toNat_ofNat'] <;> omega

end Opcode

end Chip8
