import Chip8.Instruction

/-!
Instructions as numbers. A fetched opcode is two bytes, so it is the big-endian word that they
spell, and every instruction is read from exactly one word. Statements about what a machine meets
in memory speak of these words and not of opcodes.
-/
namespace Chip8

namespace Opcode

variable {o p : Opcode}

/-! The parameters of an opcode are the digits of its word. -/

theorem word_div_class (o : Opcode) : o.word / 0x1000 = o.kind.val := by
  have h := o.second.toNat_lt
  rw [val_kind, word]
  omega

theorem eq_of_word_eq (ho : o.rest = []) (hp : p.rest = []) (h : o.word = p.word) : o = p := by
  obtain ⟨a, b, rest⟩ := o
  obtain ⟨c, d, rest'⟩ := p
  obtain rfl : rest = [] := ho
  obtain rfl : rest' = [] := hp
  have hb := b.toNat_lt
  have hd := d.toNat_lt
  simp only [word] at h
  have hac : a = c := UInt8.toNat_inj.1 (by omega)
  have hbd : b = d := UInt8.toNat_inj.1 (by omega)
  rw [hac, hbd]

theorem word_ofNibbles (k x y n : Nibble) :
    (ofNibbles k x y n).word = 4096 * k.val + 256 * x.val + 16 * y.val + n.val := by
  rw [word_eq, kind_ofNibbles, x_ofNibbles, y_ofNibbles, n_ofNibbles]

theorem word_ofByte (k x : Nibble) (value : UInt8) :
    (ofByte k x value).word = 4096 * k.val + 256 * x.val + value.toNat := by
  simp only [word, ofByte, UInt8.toNat_ofNat']
  omega

theorem word_ofAddress (k : Nibble) (a : Fin 4096) :
    (ofAddress k a).word = 4096 * k.val + a.val := by
  simp only [word, ofAddress, UInt8.toNat_ofNat']
  omega

end Opcode

namespace Instruction

/-- The word that spells an instruction. -/
def word : Instruction → Nat
  | .clear => 0x00e0
  | .ret => 0x00ee
  | .jump target => 0x1000 + target.val
  | .call target => 0x2000 + target.val
  | .skipIfEqual x value => 0x3000 + 0x100 * x.val + value.toNat
  | .skipIfUnequal x value => 0x4000 + 0x100 * x.val + value.toNat
  | .skipIfSame x y => 0x5000 + 0x100 * x.val + 0x10 * y.val
  | .set x value => 0x6000 + 0x100 * x.val + value.toNat
  | .increase x value => 0x7000 + 0x100 * x.val + value.toNat
  | .copy x y => 0x8000 + 0x100 * x.val + 0x10 * y.val
  | .or x y => 0x8001 + 0x100 * x.val + 0x10 * y.val
  | .and x y => 0x8002 + 0x100 * x.val + 0x10 * y.val
  | .xor x y => 0x8003 + 0x100 * x.val + 0x10 * y.val
  | .add x y => 0x8004 + 0x100 * x.val + 0x10 * y.val
  | .sub x y => 0x8005 + 0x100 * x.val + 0x10 * y.val
  | .shiftRight x y => 0x8006 + 0x100 * x.val + 0x10 * y.val
  | .subFrom x y => 0x8007 + 0x100 * x.val + 0x10 * y.val
  | .shiftLeft x y => 0x800e + 0x100 * x.val + 0x10 * y.val
  | .skipIfDifferent x y => 0x9000 + 0x100 * x.val + 0x10 * y.val
  | .setIndex value => 0xa000 + value.val
  | .jumpOffset base => 0xb000 + base.val
  | .random x mask => 0xc000 + 0x100 * x.val + mask.toNat
  | .draw x y height => 0xd000 + 0x100 * x.val + 0x10 * y.val + height.val
  | .skipIfHeld x => 0xe09e + 0x100 * x.val
  | .skipIfNotHeld x => 0xe0a1 + 0x100 * x.val
  | .getDelay x => 0xf007 + 0x100 * x.val
  | .awaitKey x => 0xf00a + 0x100 * x.val
  | .setDelay x => 0xf015 + 0x100 * x.val
  | .setSound x => 0xf018 + 0x100 * x.val
  | .addToIndex x => 0xf01e + 0x100 * x.val
  | .indexGlyph x => 0xf029 + 0x100 * x.val
  | .storeDecimal x => 0xf033 + 0x100 * x.val
  | .store x => 0xf055 + 0x100 * x.val
  | .load x => 0xf065 + 0x100 * x.val

theorem rest_toOpcode (i : Instruction) : i.toOpcode.rest = [] := by
  cases i <;> rfl

theorem word_toOpcode (i : Instruction) : i.toOpcode.word = i.word := by
  cases i <;> simp [toOpcode, word, Opcode.word_ofNibbles, Opcode.word_ofByte,
    Opcode.word_ofAddress] <;> omega

/-- A two-byte opcode spells an instruction when its word does. -/
theorem ofOpcode?_eq_some_iff_word {o : Opcode} {i : Instruction} (rest : o.rest = []) :
    ofOpcode? o = some i ↔ o.word = i.word := by
  rw [ofOpcode?_eq_some_iff rest, ← word_toOpcode]
  constructor
  · intro h
    rw [h]
  · exact Opcode.eq_of_word_eq rest i.rest_toOpcode

theorem word_injective {i j : Instruction} (h : i.word = j.word) : i = j := by
  have hi := ofOpcode?_toOpcode i
  have hj : ofOpcode? i.toOpcode = some j :=
    (ofOpcode?_eq_some_iff_word i.rest_toOpcode).2 (by rw [word_toOpcode, h])
  exact Option.some.inj (hi.symm.trans hj)

end Instruction

end Chip8
