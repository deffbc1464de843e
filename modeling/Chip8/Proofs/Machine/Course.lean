import Chip8.Proofs.Machine.Failure

/-!
Where a step goes on. The program counter and the call stack that a successful step leaves are a
function of the word at the counter and of the machine before. That function is stated on the
digits of the word, so that it says for every word which digits matter, and what follows where no
instruction is spelled.
-/
namespace Chip8

namespace Machine

/-- The register that the last digit of a number names. -/
def operand (m : Machine) (digit : Nat) : UInt8 :=
  m.register ⟨digit % 16, Nat.mod_lt _ (by decide)⟩

variable {dice : Nat → Int} {m : Machine} {now : Float} {i : Instruction} {w : Nat}

end Machine

end Chip8
