import Chip8.Proofs.Session.Ending

/-!
The endings of a run and what each of them means. Besides its two statuses a run may meet an error
of the system or run out of ticks.
-/
namespace Chip8

namespace Session

variable {w : World} {s t : Session} {script : List Tick}

/-- A step fails in one of the frames of a run. -/
def Fails (w : World) (s : Session) (script : List Tick) : Prop :=
  ∃ t ∈ s.frames w script, ∃ u ∈ t.frameSteps w, u.Crashes w

/-- What an ending means for the run up to it. -/
def Means (w : World) (s : Session) (script : List Tick) (final : Session) : Ending → Prop
  | .status code =>
    code = 1 ∧ s.Fails w script ∨ code = 0 ∧ ¬s.Fails w script ∧ s.ticks < final.ticks
  | .breakdown b => ¬s.Fails w script ∧ ∃ path e, b = .system e ∧ w.files.FailsAt path e
  | .unfinished => ¬s.Fails w script

/-- A flawless frame before a run changes nothing of what its ending means. -/
theorem Means.cons {rest : List Tick} {final : Session} {ending : Ending}
    (h : t.Means w rest final ending) (hfails : s.Fails w script ↔ t.Fails w rest)
    (hticks : s.ticks < t.ticks) : s.Means w script final ending := by
  cases ending with
  | status code =>
    rcases h with ⟨hc, hf⟩ | ⟨hc, hf, hlt⟩
    · exact Or.inl ⟨hc, hfails.2 hf⟩
    · exact Or.inr ⟨hc, mt hfails.1 hf, hticks.trans hlt⟩
  | breakdown b => exact ⟨mt hfails.1 h.1, h.2⟩
  | unfinished => exact mt hfails.1 h

end Session

end Chip8
