import Chip8.Proofs.Session.CleanStart

/-!
A session at a terminal. Without a keypad, a buzzer and message boxes, and with its first game
named, a session logs and shows and does nothing else, whatever its game does.
-/
namespace Chip8

/-- What needs no more than a terminal. -/
def Effect.Plain : Effect → Prop
  | .log _ | .present _ => True
  | .audio _ | .dialog _ => False

namespace Journal

variable {j : Journal}

end Journal

namespace Session

/-- Nothing surrounds the machine but a journal, in which all is plain. -/
structure Plain (s : Session) : Prop where
  keypad : s.keypad = none
  buzzer : s.buzzer = none
  interactive : s.interactive = false
  journal : ∀ e ∈ s.journal, e.Plain

variable {w : World} {s t : Session}

theorem Plain.of_eq (h : s.Plain) (he : t = { s with
    machine := t.machine, running := t.running, loaded := t.loaded, queue := t.queue,
    now := t.now, looks := t.looks, ticks := t.ticks }) : t.Plain := by
  rw [he]
  exact ⟨h.keypad, h.buzzer, h.interactive, h.journal⟩

theorem Plain.record (h : s.Plain) {effects : List Effect} (he : ∀ e ∈ effects, e.Plain) :
    (s.record effects).Plain where
  keypad := h.keypad
  buzzer := h.buzzer
  interactive := h.interactive
  journal := List.forall_mem_append.2 ⟨fun e hm => he e (List.mem_reverse.1 hm), h.journal⟩

theorem Plain.log (h : s.Plain) (lines : List Line) : (s.log lines).Plain := by
  refine h.record fun e he => ?_
  obtain ⟨line, -, rfl⟩ := List.mem_map.1 he
  trivial

theorem Plain.present (h : s.Plain) (shown : Presentation) : (s.present shown).Plain :=
  h.record (List.forall_mem_singleton.2 trivial)

theorem Plain.adopt (h : s.Plain) (out : Outcome) : (s.adopt out).Plain := by
  have hmachine : ({ s with machine := out.machine } : Session).Plain := h.of_eq rfl
  exact hmachine.log out.lines

theorem Plain.look (h : s.Plain) : s.look.Plain := h.of_eq rfl

theorem Plain.insert (h : s.Plain) (path : Path) (game : List UInt8) :
    (s.insert path game).1.Plain := by
  have hready : (if s.loaded then s.look.adopt (s.machine.reset s.reading) else s).Plain := by
    split
    · exact h.look.adopt _
    · exact h
  rw [Session.insert]
  generalize (if s.loaded then s.look.adopt (s.machine.reset s.reading) else s) = t at hready
  have hadopt := hready.adopt (t.machine.loadGame game)
  simp only
  split
  · exact hadopt
  · have htitle : ({ (t.adopt (t.machine.loadGame game)).present (.title path.stem) with
        loaded := true } : Session).Plain := (hadopt.present _).of_eq rfl
    exact htitle.log _

theorem Plain.loadFrom (h : s.Plain) (path : Path) : (s.loadFrom w path).1.Plain := by
  unfold Session.loadFrom
  split
  · exact h
  · exact h.log _
  · rename_i why _
    have hlog := h.log [.error (why.message path)]
    simp only [reject, if_neg (ne_true_of_eq_false hlog.interactive)]
    exact hlog
  · exact (h.log _).insert path _

theorem Plain.takeSteps (h : s.Plain) (count : Nat) : (s.takeSteps w count).1.Plain := by
  induction count generalizing s with
  | zero => exact h
  | succ count ih =>
    have hstep := h.look.adopt (s.machine.step w.dice s.reading)
    rw [takeSteps_succ]
    split
    · exact hstep
    · exact ih hstep

theorem Plain.refresh (h : s.Plain) : s.refresh.Plain := by
  have htaken : ({ s with machine := s.machine.takeRedraw.2 } : Session).Plain := h.of_eq rfl
  simp only [Session.refresh]
  split
  · exact htaken.present _
  · exact htaken

theorem Plain.sound (h : s.Plain) (active : Bool) : (s.sound active).Plain := by
  rw [Session.sound, h.buzzer]
  exact h

theorem Plain.frame (h : s.Plain) : (s.frame w).1.Plain := by
  have hevents : s.handleEvents w = (s, none) := by
    rw [handleEvents, h.keypad]
  have hsteps := h.takeSteps (w := w) (if s.loaded then s.pace else 0)
  simp only [Session.frame, hevents]
  generalize s.takeSteps w (if s.loaded then s.pace else 0) = stepped at hsteps ⊢
  obtain ⟨t, _ | b⟩ := stepped
  · exact hsteps.refresh.sound _
  · exact hsteps

theorem Plain.of_frame (h : s.Plain) {b : Option Breakdown} (hf : s.frame w = (t, b)) :
    t.Plain := by
  have hframe := h.frame (w := w)
  rwa [hf] at hframe

theorem Plain.collapse (h : s.Plain) (b : Breakdown) : (s.collapse b).1.Plain := by
  cases b with
  | system e => exact h
  | fault fault =>
    simp only [Session.collapse]
    split
    · exact h.log _
    · exact h

theorem Plain.tick (h : s.Plain) (tick : Tick) : (s.tick tick).Plain := h.of_eq rfl

theorem Plain.loop (h : s.Plain) (script : List Tick) : (s.loop w script).1.Plain := by
  fun_induction Session.loop w s script with
  | case1 script s _ t b hf => exact (h.of_frame hf).collapse b
  | case2 s _ t hf => exact h.of_frame hf
  | case3 s _ t hf tick rest => exact ((h.of_frame hf).tick tick).log _
  | case4 s _ t hf tick rest _ _ ih => exact ih ((h.of_frame hf).tick tick)
  | case5 => exact h

theorem Plain.run (h : s.Plain) (script : List Tick) : (s.run w script).1.Plain := by
  have hrunning : ({ s with running := true } : Session).Plain := h.of_eq rfl
  exact (hrunning.loop script).sound false

end Session

end Chip8
