import Chip8.Proofs.Machine.Lockstep
import Chip8.Proofs.Machine.Footprint
import Chip8.Proofs.Machine.Redraw

/-!
A reset forgets the past. Requests cannot tell a machine that was reset from one that has just
been switched on, if both go on with the same random numbers: they end in the same faults, log the
same lines and leave the same machines behind. Only the redraw notice is up on the one and down on
the other, until a request comes that settles it on both.
-/
namespace Chip8

/-- The random numbers from position `d` on. -/
def diceFrom (dice : Nat → Int) (d : Nat) : Nat → Int := fun k => dice (d + k)

namespace Machine

/-- The machine `n` is `m` but for the redraw notice, and has drawn `d` more random numbers. -/
def Echoes (d : Nat) (m n : Machine) : Prop := ∃ redraw, n = { m with redraw, draws := d + m.draws }

/-- The request sets the redraw notice, whether it was up or down: it paints and goes through,
takes the notice, or resets the machine. -/
def Settles (dice : Nat → Int) (m : Machine) : Operation → Prop
  | .step now => (∃ i, m.Next i ∧ i.Paints) ∧ (m.step dice now).fault = none
  | .takeRedraw | .reset _ => True
  | _ => False

/-- Some request of the history sets the redraw notice. -/
def Settled (dice : Nat → Int) (m : Machine) (history : List Operation) : Prop :=
  ∃ before operation, before ++ [operation] <+: history ∧
    (m.after dice before).Settles dice operation

variable {dice : Nat → Int} {d : Nat} {m n : Machine} {i : Instruction} {operation : Operation}

theorem echoes_of_draws_eq_zero (hm : m.draws = 0) (d : Nat) (redraw : Bool) :
    Echoes d m { m with redraw, draws := d } :=
  ⟨redraw, by rw [hm, Nat.add_zero]⟩

theorem Echoes.eq (h : Echoes d m n) : n = { m with redraw := n.redraw, draws := d + m.draws } := by
  obtain ⟨redraw, rfl⟩ := h
  rfl

theorem Echoes.read (h : Echoes d m n) (address : Int) : n.read address = m.read address := by
  rw [h.eq]
  rfl

theorem Echoes.alike (h : Echoes d m n) : m.Alike n := by
  obtain ⟨redraw, rfl⟩ := h
  exact ⟨_, _, _, rfl⟩

theorem Echoes.coincides (h : Echoes d m n) (dice : Nat → Int) (i : Instruction) :
    i.Coincides (diceFrom dice d) dice m n := by
  obtain ⟨redraw, rfl⟩ := h
  cases i <;> first | rfl | exact trivial

theorem Echoes.narrate (h : Echoes d m n) (i : Instruction) (o : Opcode) (fault : Option Fault) :
    i.narrate dice n o fault = i.narrate (diceFrom dice d) m o fault := by
  obtain ⟨redraw, rfl⟩ := h
  have hdescribe : i.describe dice { m with redraw, draws := d + m.draws } =
      i.describe (diceFrom dice d) m := by
    cases i <;> rfl
  have hskips : i.skips? { m with redraw, draws := d + m.draws } = i.skips? m := by
    cases i <;> rfl
  simp only [Instruction.narrate, hdescribe, hskips]

theorem Echoes.perform_lines (h : Echoes d m n) (o : Opcode) :
    (n.perform dice o).lines = (m.perform (diceFrom dice d) o).lines := by
  unfold perform
  cases Instruction.ofOpcode? o with
  | none => rfl
  | some i =>
    have hfault := (Instruction.execute_alike h.alike (h.coincides dice i)).fault
    simp only [hfault, h.narrate i o]

theorem Echoes.cycle_lines (h : Echoes d m n) :
    (n.cycle dice).lines = (m.cycle (diceFrom dice d)).lines := by
  have hadvance : Echoes d m.advance n.advance := by
    obtain ⟨redraw, rfl⟩ := h
    exact ⟨redraw, rfl⟩
  simp only [cycle, h.alike.opcode]
  cases m.opcode with
  | error fault => rfl
  | ok o => exact hadvance.perform_lines o

theorem Echoes.updateTimers (h : Echoes d m n) (now : Float) :
    Echoes d (m.updateTimers now).machine (n.updateTimers now).machine := by
  obtain ⟨redraw, rfl⟩ := h
  have hticks : ({ m with redraw, draws := d + m.draws } : Machine).ticks now = m.ticks now := rfl
  simp only [Machine.updateTimers, hticks]
  split <;> exact ⟨redraw, rfl⟩

theorem Echoes.step_lines (h : Echoes d m n) (now : Float) :
    (n.step dice now).lines = (m.step (diceFrom dice d) now).lines := by
  simp only [step, (h.alike.updateTimers now).2, (h.updateTimers now).cycle_lines]

/-- A request does the same to both machines, and nothing in its outcome tells them apart. -/
theorem Echoes.apply (h : Echoes d m n) (operation : Operation) :
    (n.apply dice operation).fault = (m.apply (diceFrom dice d) operation).fault ∧
      (n.apply dice operation).lines = (m.apply (diceFrom dice d) operation).lines ∧
      Echoes d (m.apply (diceFrom dice d) operation).machine (n.apply dice operation).machine := by
  have hc : operation.Coincides (diceFrom dice d) dice m n := by
    cases operation with
    | step now => exact fun i _ => h.coincides dice i
    | _ => trivial
  refine ⟨(apply_alike h.alike hc).fault, ?_, ?_⟩
  · by_cases hs : ∃ now, operation = .step now
    · obtain ⟨now, rfl⟩ := hs
      exact h.step_lines now
    · push Not at hs
      exact (apply_alike_of_not_step (diceFrom dice d) dice h.alike hs).2
  · have hsettings : n.settings = (m.apply (diceFrom dice d) operation).machine.settings := by
      rw [settings_apply, h.eq]
    have hdraws : n.draws + m.rollsOf operation =
        d + (m.apply (diceFrom dice d) operation).machine.draws := by
      rw [draws_apply, h.eq, Nat.add_assoc]
    rw [h.alike.apply_machine hc, hsettings, hdraws]
    exact ⟨_, rfl⟩

/-- A step raises the redraw notice if it paints and goes through. -/
theorem step_redraw_iff (dice : Nat → Int) (hm : m.InBounds) (now : Float) :
    (m.step dice now).machine.redraw = true ↔ m.redraw = true ∨ m.Settles dice (.step now) := by
  by_cases hn : ∃ i, m.Next i
  · obtain ⟨i, hi⟩ := hn
    have hsettles : m.Settles dice (.step now) ↔ i.Paints ∧ i.faultOn m = none := by
      rw [Settles, step_fault_of_next hm hi]
      refine and_congr_left fun _ => ⟨?_, fun hp => ⟨i, hi, hp⟩⟩
      rintro ⟨j, hj, hp⟩
      rwa [next_unique hi hj]
    rw [step_redraw_of_next hi, hsettles]
    cases i with
    | clear => exact iff_of_true rfl (Or.inr ⟨trivial, rfl⟩)
    | draw x y height =>
      rw [draw_redrawAfter hm, Bool.or_eq_true, or_comm, decide_eq_true_iff,
        Instruction.faultOn, Memory.blockFault]
      refine or_congr_right ?_
      split
      · rename_i hroom
        exact iff_of_true hroom ⟨trivial, rfl⟩
      · rename_i hroom
        exact iff_of_false hroom fun h => by cases h.2
    | _ => exact (or_iff_left fun h => h.1).symm
  · push Not at hn
    have hsettles : ¬m.Settles dice (.step now) := by
      rintro ⟨⟨i, hi, -⟩, -⟩
      exact hn i hi
    rw [(step_screen_of_not_next dice now hn).2, or_iff_left hsettles]

/-- The notice that a request leaves if it sets it. -/
def noticeOf : Operation → Bool
  | .takeRedraw => false
  | _ => true

theorem redraw_of_settles (hm : m.InBounds) (h : m.Settles dice operation) :
    (m.apply dice operation).machine.redraw = noticeOf operation := by
  cases operation with
  | step now => exact (step_redraw_iff dice hm now).2 (Or.inr h)
  | takeRedraw => rfl
  | reset now => simp only [apply_reset, noticeOf]
  | _ => exact h.elim

theorem redraw_of_not_settles (hm : m.InBounds) (h : ¬m.Settles dice operation) :
    (m.apply dice operation).machine.redraw = m.redraw := by
  by_cases hs : ∃ now, operation = .step now
  · obtain ⟨now, rfl⟩ := hs
    have hstep := step_redraw_iff dice hm now
    rw [or_iff_left h] at hstep
    exact Bool.eq_iff_iff.2 hstep
  have hr : ∀ now, operation ≠ .reset now := by
    rintro now rfl
    exact h trivial
  have ht : operation ≠ .takeRedraw := by
    rintro rfl
    exact h trivial
  push Not at hs
  obtain ⟨_, _, _, _, _, redraw, _, he, -, hkeep⟩ := m.apply_frame dice hs hr
  rw [he]
  exact hkeep ht

theorem Echoes.settles_iff (h : Echoes d m n) (operation : Operation) :
    n.Settles dice operation ↔ m.Settles (diceFrom dice d) operation := by
  cases operation with
  | step now =>
    have hfault : (n.step dice now).fault = (m.step (diceFrom dice d) now).fault :=
      (h.apply (.step now)).1
    simp only [Settles, hfault, h.alike.next_iff]
  | _ => exact Iff.rfl

theorem Echoes.after (h : Echoes d m n) (dice : Nat → Int) (history : List Operation) :
    Echoes d (m.after (diceFrom dice d) history) (n.after dice history) := by
  induction history generalizing m n with
  | nil => exact h
  | cons operation rest ih => exact ih (h.apply operation).2.2

theorem settled_concat_iff (history : List Operation) (operation : Operation) :
    m.Settled dice (history ++ [operation]) ↔
      m.Settled dice history ∨ (m.after dice history).Settles dice operation := by
  constructor
  · rintro ⟨before, last, hp, hs⟩
    rcases concat_prefix_concat_iff.1 hp with ⟨rfl, rfl⟩ | hp
    · exact Or.inr hs
    · exact Or.inl ⟨before, last, hp, hs⟩
  · rintro (⟨before, last, hp, hs⟩ | hs)
    · exact ⟨before, last, hp.trans (List.prefix_append _ _), hs⟩
    · exact ⟨history, operation, List.prefix_refl _, hs⟩

/-- Until the notice is settled it stays up on the one machine and down on the other, and from
then on it is the same on both. -/
theorem Echoes.notice (h : Echoes d m n) (hm : m.InBounds) (hdown : m.redraw = false)
    (hup : n.redraw = true) (dice : Nat → Int) (history : List Operation) :
    (m.Settled (diceFrom dice d) history →
      (n.after dice history).redraw = (m.after (diceFrom dice d) history).redraw) ∧
    (¬m.Settled (diceFrom dice d) history →
      (n.after dice history).redraw = true ∧
        (m.after (diceFrom dice d) history).redraw = false) := by
  induction history using List.reverseRecOn with
  | nil =>
    constructor
    · rintro ⟨before, operation, hp, -⟩
      exact absurd hp not_concat_prefix_nil
    · exact fun _ => ⟨hup, hdown⟩
  | append_singleton history operation ih =>
    have hbefore := h.after dice history
    have hm' : (m.after (diceFrom dice d) history).InBounds := after_inBounds hm history
    have hn' : (n.after dice history).InBounds := by
      obtain ⟨redraw, he⟩ := hbefore
      rw [he]
      exact hm'.congr rfl rfl rfl
    rw [settled_concat_iff, after_concat, after_concat]
    by_cases hs : (m.after (diceFrom dice d) history).Settles (diceFrom dice d) operation
    · rw [redraw_of_settles hm' hs, redraw_of_settles hn' ((hbefore.settles_iff operation).2 hs)]
      exact ⟨fun _ => rfl, fun hnot => absurd (Or.inr hs) hnot⟩
    · rw [redraw_of_not_settles hm' hs,
        redraw_of_not_settles hn' (mt (hbefore.settles_iff operation).1 hs), or_iff_left hs]
      exact ih

/-- After the history the machine `n`, which has been reset when `d` random numbers had been
drawn, is as `m`, which has been switched on at that moment. -/
structure AsNew (dice : Nat → Int) (d : Nat) (m n : Machine) (history : List Operation) : Prop where
  machine : n.after dice history = { m.after (diceFrom dice d) history with
    redraw := (n.after dice history).redraw
    draws := d + (m.after (diceFrom dice d) history).draws }
  fault : ∀ operation, ((n.after dice history).apply dice operation).fault =
    ((m.after (diceFrom dice d) history).apply (diceFrom dice d) operation).fault
  lines : ∀ operation, ((n.after dice history).apply dice operation).lines =
    ((m.after (diceFrom dice d) history).apply (diceFrom dice d) operation).lines
  read : ∀ address, (n.after dice history).read address =
    (m.after (diceFrom dice d) history).read address
  settled : m.Settled (diceFrom dice d) history →
    (n.after dice history).redraw = (m.after (diceFrom dice d) history).redraw
  unsettled : ¬m.Settled (diceFrom dice d) history →
    (n.after dice history).redraw = true ∧ (m.after (diceFrom dice d) history).redraw = false

theorem Echoes.asNew (h : Echoes d m n) (hm : m.InBounds) (hdown : m.redraw = false)
    (hup : n.redraw = true) (history : List Operation) : AsNew dice d m n history := by
  have hafter := h.after dice history
  have hnotice := h.notice hm hdown hup dice history
  exact {
    machine := hafter.eq
    fault := fun operation => (hafter.apply operation).1
    lines := fun operation => (hafter.apply operation).2.1
    read := hafter.read
    settled := hnotice.1
    unsettled := hnotice.2 }

/-- Whatever a machine has been through, a reset makes it the machine that is switched on at the
same moment, except that it asks for the screen to be shown and goes on with its random numbers.
No later requests tell the two apart, the redraw notice aside until it is settled. -/
theorem reset_forgets (settings : Settings) (start : Float) (dice : Nat → Int)
    (past : List Operation) (now : Float) :
    let m := (fresh settings start).after dice past
    (m.reset now).machine = { fresh settings now with redraw := true, draws := m.draws } ∧
      ∀ history, AsNew dice m.draws (fresh settings now) (m.reset now).machine history := by
  intro m
  have hreset : (m.reset now).machine =
      { fresh settings now with redraw := true, draws := m.draws } := by
    have hsettings : m.settings = settings := settings_after dice _ past
    rw [← hsettings]
    rfl
  refine ⟨hreset, fun history => ?_⟩
  rw [hreset]
  exact (echoes_of_draws_eq_zero rfl m.draws true).asNew (fresh_inBounds settings now) rfl rfl
    history

end Machine

end Chip8
