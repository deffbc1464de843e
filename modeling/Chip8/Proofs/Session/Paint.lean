import Chip8.Proofs.Machine.Footprint
import Chip8.Proofs.Machine.Redraw
import Chip8.Proofs.Session.CleanStart

/-!
What paints the screen of a session. The redraw notice goes up exactly when a painting instruction
completes or a game takes the place of another, and nothing is shown meanwhile. Only the end of a
frame takes the notice down, and it shows the screen then.
-/
namespace Chip8

namespace Machine

variable {dice : Nat → Int} {m : Machine} {now : Float} {i : Instruction}

theorem redrawAfter_of_paints (hm : m.InBounds) (hp : i.Paints) (hf : i.faultOn m = none) :
    i.redrawAfter m = true := by
  cases i with
  | clear => rfl
  | draw x y height =>
    have hread : (m.memory.readBlock m.index (m.visibleRows y height)).2 = none :=
      (m.memory.readBlock_fault hm.index_nonneg _).trans hf
    rw [Instruction.redrawAfter, hread]
    rfl
  | _ => exact hp.elim

/-- A step that goes through puts the notice up if it paints, and otherwise leaves screen and
notice alone. -/
theorem step_paints (hm : m.InBounds) (hf : (m.step dice now).fault = none) :
    ((m.step dice now).machine.redraw = true ↔ m.redraw = true ∨ ∃ i, m.Next i ∧ i.Paints) ∧
      ((¬∃ i, m.Next i ∧ i.Paints) → (m.step dice now).machine.screen = m.screen) := by
  by_cases hn : ∃ i, m.Next i
  · obtain ⟨i, hi⟩ := hn
    rw [step_fault_of_next hm hi] at hf
    rw [step_redraw_of_next hi, step_screen_of_next hi]
    by_cases hp : i.Paints
    · have hpaint : ∃ i, m.Next i ∧ i.Paints := ⟨i, hi, hp⟩
      exact ⟨iff_of_true (redrawAfter_of_paints hm hp hf) (Or.inr hpaint),
        fun hnot => absurd hpaint hnot⟩
    · have hnot : ¬∃ i, m.Next i ∧ i.Paints := by
        rintro ⟨j, hj, hpj⟩
        rw [next_unique hi hj] at hp
        exact hp hpj
      rw [Instruction.redrawAfter_eq hp, Instruction.screenAfter_eq hp, or_iff_left hnot]
      exact ⟨Iff.rfl, fun _ => rfl⟩
  · push Not at hn
    obtain ⟨hscreen, hredraw⟩ := step_screen_of_not_next dice now hn
    rw [hscreen, hredraw, or_iff_left fun ⟨i, hi, _⟩ => hn i hi]
    exact ⟨Iff.rfl, fun _ => rfl⟩

theorem loadGame_inBounds (hm : m.InBounds) (game : List UInt8) :
    (m.loadGame game).machine.InBounds := by
  have happly : (m.apply (fun _ => 0) (.loadGame game)).machine.InBounds := apply_inBounds hm _
  exact happly

theorem reset_inBounds (m : Machine) (now : Float) : (m.reset now).machine.InBounds :=
  (fresh_inBounds m.settings now).congr rfl rfl rfl

end Machine

namespace Journal

theorem screens_record (j : Journal) (effects : List Effect) :
    (j.record effects).screens = j.screens ++ (Journal.record [] effects).screens := by
  rw [screens, presentations_record, List.filterMap_append]
  rfl

end Journal

theorem Buzzer.screens_update (b : Buzzer) (active : Bool) :
    (Journal.record [] (b.update active).2).screens = [] := by
  unfold update
  repeat' split
  all_goals rfl

theorem kept_inBounds (w : World) : Kept w fun m _ => m.InBounds where
  hold key h := by
    obtain ⟨held, hm⟩ := Machine.hold_machine _ key
    rw [hm]
    exact h.congr rfl rfl rfl
  step now h := Machine.step_inBounds h
  takeRedraw h := h.congr rfl rfl rfl
  first _ h := Machine.loadGame_inBounds h _
  another := by
    intro m now game _ _
    exact Machine.loadGame_inBounds (m.reset_inBounds now) game

namespace Session

/-- The sessions in which the given number of steps begin, up to the first that is faulty. -/
def stepStarts (w : World) (s : Session) : Nat → List Session
  | 0 => []
  | count + 1 =>
    match (s.machine.step w.dice s.reading).fault with
    | some _ => [s]
    | none => s :: stepStarts w (s.look.adopt (s.machine.step w.dice s.reading)) count

theorem stepStarts_zero (w : World) (s : Session) : s.stepStarts w 0 = [] := rfl

theorem stepStarts_succ (w : World) (s : Session) (count : Nat) : s.stepStarts w (count + 1) =
    match (s.machine.step w.dice s.reading).fault with
    | some _ => [s]
    | none => s :: (s.look.adopt (s.machine.step w.dice s.reading)).stepStarts w count := (rfl)

def frameSteps (w : World) (s : Session) : List Session :=
  match s.handleEvents w with
  | (_, some _) => []
  | (t, none) => t.stepStarts w (if t.loaded then t.pace else 0)

/-- A painting instruction is next, and the step completes it. -/
def Paints (w : World) (s : Session) : Prop :=
  (∃ i, s.machine.Next i ∧ i.Paints) ∧ (s.machine.step w.dice s.reading).fault = none

/-- The load puts a game in the place of another. -/
def Replaces (w : World) (s : Session) (path : Option Path) : Prop :=
  s.loaded = true ∧ (s.load w path).2 = .ok true

/-- In the course of the frame the screen is painted anew. -/
def FrameRepaints (w : World) (s : Session) : Prop :=
  (∃ t ∈ s.frameReloads w, t.Replaces w none) ∨ ∃ t ∈ s.frameSteps w, t.Paints w

/-- On the way from `s` to `t` nothing is shown. If `p`, the redraw notice goes up, and otherwise
the screen stays as it is. -/
structure Painted (s t : Session) (p : Prop) : Prop where
  screens : t.journal.screens = s.journal.screens
  redraw : t.machine.redraw = true ↔ s.machine.redraw = true ∨ p
  screen : ¬p → t.machine.screen = s.machine.screen

variable {w : World} {s t u : Session} {p q : Prop}

theorem Painted.of_eq (hj : t.journal.screens = s.journal.screens)
    (hr : t.machine.redraw = s.machine.redraw) (hs : t.machine.screen = s.machine.screen) :
    Painted s t False where
  screens := hj
  redraw := by rw [hr, or_false]
  screen _ := hs

theorem Painted.congr (h : Painted s t p) (hpq : p ↔ q) : Painted s t q := by
  rwa [← propext hpq]

theorem Painted.trans (h : Painted s t p) (h' : Painted t u q) : Painted s u (p ∨ q) where
  screens := h'.screens.trans h.screens
  redraw := by rw [h'.redraw, h.redraw, or_assoc]
  screen hn := (h'.screen fun hq => hn (Or.inr hq)).trans (h.screen fun hp => hn (Or.inl hp))

theorem screens_log (s : Session) (lines : List Line) :
    (s.log lines).journal.screens = s.journal.screens :=
  congrArg (List.filterMap _) (s.unmoved_log lines).presentations

theorem screens_present_title (s : Session) (title : String) :
    (s.present (.title title)).journal.screens = s.journal.screens :=
  (s.journal.screens_record [.present (.title title)]).trans (List.append_nil _)

/-- A game goes in without a reset only if there was none before. -/
theorem insert_painted (s : Session) (path : Path) {game : List UInt8}
    (hgame : game.length ≤ gameCapacity) :
    Painted s (s.insert path game).1 (s.loaded = true) := by
  have hready : Painted s (if s.loaded then s.look.adopt (s.machine.reset s.reading) else s)
      (s.loaded = true) := by
    split
    · rename_i hl
      exact ⟨screens_log _ _, iff_of_true rfl (Or.inr hl), fun hn => absurd hl hn⟩
    · rename_i hl
      exact (Painted.of_eq rfl rfl rfl).congr (iff_of_false id hl)
  rw [insert]
  generalize (if s.loaded then s.look.adopt (s.machine.reset s.reading) else s) = t at hready
  obtain ⟨hfault, hmachine⟩ := Machine.loadGame_of_le (m := t.machine) hgame
  have hredraw : (t.machine.loadGame game).machine.redraw = t.machine.redraw := by rw [hmachine]
  have hscreen : (t.machine.loadGame game).machine.screen = t.machine.screen := by rw [hmachine]
  simp only [hfault]
  generalize t.machine.loadGame game = out at hredraw hscreen
  refine (hready.trans (.of_eq ?_ hredraw hscreen)).congr (or_iff_left id)
  exact (screens_log _ _).trans ((screens_present_title _ _).trans (screens_log _ _))

theorem Unmoved.painted (h : s.Unmoved t) : Painted s t False := by
  refine .of_eq (congrArg (List.filterMap _) h.presentations) ?_ ?_
  · rw [h.eq]
  · rw [h.eq]

theorem load_painted (w : World) (s : Session) (path : Option Path) :
    Painted s (s.load w path).1 (s.Replaces w path) := by
  rcases s.load_eq_insert_or_unmoved w path with ⟨t, p, game, ht, hgame, hl⟩ | ⟨hn, hm⟩
  · have hok : (s.load w path).2 = .ok true := by rw [hl, insert_ok t p hgame]
    have hloaded : t.loaded = s.loaded := by rw [ht.eq]
    rw [hl]
    refine (ht.painted.trans (t.insert_painted p hgame)).congr ?_
    rw [false_or, hloaded, Replaces, and_iff_left hok]
  · exact hm.painted.congr (iff_of_false id fun h => hn h.2)

theorem handle_painted (w : World) (s : Session) (keypad : Keypad) (events : List Event) :
    Painted s (s.handle w keypad events).1
      (∃ t ∈ s.reloads w keypad events, t.Replaces w none) := by
  fun_induction handle w s keypad events with
  | case1 s keypad =>
    obtain ⟨held, hm⟩ := s.machine.hold_machine keypad.code
    have hredraw : (s.machine.hold keypad.code).machine.redraw = s.machine.redraw := by rw [hm]
    have hscreen : (s.machine.hold keypad.code).machine.screen = s.machine.screen := by rw [hm]
    refine (Painted.of_eq ?_ hredraw hscreen).congr (by simp [reloads])
    exact screens_log { s with keypad := some keypad } _
  | case2 s keypad rest ih =>
    refine Painted.congr ⟨ih.screens, ih.redraw, ih.screen⟩ ?_
    simp only [reloads, if_true]
  | case3 s keypad rest t b hl =>
    have hload := s.load_painted w none
    rw [hl] at hload
    refine Painted.congr ⟨hload.screens, hload.redraw, hload.screen⟩ ?_
    simp only [reloads, hl, reduceCtorEq, if_false, if_true, List.mem_singleton, exists_eq_left]
  | case4 s keypad rest t _ hl _ ih =>
    have hload := s.load_painted w none
    rw [hl] at hload
    refine (hload.trans ih).congr ?_
    simp only [reloads, hl, reduceCtorEq, if_false, if_true, List.mem_cons,
      exists_eq_or_imp]
  | case5 s keypad event rest hq hr ih =>
    refine ((unmoved_log s _).painted.trans ih).congr ?_
    simp only [reloads, if_neg hq, if_neg hr, false_or]

/-- Without a keypad no events are read. -/
theorem handleEvents_of_none (hk : s.keypad = none) : s.handleEvents w = (s, none) := by
  rw [handleEvents, hk]

theorem handleEvents_painted (w : World) (s : Session) :
    Painted s (s.handleEvents w).1 (∃ t ∈ s.frameReloads w, t.Replaces w none) := by
  cases hk : s.keypad with
  | none =>
    simp only [handleEvents, frameReloads, hk]
    exact (Painted.of_eq rfl rfl rfl).congr (by simp)
  | some keypad =>
    have h := handle_painted w { s with queue := [] } keypad s.queue
    simp only [handleEvents, frameReloads, hk] at h ⊢
    exact ⟨h.screens, h.redraw, h.screen⟩

theorem step_painted (hm : s.machine.InBounds)
    (hf : (s.machine.step w.dice s.reading).fault = none) :
    Painted s (s.look.adopt (s.machine.step w.dice s.reading)) (s.Paints w) := by
  obtain ⟨hredraw, hscreen⟩ := Machine.step_paints hm hf
  have hpaint : s.Paints w ↔ ∃ i, s.machine.Next i ∧ i.Paints := and_iff_left hf
  refine Painted.congr ⟨?_, hredraw, hscreen⟩ hpaint.symm
  exact screens_log { s.look with machine := _ } _

theorem takeSteps_painted (w : World) (hm : s.machine.InBounds) (count : Nat)
    (h : (s.takeSteps w count).2 = none) :
    Painted s (s.takeSteps w count).1 (∃ t ∈ s.stepStarts w count, t.Paints w) := by
  induction count generalizing s with
  | zero =>
    rw [stepStarts_zero]
    exact (Painted.of_eq rfl rfl rfl).congr (by simp)
  | succ count ih =>
    rw [stepStarts_succ]
    rw [takeSteps_succ] at h ⊢
    cases hf : (s.machine.step w.dice s.reading).fault with
    | some fault =>
      rw [hf] at h
      cases h
    | none =>
      have hstep := step_painted hm hf
      have hm' : (s.machine.step w.dice s.reading).machine.InBounds := Machine.step_inBounds hm
      simp only [hf] at h ⊢
      refine (hstep.trans (ih hm' h)).congr ?_
      rw [List.exists_mem_cons_iff]

/-- Taking the notice shows the screen if the notice is up. -/
theorem refresh_shows (s : Session) : s.refresh.machine.redraw = false ∧
    s.refresh.machine.screen = s.machine.screen ∧ s.refresh.journal.screens =
      s.journal.screens ++ if s.machine.redraw then [s.machine.screen] else [] := by
  unfold refresh Machine.takeRedraw
  cases hr : s.machine.redraw with
  | false => exact ⟨rfl, rfl, (List.append_nil _).symm⟩
  | true => exact ⟨rfl, rfl, s.journal.screens_record [.present (.frame s.machine.screen)]⟩

theorem sound_unseen (s : Session) (active : Bool) : (s.sound active).machine = s.machine ∧
    (s.sound active).journal.screens = s.journal.screens := by
  unfold sound
  cases s.buzzer with
  | none => exact ⟨rfl, rfl⟩
  | some buzzer =>
    have hsilent := buzzer.screens_update active
    simp only
    generalize buzzer.update active = updated at hsilent ⊢
    refine ⟨rfl, (s.journal.screens_record updated.2).trans ?_⟩
    rw [hsilent, List.append_nil]

/-- A frame that goes through paints first, and shows the screen at the end if the notice is up
by then. -/
theorem frame_shows (hm : s.machine.InBounds) (h : (s.frame w).2 = none) :
    ∃ t, Painted s t (s.FrameRepaints w) ∧ (s.frame w).1.machine.redraw = false ∧
      (s.frame w).1.machine.screen = t.machine.screen ∧ (s.frame w).1.journal.screens =
        t.journal.screens ++ if t.machine.redraw then [t.machine.screen] else [] := by
  have hevents := s.handleEvents_painted w
  have hbounds : (s.handleEvents w).1.machine.InBounds := (kept_inBounds w).handleEvents hm
  unfold frame at h ⊢
  simp only [FrameRepaints, frameSteps]
  generalize s.handleEvents w = handled at h hevents hbounds ⊢
  obtain ⟨t, _ | b⟩ := handled
  · have hsteps := takeSteps_painted w hbounds (if t.loaded then t.pace else 0)
    simp only at h hsteps ⊢
    generalize t.takeSteps w (if t.loaded then t.pace else 0) = stepped at h hsteps ⊢
    obtain ⟨u, _ | b⟩ := stepped
    · obtain ⟨hredraw, hscreen, hscreens⟩ := u.refresh_shows
      obtain ⟨hmachine, hjournal⟩ := u.refresh.sound_unseen u.refresh.machine.bell
      refine ⟨u, hevents.trans (hsteps rfl), ?_, ?_, hjournal.trans hscreens⟩
      · rw [hmachine]
        exact hredraw
      · rw [hmachine]
        exact hscreen
    · cases h
  · cases h

end Session

end Chip8
