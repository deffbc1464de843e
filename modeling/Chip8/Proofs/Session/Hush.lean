import Chip8.Proofs.Session.HeldKey

/-!
What passes in silence. Only the end of a frame and the end of a run reach the buzzer, only a tick
ends a frame, and only the events of a frame tell the session to stop.
-/
namespace Chip8.Session

/-- On the way from `s` to `t` nothing is heard and no frame ends. If `p`, the session is told to
stop. -/
structure Hushed (s t : Session) (p : Prop) : Prop where
  buzzer : t.buzzer = s.buzzer
  audio : t.journal.audio = s.journal.audio
  pace : t.pace = s.pace
  ticks : t.ticks = s.ticks
  running : t.running = true ↔ s.running = true ∧ ¬p

variable {w : World} {s t u : Session} {p q : Prop}

theorem Hushed.congr (h : Hushed s t p) (hpq : p ↔ q) : Hushed s t q := by
  rwa [← propext hpq]

theorem Hushed.trans (h : Hushed s t p) (h' : Hushed t u q) : Hushed s u (p ∨ q) where
  buzzer := h'.buzzer.trans h.buzzer
  audio := h'.audio.trans h.audio
  pace := h'.pace.trans h.pace
  ticks := h'.ticks.trans h.ticks
  running := by rw [h'.running, h.running, and_assoc, not_or]

theorem Hushed.still (h : Hushed s t p) (h' : Hushed t u False) : Hushed s u p :=
  (h.trans h').congr (or_iff_left id)

/-- What leaves no sound behind and does not touch the fields that count is hushed. -/
theorem hushed_of_eq (he : t = { s with
    machine := t.machine, keypad := t.keypad, loaded := t.loaded, queue := t.queue,
    picks := t.picks, looks := t.looks, journal := t.journal })
    (ha : t.journal.audio = s.journal.audio) : Hushed s t False := by
  rw [he]
  exact ⟨rfl, ha, rfl, rfl, (and_iff_left id).symm⟩

theorem Unmoved.hushed (h : s.Unmoved t) : Hushed s t False := by
  refine hushed_of_eq ?_ h.audio
  rw [h.eq]

theorem audio_present (s : Session) (shown : Presentation) :
    (s.present shown).journal.audio = s.journal.audio :=
  (s.journal.audio_record [.present shown]).trans (List.append_nil _)

theorem adopt_hushed (s : Session) (out : Outcome) : Hushed s (s.adopt out) False :=
  hushed_of_eq rfl (unmoved_log { s with machine := out.machine } out.lines).audio

theorem look_hushed (s : Session) : Hushed s s.look False := hushed_of_eq rfl rfl

theorem insert_hushed (s : Session) (path : Path) (game : List UInt8) :
    Hushed s (s.insert path game).1 False := by
  have hready : Hushed s (if s.loaded then s.look.adopt (s.machine.reset s.reading) else s)
      False := by
    split
    · exact s.look_hushed.still (adopt_hushed _ _)
    · exact hushed_of_eq rfl rfl
  rw [insert]
  generalize (if s.loaded then s.look.adopt (s.machine.reset s.reading) else s) = t at hready
  have hadopt := hready.still (t.adopt_hushed (t.machine.loadGame game))
  simp only
  generalize t.machine.loadGame game = out at hadopt ⊢
  cases out.fault with
  | some fault => exact hadopt
  | none =>
    have htitle := (unmoved_log { (t.adopt out).present (.title path.stem) with loaded := true }
      [.info s!"Loaded {path.name}."]).audio.trans (audio_present _ _)
    exact hadopt.still (hushed_of_eq rfl htitle)

theorem load_hushed (w : World) (s : Session) (path : Option Path) :
    Hushed s (s.load w path).1 False := by
  rcases s.load_eq_insert_or_unmoved w path with ⟨t, p, game, ht, -, hl⟩ | ⟨-, hm⟩
  · rw [hl]
    exact ht.hushed.still (t.insert_hushed p game)
  · exact hm.hushed

theorem handle_hushed (w : World) (s : Session) (keypad : Keypad) (events : List Event) :
    Hushed s (s.handle w keypad events).1 (.quit ∈ s.handled w keypad events) := by
  fun_induction handle w s keypad events with
  | case1 s keypad =>
    have hold := adopt_hushed { s with keypad := some keypad } (s.machine.hold keypad.code)
    refine Hushed.congr ⟨hold.buzzer, hold.audio, hold.pace, hold.ticks, hold.running⟩ ?_
    simp [handled]
  | case2 s keypad rest ih =>
    refine ⟨ih.buzzer, ih.audio, ih.pace, ih.ticks, ?_⟩
    rw [ih.running]
    simp [handled]
  | case3 s keypad rest t b hl =>
    have hload := s.load_hushed w none
    rw [hl] at hload
    refine Hushed.congr ⟨hload.buzzer, hload.audio, hload.pace, hload.ticks, hload.running⟩ ?_
    simp [handled, hl]
  | case4 s keypad rest t _ hl _ ih =>
    have hload := s.load_hushed w none
    rw [hl] at hload
    refine (hload.trans ih).congr ?_
    simp [handled, hl]
  | case5 s keypad event rest hq hr ih =>
    refine ((unmoved_log s _).hushed.trans ih).congr ?_
    simp [handled, hq, hr, Ne.symm hq]

theorem handleEvents_hushed (w : World) (s : Session) :
    Hushed s (s.handleEvents w).1 (.quit ∈ s.handledEvents w) := by
  cases hk : s.keypad with
  | none =>
    simp only [handleEvents, handledEvents, hk]
    exact (hushed_of_eq rfl rfl).congr (by simp)
  | some keypad =>
    have h := handle_hushed w { s with queue := [] } keypad s.queue
    simp only [handleEvents, handledEvents, hk] at h ⊢
    exact ⟨h.buzzer, h.audio, h.pace, h.ticks, h.running⟩

theorem takeSteps_hushed (w : World) (s : Session) (count : Nat) :
    Hushed s (s.takeSteps w count).1 False := by
  induction count generalizing s with
  | zero => exact hushed_of_eq rfl rfl
  | succ count ih =>
    have hstep := s.look_hushed.still (adopt_hushed _ (s.machine.step w.dice s.reading))
    rw [takeSteps_succ]
    split
    · exact hstep
    · exact hstep.still (ih _)

theorem refresh_machine (s : Session) : s.refresh.machine = s.machine.takeRedraw.2 := by
  simp only [refresh]
  split <;> rfl

theorem refresh_hushed (s : Session) : Hushed s s.refresh False := by
  simp only [refresh]
  split
  · exact hushed_of_eq rfl (audio_present { s with machine := s.machine.takeRedraw.2 } _)
  · exact hushed_of_eq rfl rfl

theorem collapse_hushed (s : Session) (b : Breakdown) : Hushed s (s.collapse b).1 False := by
  unfold collapse
  cases b with
  | system e => exact hushed_of_eq rfl rfl
  | fault f =>
    simp only
    split
    · exact (unmoved_log s _).hushed
    · exact hushed_of_eq rfl rfl

theorem sound_keeps (s : Session) (active : Bool) : (s.sound active).pace = s.pace ∧
    (s.sound active).ticks = s.ticks ∧ (s.sound active).running = s.running := by
  unfold sound
  cases s.buzzer <;> exact ⟨rfl, rfl, rfl⟩

/-- A frame that goes through ends with the buzzer, set to what the machine wants, and before that
all is hushed. -/
theorem frame_hushed (w : World) (s : Session) :
    ((s.frame w).2 ≠ none ∧ Hushed s (s.frame w).1 (.quit ∈ s.handledEvents w)) ∨
    ∃ t, s.frame w = (t.sound t.machine.bell, none) ∧
      Hushed s t (.quit ∈ s.handledEvents w) := by
  have hevents := s.handleEvents_hushed w
  unfold frame
  generalize s.handleEvents w = handled at hevents ⊢
  obtain ⟨t, _ | b⟩ := handled
  · have hsteps := hevents.still (t.takeSteps_hushed w (if t.loaded then t.pace else 0))
    simp only
    generalize t.takeSteps w (if t.loaded then t.pace else 0) = stepped at hsteps ⊢
    obtain ⟨u, _ | b⟩ := stepped
    · exact Or.inr ⟨u.refresh, rfl, hsteps.still u.refresh_hushed⟩
    · exact Or.inl ⟨Option.some_ne_none b, hsteps⟩
  · exact Or.inl ⟨Option.some_ne_none b, hevents⟩

end Chip8.Session
