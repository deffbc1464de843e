import Chip8.Proofs.Session.CleanStart

/-!
Presentation has no influence. The buzzer, the message boxes and the journal are written and never
read, so two sessions that agree in everything else go on agreeing, whatever happens to both.
-/
namespace Chip8.Session

/-- The session without what serves to present it. -/
def bare (s : Session) : Session := { s with buzzer := none, interactive := false, journal := [] }

/-- A result whose session is bare. -/
def bared {α : Type} (r : Session × α) : Session × α := (r.1.bare, r.2)

variable {w : World} {s t : Session}

theorem exists_of_bared {α : Type} {r r' : Session × α} (h : bared r = bared r') :
    ∃ s t a, r = (s, a) ∧ r' = (t, a) ∧ s.bare = t.bare := by
  obtain ⟨s, a⟩ := r
  obtain ⟨t, a'⟩ := r'
  obtain ⟨hbare, rfl⟩ := Prod.mk.inj h
  exact ⟨s, t, a, rfl, rfl, hbare⟩

theorem bare_sound (s : Session) (active : Bool) : (s.sound active).bare = s.bare := by
  unfold sound
  cases s.buzzer <;> rfl

theorem bare_reject (s : Session) (message : String) : (s.reject message).bare = s.bare := by
  simp only [reject]
  split <;> rfl

/-- What can be read off the bare session is the same for both. -/
theorem eq_of_bare {α : Type} (f : Session → α) (hf : ∀ u : Session, f u.bare = f u)
    (h : s.bare = t.bare) : f s = f t := by
  rw [← hf s, h, hf]

theorem machine_eq (h : s.bare = t.bare) : s.machine = t.machine :=
  eq_of_bare machine (fun _ => rfl) h

theorem reading_eq (h : s.bare = t.bare) : s.reading = t.reading :=
  eq_of_bare reading (fun _ => rfl) h

theorem bare_look (h : s.bare = t.bare) : s.look.bare = t.look.bare := congrArg look h

theorem bare_adopt (h : s.bare = t.bare) (out : Outcome) :
    (s.adopt out).bare = (t.adopt out).bare :=
  congrArg (fun u : Session => { u with machine := out.machine }) h

theorem bared_insert (h : s.bare = t.bare) (path : Path) (game : List UInt8) :
    bared (s.insert path game) = bared (t.insert path game) := by
  have hready : (if s.loaded then s.look.adopt (s.machine.reset s.reading) else s).bare =
      (if t.loaded then t.look.adopt (t.machine.reset t.reading) else t).bare := by
    rw [eq_of_bare loaded (fun _ => rfl) h, machine_eq h, reading_eq h]
    split
    · exact bare_adopt (bare_look h) _
    · exact h
  unfold insert
  generalize (if s.loaded then s.look.adopt (s.machine.reset s.reading) else s) = s' at hready
  generalize (if t.loaded then t.look.adopt (t.machine.reset t.reading) else t) = t' at hready
  simp only [machine_eq hready]
  generalize t'.machine.loadGame game = out
  have hadopt := bare_adopt hready out
  cases out.fault with
  | some fault => exact congrArg (·, _) hadopt
  | none => exact congrArg (fun u : Session => ({ u with loaded := true }, _)) hadopt

theorem bared_loadFrom (h : s.bare = t.bare) (path : Path) :
    bared (s.loadFrom w path) = bared (t.loadFrom w path) := by
  unfold loadFrom
  cases Cartridge.read w.files path with
  | lookFailed e | openFailed e => exact congrArg (·, _) h
  | rejected why =>
    simp only [bared, bare_reject, h]
  | game game =>
    have hlog : (s.log [Cartridge.announcement path]).bare =
        (t.log [Cartridge.announcement path]).bare := h
    exact bared_insert hlog path game

theorem bared_load (h : s.bare = t.bare) (path : Option Path) :
    bared (s.load w path) = bared (t.load w path) := by
  cases path with
  | some path => exact bared_loadFrom h path
  | none =>
    have hpicks : s.picks = t.picks := eq_of_bare picks (fun _ => rfl) h
    have hpicked : (s.pick w).2.bare = (t.pick w).2.bare :=
      congrArg (fun u : Session => { u with picks := u.picks.tail }) h
    simp only [load, pick, hpicks] at hpicked ⊢
    cases Picker.choice t.picks.head?.join with
    | none => exact congrArg (·, _) hpicked
    | some path => exact bared_loadFrom hpicked path

theorem bared_handle (h : s.bare = t.bare) (keypad : Keypad) (events : List Event) :
    bared (s.handle w keypad events) = bared (t.handle w keypad events) := by
  induction events generalizing s t keypad with
  | nil =>
    have hkeypad : bare { s with keypad := some keypad } = bare { t with keypad := some keypad } :=
      congrArg (fun u : Session => { u with keypad := some keypad }) h
    simp only [handle, machine_eq h]
    exact congrArg (·, _) (bare_adopt hkeypad _)
  | cons event rest ih =>
    unfold handle
    by_cases hq : event = .quit
    · rw [if_pos hq, if_pos hq]
      exact ih (congrArg (fun u : Session => { u with running := false }) h) keypad
    · rw [if_neg hq, if_neg hq]
      by_cases hr : event = .keyDown reloadKey
      · rw [if_pos hr, if_pos hr]
        obtain ⟨s', t', result, hs, ht, hbare⟩ := exists_of_bared (bared_load (w := w) h none)
        rw [hs, ht]
        cases result with
        | error b => exact congrArg (fun u : Session => ({ u with keypad := some keypad }, _)) hbare
        | ok _ => exact ih hbare keypad
      · rw [if_neg hr, if_neg hr]
        exact ih (s := s.log (Keypad.lines event)) (t := t.log (Keypad.lines event)) h _

theorem bared_handleEvents (h : s.bare = t.bare) :
    bared (s.handleEvents w) = bared (t.handleEvents w) := by
  have hkeypad : s.keypad = t.keypad := eq_of_bare keypad (fun _ => rfl) h
  have hqueue : s.queue = t.queue := eq_of_bare queue (fun _ => rfl) h
  unfold handleEvents
  rw [hkeypad, hqueue]
  cases t.keypad with
  | none => exact congrArg (·, _) h
  | some keypad =>
    have hread : bare { s with keypad := some keypad, queue := [] } =
        bare { t with keypad := some keypad, queue := [] } :=
      congrArg (fun u : Session => { u with keypad := some keypad, queue := [] }) h
    exact bared_handle hread keypad t.queue

theorem bared_takeSteps (h : s.bare = t.bare) (count : Nat) :
    bared (s.takeSteps w count) = bared (t.takeSteps w count) := by
  induction count generalizing s t with
  | zero => exact congrArg (·, _) h
  | succ count ih =>
    rw [takeSteps_succ, takeSteps_succ, machine_eq h, reading_eq h]
    have hstep := bare_adopt (bare_look h) (t.machine.step w.dice t.reading)
    cases (t.machine.step w.dice t.reading).fault with
    | some fault => exact congrArg (·, _) hstep
    | none => exact ih hstep

theorem bare_refresh (h : s.bare = t.bare) : s.refresh.bare = t.refresh.bare := by
  have hmachine : bare { s with machine := s.machine.takeRedraw.2 } =
      bare { t with machine := t.machine.takeRedraw.2 } :=
    congrArg (fun u : Session => { u with machine := u.machine.takeRedraw.2 }) h
  simp only [refresh, machine_eq h] at hmachine ⊢
  split <;> exact hmachine

theorem bared_frame (h : s.bare = t.bare) : bared (s.frame w) = bared (t.frame w) := by
  obtain ⟨s', t', b, hs, ht, hevents⟩ := exists_of_bared (bared_handleEvents (w := w) h)
  unfold frame
  rw [hs, ht]
  cases b with
  | some b => exact congrArg (·, _) hevents
  | none =>
    have hcount : (if s'.loaded then s'.pace else 0) = if t'.loaded then t'.pace else 0 :=
      eq_of_bare (fun u => if u.loaded then u.pace else 0) (fun _ => rfl) hevents
    obtain ⟨s'', t'', b, hs, ht, hsteps⟩ := exists_of_bared
      (bared_takeSteps (w := w) hevents (if t'.loaded then t'.pace else 0))
    simp only [hcount, hs, ht]
    cases b with
    | some b => exact congrArg (·, _) hsteps
    | none => simp only [bared, bare_sound, bare_refresh hsteps]

theorem bared_collapse (h : s.bare = t.bare) (b : Breakdown) :
    bared (s.collapse b) = bared (t.collapse b) := by
  cases b with
  | system e => exact congrArg (·, _) h
  | fault f =>
    simp only [collapse]
    split
    · exact congrArg (·, Ending.status 1) h
    · exact congrArg (·, _) h

theorem bared_loop (h : s.bare = t.bare) (script : List Tick) :
    bared (s.loop w script) = bared (t.loop w script) := by
  induction script generalizing s t with
  | nil =>
    obtain ⟨s', t', b, hs, ht, hframe⟩ := exists_of_bared (bared_frame (w := w) h)
    unfold loop
    rw [hs, ht, eq_of_bare running (fun _ => rfl) h]
    split
    · cases b with
      | some b => exact bared_collapse hframe b
      | none => exact congrArg (·, Ending.unfinished) hframe
    · exact congrArg (·, Ending.status 0) h
  | cons tick rest ih =>
    obtain ⟨s', t', b, hs, ht, hframe⟩ := exists_of_bared (bared_frame (w := w) h)
    unfold loop
    rw [hs, ht, eq_of_bare running (fun _ => rfl) h]
    split
    · cases b with
      | some b => exact bared_collapse hframe b
      | none =>
        have htick : (s'.tick tick).bare = (t'.tick tick).bare := congrArg (·.tick tick) hframe
        simp only
        split
        · exact congrArg (·, Ending.status 0) htick
        · exact ih htick
    · exact congrArg (·, Ending.status 0) h

theorem bared_run (h : s.bare = t.bare) (script : List Tick) :
    bared (s.run w script) = bared (t.run w script) := by
  have hrunning : bare { s with running := true } = bare { t with running := true } :=
    congrArg (fun u : Session => { u with running := true }) h
  have hloop := bared_loop (w := w) hrunning script
  simp only [run, bared, bare_sound] at hloop ⊢
  exact hloop

theorem bared_act (h : s.bare = t.bare) (activity : Activity) :
    bared (s.act w activity) = bared (t.act w activity) := by
  cases activity with
  | load path =>
    obtain ⟨s', t', result, hs, ht, hbare⟩ := exists_of_bared (bared_load (w := w) h path)
    rw [act, act, hs, ht]
    cases result <;> exact congrArg (·, _) hbare
  | post events => exact congrArg (fun u : Session => (u.post events, none)) h
  | frame => exact bared_frame h
  | run script =>
    obtain ⟨s', t', ending, hs, ht, hbare⟩ := exists_of_bared (bared_run (w := w) h script)
    rw [act, act, hs, ht]
    cases ending <;> exact congrArg (·, _) hbare
  | wait now => exact congrArg (fun u : Session => ({ u with now }, none)) h

theorem bare_after (h : s.bare = t.bare) (history : List Activity) :
    (s.after w history).bare = (t.after w history).bare := by
  induction history generalizing s t with
  | nil => exact h
  | cons activity rest ih => exact ih (congrArg Prod.fst (bared_act h activity))

/-- Two starts that go through agree but for the presentation, if both or neither has a keypad. -/
theorem bare_start {settings : Settings} {display display' : Display}
    {equipment equipment' : Equipment} {host host' : Host} {clock : Clock}
    {picks : List (Option String)}
    (hs : (start settings display equipment host clock picks).2 = .ok s)
    (ht : (start settings display' equipment' host' clock picks).2 = .ok t)
    (hk : equipment.keypad = equipment'.keypad) : s.bare = t.bare := by
  obtain ⟨_, pace, -, hp, rfl⟩ := start_eq_ok hs
  obtain ⟨_, pace', -, hp', rfl⟩ := start_eq_ok ht
  obtain rfl := Except.ok.inj (hp.symm.trans hp')
  rw [bare, bare, hk]

end Chip8.Session
