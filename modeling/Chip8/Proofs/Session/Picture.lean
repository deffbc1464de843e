import Chip8.Proofs.Session.Paint

/-!
The picture on the display. With the notice down, the display shows the screen of the machine. So
a frame that goes through leaves that screen on the display, and shows it only if the screen was
painted anew since the frame before.
-/
namespace Chip8

theorem Buzzer.screens_setUp (storage : Storage) (mixer : Option Mixer) (pitch volume : Int) :
    (Journal.record [] (setUp storage mixer pitch volume).1).screens = [] := by
  unfold setUp
  simp only
  split <;> cases mixer <;> rfl

namespace Session

/-- In the course of the activity the screen is painted anew. -/
def Repaints (w : World) (s : Session) : Activity → Prop
  | .load path => s.Replaces w path
  | .frame => s.FrameRepaints w
  | .run script => ∃ t ∈ frames w { s with running := true } script, t.FrameRepaints w
  | .post _ | .wait _ => False

def RepaintsIn (w : World) (s : Session) : List Activity → Prop
  | [] => False
  | activity :: rest => s.Repaints w activity ∨ RepaintsIn w (s.act w activity).1 rest

/-- The screen that was shown last. Before the first one the display is blank. -/
def shown (s : Session) : Screen := s.journal.screens.getLastD .blank

/-- Nothing in the history breaks down. -/
def Unbroken (w : World) (s : Session) : List Activity → Prop
  | [] => True
  | activity :: rest => (s.act w activity).2 = none ∧ Unbroken w (s.act w activity).1 rest

/-- The frame that begins in `s` shows the screen it ends with, once, if `p`, and otherwise shows
nothing. -/
structure ShowsIf (w : World) (s : Session) (p : Prop) : Prop where
  once : p → (s.frame w).1.journal.screens = s.journal.screens ++ [(s.frame w).1.machine.screen]
  nothing : ¬p → (s.frame w).1.journal.screens = s.journal.screens

variable {w : World} {s t : Session} {p : Prop}

theorem act_painted {activity : Activity} (hf : activity ≠ .frame)
    (hr : ∀ script, activity ≠ .run script) :
    Painted s (s.act w activity).1 (s.Repaints w activity) := by
  cases activity with
  | load path =>
    rw [act_load]
    exact s.load_painted w path
  | post events | wait now => exact .of_eq rfl rfl rfl
  | frame => exact absurd rfl hf
  | run script => exact absurd rfl (hr script)

theorem after_frame (w : World) (s : Session) (before : List Activity) :
    s.after w (before ++ [.frame]) = ((s.after w before).frame w).1 :=
  after_append w s before [.frame]

theorem repaintsIn_append (s : Session) (first second : List Activity) :
    s.RepaintsIn w (first ++ second) ↔
      s.RepaintsIn w first ∨ (s.after w first).RepaintsIn w second := by
  induction first generalizing s with
  | nil => exact (or_iff_right id).symm
  | cons activity rest ih =>
    rw [List.cons_append, RepaintsIn, RepaintsIn, ih, or_assoc]
    rfl

theorem unbroken_append (s : Session) (first second : List Activity) :
    s.Unbroken w (first ++ second) ↔ s.Unbroken w first ∧ (s.after w first).Unbroken w second := by
  induction first generalizing s with
  | nil => exact (and_iff_right trivial).symm
  | cons activity rest ih =>
    rw [List.cons_append, Unbroken, Unbroken, ih, and_assoc]
    rfl

/-- Between two frames the screen is painted by nothing but loads. -/
theorem after_painted {between : List Activity} (hf : .frame ∉ between)
    (hr : ∀ script, .run script ∉ between) :
    Painted s (s.after w between) (s.RepaintsIn w between) := by
  induction between generalizing s with
  | nil => exact .of_eq rfl rfl rfl
  | cons activity rest ih =>
    have hact := act_painted (w := w) (s := s) (List.ne_of_not_mem_cons hf).symm
      fun script => (List.ne_of_not_mem_cons (hr script)).symm
    exact hact.trans (ih (List.not_mem_of_not_mem_cons hf)
      fun script => List.not_mem_of_not_mem_cons (hr script))

/-- With the notice down the display shows the screen of the machine. -/
def UpToDate (s : Session) : Prop := s.machine.redraw = false → s.shown = s.machine.screen

theorem Painted.upToDate (h : Painted s t p) (hs : s.UpToDate) : t.UpToDate := by
  intro hdown
  have hquiet : ¬(s.machine.redraw = true ∨ p) := by
    rw [← h.redraw, hdown]
    exact Bool.false_ne_true
  rw [not_or, Bool.not_eq_true] at hquiet
  rw [shown, h.screens, h.screen hquiet.2]
  exact hs hquiet.1

theorem frame_upToDate (hm : s.machine.InBounds) (hs : s.UpToDate) (h : (s.frame w).2 = none) :
    (s.frame w).1.machine.redraw = false ∧ (s.frame w).1.shown = (s.frame w).1.machine.screen := by
  obtain ⟨t, hp, hredraw, hscreen, hscreens⟩ := frame_shows hm h
  refine ⟨hredraw, ?_⟩
  rw [shown, hscreens, hscreen]
  cases hr : t.machine.redraw with
  | false =>
    rw [if_neg Bool.false_ne_true, List.append_nil]
    exact hp.upToDate hs hr
  | true =>
    rw [if_pos rfl, List.getLastD_concat]

theorem after_upToDate {history : List Activity} (hm : s.machine.InBounds) (hs : s.UpToDate)
    (hr : ∀ script, .run script ∉ history) (hu : s.Unbroken w history) :
    (s.after w history).machine.InBounds ∧ (s.after w history).UpToDate := by
  induction history generalizing s with
  | nil => exact ⟨hm, hs⟩
  | cons activity rest ih =>
    have hrest : ∀ script, .run script ∉ rest :=
      fun script => List.not_mem_of_not_mem_cons (hr script)
    refine ih ((kept_inBounds w).act hm activity) ?_ hrest hu.2
    by_cases hf : activity = .frame
    · subst hf
      exact fun _ => (frame_upToDate hm hs hu.1).2
    · exact (act_painted hf fun script =>
        (List.ne_of_not_mem_cons (hr script)).symm).upToDate hs

theorem setUpBuzzer_screens (wanted : Bool) (host : Host) :
    (Journal.record [] (setUpBuzzer wanted host).1).screens = [] := by
  unfold setUpBuzzer
  split
  · exact Buzzer.screens_setUp _ _ _ _
  · rfl

/-- Setting up a session shows no screen. -/
theorem start_screens (settings : Settings) (display : Display) (equipment : Equipment)
    (host : Host) (clock : Clock) (picks : List (Option String)) :
    (start settings display equipment host clock picks).1.screens = [] := by
  have hshown : (Journal.record [] ((if equipment.keypad then [.audio (.request .standard)] else [])
      ++ [.present .start])).screens = [] := by
    split <;> rfl
  unfold start
  simp only
  generalize Journal.record [] (_ ++ [.present .start]) = shown at hshown ⊢
  have hjournal : (shown.record (setUpBuzzer equipment.buzzer host).1).screens = [] := by
    rw [Journal.screens_record, hshown, setUpBuzzer_screens, List.append_nil]
  cases display.opening host.window with
  | error e => exact hshown
  | ok _ =>
    simp only
    repeat' split
    all_goals exact hjournal

theorem start_unshown {settings : Settings} {display : Display} {equipment : Equipment}
    {host : Host} {clock : Clock} {picks : List (Option String)}
    (h : (start settings display equipment host clock picks).2 = .ok s) :
    s.journal.screens = [] := by
  obtain ⟨buzzer, pace, -, -, rfl⟩ := start_eq_ok h
  exact start_screens settings display equipment host clock picks

theorem New.upToDate (hs : s.New) (hj : s.journal.screens = []) :
    s.machine.InBounds ∧ s.UpToDate ∧ s.machine.redraw = false := by
  obtain ⟨settings, now, hm⟩ := hs.machine
  rw [UpToDate, shown, hj, hm]
  exact ⟨Machine.fresh_inBounds settings now, fun _ => rfl, rfl⟩

theorem Unbroken.of_isPrefix {first history : List Activity} (h : s.Unbroken w history)
    (hp : first <+: history) : s.Unbroken w first := by
  obtain ⟨rest, rfl⟩ := hp
  exact ((s.unbroken_append first rest).1 h).1

/-- The next frame of a session whose notice is down shows what was painted on the way. -/
theorem next_frame_shows {between : List Activity} (hm : (s.after w between).machine.InBounds)
    (hdown : s.machine.redraw = false) (hf : .frame ∉ between)
    (hr : ∀ script, .run script ∉ between) (h : ((s.after w between).frame w).2 = none) :
    (s.after w between).ShowsIf w (s.RepaintsIn w (between ++ [.frame])) := by
  obtain ⟨t, hp, -, hscreen, hscreens⟩ := frame_shows hm h
  have hnotice : t.machine.redraw = true ↔ s.RepaintsIn w (between ++ [.frame]) := by
    rw [((after_painted hf hr).trans hp).redraw, hdown, repaintsIn_append, RepaintsIn, RepaintsIn,
      Repaints, or_false, or_iff_right Bool.false_ne_true]
  constructor
  · intro hrepaint
    rw [hscreens, hscreen, hp.screens, if_pos (hnotice.2 hrepaint)]
  · intro hnot
    rw [hscreens, hp.screens, if_neg (mt hnotice.1 hnot), List.append_nil]

/-- The frames of a session whose loads and frames go through. Each leaves the screen of the
machine on the display. It shows it, once, if the screen was painted anew since the frame before
or since the start, and otherwise shows nothing. -/
theorem picture_current {history : List Activity} (hs : s.New) (hj : s.journal.screens = [])
    (hr : ∀ script, .run script ∉ history) (hu : s.Unbroken w history) :
    (∀ before, before ++ [.frame] <+: history →
      (s.after w (before ++ [.frame])).shown = (s.after w (before ++ [.frame])).machine.screen) ∧
    ∀ before between, before ++ between ++ [.frame] <+: history →
      (before = [] ∨ ∃ earlier, before = earlier ++ [.frame]) → .frame ∉ between →
        (s.after w (before ++ between)).ShowsIf w
          ((s.after w before).RepaintsIn w (between ++ [.frame])) := by
  obtain ⟨hm, hcurrent, hdown⟩ := hs.upToDate hj
  -- Every frame of the history goes through, on a session that is up to date.
  have hframe : ∀ before, before ++ [.frame] <+: history →
      (s.after w before).machine.InBounds ∧ (s.after w before).UpToDate ∧
        ((s.after w before).frame w).2 = none := by
    intro before hp
    obtain ⟨hbefore, hlast, -⟩ := (s.unbroken_append before [.frame]).1 (hu.of_isPrefix hp)
    have hr' : ∀ script, .run script ∉ before :=
      fun script hrun => hr script (hp.subset (List.mem_append_left _ hrun))
    obtain ⟨hm', hs'⟩ := after_upToDate hm hcurrent hr' hbefore
    exact ⟨hm', hs', hlast⟩
  have hshown : ∀ before, before ++ [.frame] <+: history →
      (s.after w (before ++ [.frame])).machine.redraw = false ∧
        (s.after w (before ++ [.frame])).shown =
          (s.after w (before ++ [.frame])).machine.screen := by
    intro before hp
    obtain ⟨hm', hs', hok⟩ := hframe before hp
    rw [after_frame]
    exact frame_upToDate hm' hs' hok
  refine ⟨fun before hp => (hshown before hp).2, ?_⟩
  intro before between hp hstart hf
  obtain ⟨hm', -, hok⟩ := hframe (before ++ between) hp
  -- The window opens with the notice down, at the start or behind a frame.
  have hlow : (s.after w before).machine.redraw = false := by
    obtain rfl | ⟨earlier, rfl⟩ := hstart
    · exact hdown
    · refine (hshown earlier (List.IsPrefix.trans ?_ hp)).1
      rw [List.append_assoc _ between]
      exact List.prefix_append _ _
  have hr' : ∀ script, .run script ∉ between := fun script hrun =>
    hr script (hp.subset (List.mem_append_left _ (List.mem_append_right _ hrun)))
  rw [after_append] at hm' hok ⊢
  exact next_frame_shows hm' hlow hf hr' hok

/-- A world whose files all hold the game that clears the screen. -/
def wipingWorld : World := { stillWorld with files := fun _ => .file (.ofBytes [0x00, 0xe0]) }

/-- A session that takes one step in a frame. -/
def stepper (settings : Settings) : Session where
  machine := .fresh settings 0
  pace := 1

/-- The session with that game put into the machine. -/
def wiping (s : Session) (journal : Journal) : Session :=
  { s with
    machine := { s.machine with
      memory := s.machine.memory.overlay gameStart [0x00, 0xe0]
      counter := gameStart }
    loaded := true
    journal := journal }

/-- The first load puts the game into the machine. -/
theorem load_wiping (hl : s.loaded = false) {path : Path} (h : Cartridge.IsGame path) :
    ∃ journal, s.load wipingWorld (some path) = (s.wiping journal, .ok true) := by
  have hread : Cartridge.read wipingWorld.files path = .game [0x00, 0xe0] :=
    Cartridge.read_eq_game_iff.2 ⟨⟨_, rfl, rfl⟩, h, by decide⟩
  have hloaded : (s.log [Cartridge.announcement path]).loaded = false := hl
  have hfits : ([0x00, 0xe0] : List UInt8).length ≤ gameCapacity := by decide
  rw [load, loadFrom, hread]
  simp only [insert, hloaded, (Machine.loadGame_of_le hfits).1, (Machine.loadGame_of_le hfits).2,
    Bool.false_eq_true, if_false, adopt]
  exact ⟨_, rfl⟩

theorem wiping_inBounds {settings : Settings} {now : Float} (hm : s.machine = .fresh settings now)
    (journal : Journal) : (s.wiping journal).machine.InBounds := by
  rw [wiping, hm]
  exact (Machine.fresh_inBounds settings now).congr rfl rfl rfl

/-- The game clears the screen in its first step. -/
theorem paints_of_wiping (hm : s.machine.InBounds) {base : Memory}
    (hmemory : s.machine.memory = base.overlay gameStart [0x00, 0xe0])
    (hc : s.machine.counter = gameStart) : s.Paints wipingWorld := by
  have hclear : s.machine.Next .clear :=
    Machine.next_of_game 0 hmemory hc (by decide) (by decide) rfl
  exact ⟨⟨.clear, hclear, trivial⟩, Machine.step_fault_of_next hm hclear⟩

/-- The frame of a single step, once its events are handled. -/
theorem frame_of_paints (hevents : s.handleEvents w = (t, none)) (hl : t.loaded = true)
    (hp : t.pace = 1) (h : t.Paints w) : (s.frame w).2 = none ∧ s.FrameRepaints w := by
  have hcount : (if t.loaded then t.pace else 0) = 1 := by rw [hl, if_pos rfl, hp]
  constructor
  · simp only [frame, hevents, hcount, takeSteps_succ, h.2, takeSteps_zero]
  · refine Or.inr ⟨t, ?_, h⟩
    simp only [frameSteps, hevents, hcount, stepStarts_succ, h.2]
    exact List.mem_cons_self

theorem picture_current_wiping :
    let first : List Activity := [.load (some ⟨0, ["wipe.ch8"]⟩)]
    let last := (stepper {}).after wipingWorld (first ++ [.frame])
    ((stepper {}).New ∧ (stepper {}).journal.screens = [] ∧
      (∀ script, .run script ∉ first ++ [.frame]) ∧
      (stepper {}).Unbroken wipingWorld (first ++ [.frame])) ∧
    last.shown = last.machine.screen ∧ last.journal.screens = [last.machine.screen] := by
  intro first last
  have hmachine : (stepper {}).machine = .fresh {} 0 := rfl
  have hnew : (stepper {}).New := ⟨⟨{}, 0, hmachine⟩, rfl⟩
  have hgame : Cartridge.IsGame ⟨0, ["wipe.ch8"]⟩ := by decide +kernel
  obtain ⟨journal, hload⟩ := load_wiping (s := stepper {}) rfl hgame
  have hact : (stepper {}).act wipingWorld (.load (some ⟨0, ["wipe.ch8"]⟩)) =
      ((stepper {}).wiping journal, none) := by
    rw [act, hload]
  have hfirst : (stepper {}).after wipingWorld first = (stepper {}).wiping journal :=
    congrArg Prod.fst hact
  have hpaints : ((stepper {}).wiping journal).Paints wipingWorld :=
    paints_of_wiping (wiping_inBounds hmachine journal) rfl rfl
  obtain ⟨hok, hrepaint⟩ := frame_of_paints (handleEvents_of_none rfl) rfl rfl hpaints
  have hrun : ∀ script, .run script ∉ first ++ [.frame] := by simp [first]
  have hu : (stepper {}).Unbroken wipingWorld (first ++ [.frame]) := by
    rw [unbroken_append, hfirst]
    exact ⟨⟨congrArg Prod.snd hact, trivial⟩, hok, trivial⟩
  have hpainted : (stepper {}).RepaintsIn wipingWorld (first ++ [.frame]) := by
    rw [repaintsIn_append, hfirst]
    exact Or.inr (Or.inl hrepaint)
  have hblank : ((stepper {}).wiping journal).journal.screens = [] := by
    have h := (stepper {}).load_painted wipingWorld (some ⟨0, ["wipe.ch8"]⟩)
    rw [hload] at h
    exact h.screens
  obtain ⟨hshown, hframe⟩ := picture_current hnew rfl hrun hu
  have hlast := (hframe [] first (List.prefix_refl _) (Or.inl rfl) (by simp [first])).once hpainted
  rw [List.nil_append, hfirst, hblank] at hlast
  have hafter : last = (((stepper {}).wiping journal).frame wipingWorld).1 := by
    rw [← hfirst]
    exact (stepper {}).after_frame wipingWorld first
  have hcurrent := hshown first (List.prefix_refl _)
  rw [after_frame, hfirst] at hcurrent
  rw [hafter]
  exact ⟨⟨hnew, rfl, hrun, hu⟩, hcurrent, hlast⟩

end Session

end Chip8
