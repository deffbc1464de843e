import Chip8.Proofs.Session.Hush
import Chip8.Proofs.Session.Paint
import Mathlib.Data.List.Chain

/-!
How a run ends. It fails exactly if a step fails, and this step is the last thing that happens. Or
else it goes on, frame after frame with all their steps and a tick behind each, up to the frame
that reads that the window was closed or to a tick that interrupts it.
-/
namespace Chip8

namespace Session

/-- The next step fails with a fault that stops the emulation. -/
def Crashes (w : World) (s : Session) : Prop :=
  ∃ fault, (s.machine.step w.dice s.reading).fault = some fault ∧ fault.StopsEmulation

/-- The events that a frame takes out of the queue. Without a keypad it takes none. -/
def drained (s : Session) : List Event := s.keypad.elim [] fun _ => s.queue

/-- The number of steps for which a frame has time, once its events are handled. -/
def stepCount (w : World) (s : Session) : Nat :=
  if (s.handleEvents w).1.loaded then s.pace else 0

/-- The frame that begins in `t` is cut short by a step that fails, and nothing is shown or ticks
before `final`. -/
structure Crashed (w : World) (t final : Session) : Prop where
  step : ∃ before u, t.frameSteps w = before ++ [u] ∧ (∀ v ∈ before, ¬v.Crashes w) ∧
    u.Crashes w ∧ final.machine = (u.machine.step w.dice u.reading).machine
  screens : final.journal.screens = t.journal.screens
  ticks : final.ticks = t.ticks

/-- The frame that begins in `t` takes all its steps, and one tick leads to `next`. -/
structure Completed (w : World) (t next : Session) : Prop where
  steps : (t.frameSteps w).length = t.stepCount w
  machine : next.machine = ((t.handleEvents w).1.machine.played w.dice
    ((t.frameSteps w).map reading)).takeRedraw.2
  ticks : next.ticks = t.ticks + 1
  pace : next.pace = t.pace

/-- How a run at the given pace ends with the status `code`. Its frames begin in `starts`, and
`final` is what it leaves; so behind each frame comes the start of the next one or `final`. -/
structure Ended (w : World) (pace : Nat) (script : List Tick) (starts : List Session)
    (final : Session) (code : Nat) : Prop where
  status : code = 1 ↔ ∃ t ∈ starts, ∃ u ∈ t.frameSteps w, u.Crashes w
  failed : code = 1 → ∃ earlier t, starts = earlier ++ [t] ∧
    (∀ t ∈ earlier, ∀ u ∈ t.frameSteps w, ¬u.Crashes w) ∧ Crashed w t final
  stopped : code ≠ 1 → code = 0 ∧ ∃ earlier t tick, starts = earlier ++ [t] ∧
    script[earlier.length]? = some tick ∧ (tick.interrupted = true ∨ .quit ∈ t.drained)
  completed : (starts ++ [final]).IsChain fun t next =>
    (∀ u ∈ t.frameSteps w, ¬u.Crashes w) → Completed w t next
  last : ∀ earlier t, earlier ++ [t] <+: starts → .quit ∈ t.drained → starts = earlier ++ [t]
  pace : ∀ t ∈ starts, t.pace = pace

variable {w : World} {s t final : Session} {script : List Tick} {starts : List Session}
  {code : Nat}

theorem crashes_iff : s.Crashes w ↔ (s.machine.step w.dice s.reading).fault ≠ none := by
  constructor
  · rintro ⟨fault, hf, -⟩
    rw [hf]
    exact Option.some_ne_none fault
  · intro hf
    obtain ⟨fault, hf⟩ := Option.ne_none_iff_exists'.1 hf
    exact ⟨fault, hf, Machine.stops_of_step hf⟩

/-- Either all steps go through or the last that is taken fails. -/
theorem takeSteps_cases (w : World) (s : Session) (count : Nat) :
    ((s.takeSteps w count).2 = none ∧ (s.stepStarts w count).length = count ∧
      (∀ u ∈ s.stepStarts w count, ¬u.Crashes w) ∧ (s.takeSteps w count).1.machine =
        s.machine.played w.dice ((s.stepStarts w count).map reading)) ∨
    ∃ fault before u, (s.takeSteps w count).2 = some (.fault fault) ∧ fault.StopsEmulation ∧
      s.stepStarts w count = before ++ [u] ∧ (∀ v ∈ before, ¬v.Crashes w) ∧ u.Crashes w ∧
      (s.takeSteps w count).1.machine = (u.machine.step w.dice u.reading).machine := by
  induction count generalizing s with
  | zero =>
    rw [takeSteps_zero, stepStarts_zero]
    exact Or.inl ⟨rfl, rfl, by simp, rfl⟩
  | succ count ih =>
    rw [takeSteps_succ, stepStarts_succ]
    cases hf : (s.machine.step w.dice s.reading).fault with
    | some fault =>
      have hstops := Machine.stops_of_step hf
      exact Or.inr ⟨fault, [], s, rfl, hstops, rfl, by simp, ⟨fault, hf, hstops⟩, rfl⟩
    | none =>
      have hs : ¬s.Crashes w := fun hc => crashes_iff.1 hc hf
      rcases ih (s.look.adopt (s.machine.step w.dice s.reading)) with
        ⟨hok, hlength, hrest, hmachine⟩ | ⟨fault, before, u, hb, hstops, hu, hbefore, hc, hmachine⟩
      · refine Or.inl ⟨hok, congrArg (· + 1) hlength, List.forall_mem_cons.2 ⟨hs, hrest⟩, ?_⟩
        exact hmachine
      · refine Or.inr ⟨fault, s :: before, u, hb, hstops, congrArg (s :: ·) hu,
          List.forall_mem_cons.2 ⟨hs, hbefore⟩, hc, hmachine⟩

theorem handle_ne_fault (w : World) (s : Session) (keypad : Keypad) (events : List Event)
    (fault : Fault) : (s.handle w keypad events).2 ≠ some (.fault fault) := by
  fun_induction handle w s keypad events with
  | case1 => exact (Option.some_ne_none _).symm
  | case2 _ _ _ ih | case4 _ _ _ _ _ _ _ ih | case5 _ _ _ _ _ _ ih => exact ih
  | case3 s keypad rest t b hl =>
    intro hb
    have hload : (s.load w none).2 ≠ .error (.fault fault) := load_ne_fault fault
    rw [hl] at hload
    exact hload (congrArg Except.error (Option.some.inj hb))

/-- Nothing but a load that meets an error of the system breaks the handling of events down. -/
theorem handleEvents_eq_some {b : Breakdown} (h : (s.handleEvents w).2 = some b) :
    ∃ e, b = .system e := by
  cases b with
  | system e => exact ⟨e, rfl⟩
  | fault fault =>
    unfold handleEvents at h
    cases hk : s.keypad with
    | none =>
      rw [hk] at h
      cases h
    | some keypad =>
      rw [hk] at h
      exact absurd h (handle_ne_fault w _ keypad s.queue fault)

theorem handledEvents_eq_drained (h : (s.handleEvents w).2 = none) :
    s.handledEvents w = s.drained := by
  cases hk : s.keypad with
  | none => simp only [handledEvents, drained, hk, Option.elim_none]
  | some keypad => simp only [(handleEvents_complete hk h).1, drained, hk, Option.elim_some]

theorem takeSteps_screens (w : World) (s : Session) (count : Nat) :
    (s.takeSteps w count).1.journal.screens = s.journal.screens := by
  induction count generalizing s with
  | zero => rfl
  | succ count ih =>
    have hstep : (s.look.adopt (s.machine.step w.dice s.reading)).journal.screens =
        s.journal.screens := screens_log _ _
    rw [takeSteps_succ]
    split
    · exact hstep
    · exact (ih _).trans hstep

theorem stepCount_eq (w : World) (s : Session) : s.stepCount w =
    if (s.handleEvents w).1.loaded then (s.handleEvents w).1.pace else 0 := by
  rw [stepCount, (s.handleEvents_hushed w).pace]

theorem frameSteps_of_handled (hb : (s.handleEvents w).2 = none) :
    s.frameSteps w = (s.handleEvents w).1.stepStarts w (s.stepCount w) := by
  have hh : s.handleEvents w = ((s.handleEvents w).1, none) := Prod.ext rfl hb
  rw [stepCount_eq, frameSteps, hh]

theorem frame_of_handled {b : Option Breakdown} (hb : (s.handleEvents w).2 = none)
    (h : (s.handleEvents w).1.takeSteps w (s.stepCount w) = (t, b)) :
    s.frame w = b.elim (t.refresh.sound t.refresh.machine.bell, none) fun b => (t, some b) := by
  have hh : s.handleEvents w = ((s.handleEvents w).1, none) := Prod.ext rfl hb
  rw [stepCount_eq] at h
  generalize (s.handleEvents w).1 = handled at hh h
  cases b <;> simp only [frame, hh, h, Option.elim_none, Option.elim_some]

/-- A frame breaks down in a load, or is cut short by a step, or goes through with all its
steps. -/
theorem frame_cases (w : World) (s : Session) :
    (∃ e, (s.frame w).2 = some (.system e)) ∨
    (∃ fault, (s.frame w).2 = some (.fault fault) ∧ fault.StopsEmulation ∧
      Crashed w s (s.frame w).1) ∨
    ((s.frame w).2 = none ∧ (∀ u ∈ s.frameSteps w, ¬u.Crashes w) ∧
      (∀ tick, Completed w s ((s.frame w).1.tick tick)) ∧
      ((s.frame w).1.running = true ↔ s.running = true ∧ .quit ∉ s.drained)) := by
  cases hb : (s.handleEvents w).2 with
  | some b =>
    obtain ⟨e, rfl⟩ := handleEvents_eq_some hb
    have hh : s.handleEvents w = ((s.handleEvents w).1, some (.system e)) :=
      Prod.ext rfl hb
    refine Or.inl ⟨e, ?_⟩
    rw [frame, hh]
  | none =>
    have hevents := s.handleEvents_hushed w
    rw [handledEvents_eq_drained hb] at hevents
    have hscreens := (s.handleEvents_painted w).screens
    have hhushed := hevents.still (takeSteps_hushed w _ (s.stepCount w))
    have hshown := (takeSteps_screens w _ (s.stepCount w)).trans hscreens
    have hsteps := takeSteps_cases w (s.handleEvents w).1 (s.stepCount w)
    rw [← frameSteps_of_handled hb] at hsteps
    obtain ⟨t, b, hend⟩ : ∃ t b, (s.handleEvents w).1.takeSteps w (s.stepCount w) = (t, b) :=
      ⟨_, _, rfl⟩
    rw [frame_of_handled hb hend]
    rw [hend] at hsteps hhushed hshown
    rcases hsteps with ⟨hok, hlength, hflawless, hmachine⟩ |
      ⟨fault, before, u, hf, hstops, hu, hbefore, hc, hmachine⟩
    · obtain rfl : b = none := hok
      have hrefresh := hhushed.still t.refresh_hushed
      obtain ⟨hpace, hticks, hrunning⟩ := t.refresh.sound_keeps t.refresh.machine.bell
      refine Or.inr (Or.inr ⟨rfl, hflawless, fun tick => ⟨hlength, ?_, ?_, ?_⟩, ?_⟩)
      · calc
          _ = t.refresh.machine := (t.refresh.sound_unseen _).1
          _ = t.machine.takeRedraw.2 := t.refresh_machine
          _ = _ := congrArg (·.takeRedraw.2) hmachine
      · calc
          _ = t.refresh.ticks + 1 := congrArg (· + 1) hticks
          _ = s.ticks + 1 := congrArg (· + 1) hrefresh.ticks
      · exact hpace.trans hrefresh.pace
      · rw [Option.elim_none, hrunning]
        exact hrefresh.running
    · obtain rfl : b = some (.fault fault) := hf
      exact Or.inr (Or.inl ⟨fault, rfl, hstops, ⟨before, u, hu, hbefore, hc, hmachine⟩, hshown,
        hhushed.ticks⟩)

theorem completed_of_frame (hf : s.frame w = (t, none)) : (∀ u ∈ s.frameSteps w, ¬u.Crashes w) ∧
    (∀ tick, Completed w s (t.tick tick)) ∧
    (t.running = true ↔ s.running = true ∧ .quit ∉ s.drained) := by
  have hframe := s.frame_cases w
  rw [hf] at hframe
  obtain ⟨e, hb⟩ | ⟨fault, hb, -⟩ | ⟨-, hcompleted⟩ := hframe
  · cases hb
  · cases hb
  · exact hcompleted

theorem Crashed.exists_crash (h : Crashed w s final) :
    ∃ u ∈ s.frameSteps w, u.Crashes w := by
  obtain ⟨before, u, hsteps, -, hc, -⟩ := h.step
  exact ⟨u, hsteps ▸ List.mem_append_right before List.mem_cons_self, hc⟩

theorem Crashed.ended (h : Crashed w s final) (script : List Tick) :
    Ended w s.pace script [s] final 1 := by
  have hcrash := h.exists_crash
  refine ⟨iff_of_true rfl ⟨s, List.mem_cons_self, hcrash⟩, ?_, fun hn => absurd rfl hn, ?_, ?_,
    List.forall_mem_singleton.2 rfl⟩
  · exact fun _ => ⟨[], s, rfl, by simp, h⟩
  · obtain ⟨u, hu, hc⟩ := hcrash
    exact List.isChain_pair.2 fun hn => absurd hc (hn u hu)
  · intro earlier t hp _
    obtain ⟨rfl, rfl⟩ := concat_prefix_singleton_iff.1 hp
    rfl

theorem Completed.ended (h : Completed w s final) (hs : ∀ u ∈ s.frameSteps w, ¬u.Crashes w)
    {tick : Tick} (he : tick.interrupted = true ∨ .quit ∈ s.drained) (rest : List Tick) :
    Ended w s.pace (tick :: rest) [s] final 0 := by
  refine ⟨iff_of_false Nat.zero_ne_one ?_, fun hn => absurd hn Nat.zero_ne_one, ?_, ?_, ?_,
    List.forall_mem_singleton.2 rfl⟩
  · rintro ⟨t, ht, u, hu, hc⟩
    obtain rfl := List.mem_singleton.1 ht
    exact hs u hu hc
  · exact fun _ => ⟨rfl, [], s, tick, rfl, rfl, he⟩
  · exact List.isChain_pair.2 fun _ => h
  · intro earlier t hp _
    obtain ⟨rfl, rfl⟩ := concat_prefix_singleton_iff.1 hp
    rfl

/-- One more frame, before a run whose first frame begins in `t`. -/
theorem Ended.cons {later : List Session} (h : Ended w t.pace script (t :: later) final code)
    (ht : Completed w s t) (hs : ∀ u ∈ s.frameSteps w, ¬u.Crashes w) (hq : .quit ∉ s.drained)
    (tick : Tick) : Ended w s.pace (tick :: script) (s :: t :: later) final code where
  status := by
    rw [h.status, List.exists_mem_cons_iff (l := t :: later)]
    refine (or_iff_right ?_).symm
    rintro ⟨u, hu, hc⟩
    exact hs u hu hc
  failed hcode := by
    obtain ⟨earlier, last, he, hearlier, hcrashed⟩ := h.failed hcode
    exact ⟨s :: earlier, last, congrArg (s :: ·) he, List.forall_mem_cons.2 ⟨hs, hearlier⟩,
      hcrashed⟩
  stopped hcode := by
    obtain ⟨hzero, earlier, last, tick', he, htick, hend⟩ := h.stopped hcode
    exact ⟨hzero, s :: earlier, last, tick', congrArg (s :: ·) he, htick, hend⟩
  completed := List.isChain_cons_cons.2 ⟨fun _ => ht, h.completed⟩
  last := by
    intro earlier last hp hquit
    cases earlier with
    | nil =>
      obtain rfl : last = s := (List.cons_prefix_cons.1 hp).1
      exact absurd hquit hq
    | cons u earlier =>
      obtain ⟨rfl, hrest⟩ := List.cons_prefix_cons.1 hp
      exact congrArg _ (h.last earlier last hrest hquit)
  pace := List.forall_mem_cons.2 ⟨rfl, ht.pace ▸ h.pace⟩

/-- The buzzer has no part in how a run ends. -/
theorem Ended.sound {pace : Nat} (h : Ended w pace script starts final code) (active : Bool) :
    Ended w pace script starts (final.sound active) code := by
  obtain ⟨hmachine, hscreens⟩ := final.sound_unseen active
  obtain ⟨hpace, hticks, -⟩ := final.sound_keeps active
  refine ⟨h.status, ?_, h.stopped, ?_, h.last, h.pace⟩
  · intro hcode
    obtain ⟨earlier, last, he, hearlier, ⟨before, u, hu, hbefore, hc, hm⟩, hs, ht⟩ := h.failed hcode
    exact ⟨earlier, last, he, hearlier, ⟨before, u, hu, hbefore, hc, hmachine.trans hm⟩,
      hscreens.trans hs, hticks.trans ht⟩
  · obtain ⟨hchain, -, hlast⟩ := List.isChain_append.1 h.completed
    refine List.isChain_append.2 ⟨hchain, .singleton _, ?_⟩
    intro last hl next hn hs
    obtain rfl := Option.some.inj hn
    obtain ⟨hsteps, hm, ht, hp⟩ := hlast last hl final rfl hs
    exact ⟨hsteps, hmachine.trans hm, hticks.trans ht, hpace.trans hp⟩

theorem exists_frames_eq_cons (w : World) (hs : s.running = true) (script : List Tick) :
    ∃ later, s.frames w script = s :: later := by
  unfold frames
  rw [if_pos hs]
  split
  · split <;> exact ⟨_, rfl⟩
  · exact ⟨_, rfl⟩

/-- A session that is told to stop starts no further frame. -/
theorem loop_of_not_running (w : World) (hs : ¬s.running = true) (script : List Tick) :
    s.loop w script = (s, .status 0) ∧ s.frames w script = [] := by
  unfold loop frames
  rw [if_neg hs, if_neg hs]
  exact ⟨rfl, rfl⟩

theorem Crashed.log (h : Crashed w s final) (lines : List Line) : Crashed w s (final.log lines) :=
  ⟨h.step, (screens_log _ _).trans h.screens, h.ticks⟩

theorem loop_ended (hs : s.running = true) (h : (s.loop w script).2 = .status code) :
    Ended w s.pace script (s.frames w script) (s.loop w script).1 code := by
  fun_induction loop w s script with
  | case1 script s _ t b hf =>
    have hframe := s.frame_cases w
    rw [hf] at hframe
    unfold frames
    simp only [hf, if_pos hs]
    rcases hframe with ⟨e, hb⟩ | ⟨fault, hb, hstops, hcrashed⟩ | ⟨hb, -⟩
    · obtain rfl := Option.some.inj hb
      cases h
    · obtain rfl := Option.some.inj hb
      simp only [collapse, if_pos hstops] at h ⊢
      obtain rfl := Ending.status.inj h
      exact (hcrashed.log _).ended script
    · cases hb
  | case2 => cases h
  | case3 s _ t hf tick rest =>
    rename_i hi
    obtain ⟨hflawless, hcompleted, -⟩ := completed_of_frame hf
    obtain rfl := Ending.status.inj h
    have hone : Completed w s ((t.tick tick).log [.info "Interrupted."]) :=
      { hcompleted tick with }
    unfold frames
    simp only [hf, if_pos hs, if_pos hi]
    exact hone.ended hflawless (Or.inl hi) rest
  | case4 s _ t hf tick rest =>
    rename_i hi ih
    obtain ⟨hflawless, hcompleted, hrunning⟩ := completed_of_frame hf
    unfold frames
    simp only [hf, if_pos hs, if_neg hi]
    by_cases hgo : (t.tick tick).running = true
    · obtain ⟨later, hlater⟩ := exists_frames_eq_cons w hgo rest
      have hrest := ih hgo h
      rw [hlater] at hrest ⊢
      exact hrest.cons (hcompleted tick) hflawless (hrunning.1 hgo).2 tick
    · have hquit : .quit ∈ s.drained := by
        by_contra hq
        exact hgo (hrunning.2 ⟨hs, hq⟩)
      obtain ⟨hloop, hframes⟩ := loop_of_not_running w hgo rest
      rw [hframes, hloop]
      rw [hloop] at h
      obtain rfl := Ending.status.inj h
      exact (hcompleted tick).ended hflawless (Or.inr hquit) rest
  | case5 script s hn => exact absurd hs hn

/-- A run that returns a status. It is 1 exactly if a step failed, and then this step was the last
one and nothing was shown or ticked after it. Otherwise it is 0, and the last frame read that the
window was closed or the tick behind it interrupted the run. A frame without a failed step takes
all its steps and is followed by one tick, and none begins after a frame that read that the window
was closed. -/
theorem run_ends (h : (s.run w script).2 = .status code) : Ended w s.pace script
    (frames w { s with running := true } script) (s.run w script).1 code := by
  have hloop : Ended w s.pace script (frames w { s with running := true } script)
      (loop w { s with running := true } script).1 code := loop_ended rfl h
  exact hloop.sound false

theorem run_of_fault {fault : Fault} (hf : (frame w { s with running := true }).2 =
    some (.fault fault)) (hstops : fault.StopsEmulation) :
    (s.run w script).2 = .status 1 := by
  have hloop : (loop w { s with running := true } script).2 = .status 1 := by
    unfold loop
    generalize frame w { s with running := true } = framed at hf ⊢
    obtain ⟨t, b⟩ := framed
    subst hf
    simp only [collapse, if_true, if_pos hstops]
  exact hloop

/-- A session whose game returns from no subroutine, in a frame that reads that the window was
closed. -/
def stumbler (settings : Settings) : Session where
  machine := .booted settings 0 [0x00, 0xee]
  pace := 3
  keypad := some {}
  loaded := true
  queue := [.quit]

/-- A frame that has time for a step ends with the fault of its first step. -/
theorem frame_of_first_fault {fault : Fault} (hb : (s.handleEvents w).2 = none)
    (hl : (s.handleEvents w).1.loaded = true) (hp : 0 < s.pace)
    (hf : ((s.handleEvents w).1.machine.step w.dice (s.handleEvents w).1.reading).fault =
      some fault) : (s.frame w).2 = some (.fault fault) := by
  obtain ⟨count, hcount⟩ : ∃ count, s.stepCount w = count + 1 := by
    rw [stepCount, if_pos hl]
    exact ⟨s.pace - 1, by omega⟩
  have hsteps := takeSteps_succ w (s.handleEvents w).1 count
  rw [hf, ← hcount] at hsteps
  rw [frame_of_handled hb hsteps, Option.elim_some]

theorem stumbler_frame (settings : Settings) :
    (frame stillWorld { stumbler settings with running := true }).2 =
      some (.fault .stackUnderflow) := by
  have hm : ((stumbler settings).machine.hold none).machine.InBounds :=
    (Machine.booted_reachable settings 0 [0x00, 0xee] (by decide)).inBounds.congr rfl rfl rfl
  have hret : ((stumbler settings).machine.hold none).machine.Next .ret :=
    Machine.next_of_game 0 rfl rfl (by decide) (by decide) rfl
  refine frame_of_first_fault ?_ ?_ (Nat.succ_pos 2)
    ((Machine.step_fault_of_next (i := .ret) ?_ ?_).trans ?_)
  · simp only [handleEvents, stumbler, handle, if_true]
  · simp only [handleEvents, stumbler, handle, if_true]
    rfl
  · simp only [handleEvents, stumbler, handle, if_true]
    exact hm
  · simp only [handleEvents, stumbler, handle, if_true]
    exact hret
  · simp only [handleEvents, stumbler, handle, if_true]
    rfl

theorem run_ends_stumbling : ((stumbler {}).run stillWorld []).2 = .status 1 ∧
    Ended stillWorld 3 [] (frames stillWorld { stumbler {} with running := true } [])
      ((stumbler {}).run stillWorld []).1 1 := by
  have hstatus : ((stumbler {}).run stillWorld []).2 = .status 1 :=
    run_of_fault (stumbler_frame {}) trivial
  exact ⟨hstatus, run_ends hstatus⟩

end Session

end Chip8
