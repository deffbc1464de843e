import Chip8.Proofs.Session.Bare
import Chip8.Proofs.Session.Ending
import Chip8.Proofs.Session.Picture
import Chip8.Proofs.Sound.Standard

/-!
The requests that a frame makes to its machine, in order: the reloads among its events, the key that
is held, the steps, and at the end the redraw notice. A load or a step that fails is the last.
-/
namespace Chip8.Session

/-- The requests of a load, if there is a game to read. -/
def loadRequests (w : World) (s : Session) (path : Option Path) : List Operation :=
  match (s.source path).map (Cartridge.read w.files) with
  | some (.game game) => (if s.loaded then [.reset s.reading] else []) ++ [.loadGame game]
  | _ => []

/-- The requests of the reloads in a frame. -/
def reloadRequests (w : World) (s : Session) : List Operation :=
  (s.frameReloads w).flatMap (loadRequests w · none)

/-- A session with a keypad tells its machine which key is held. -/
def holdRequests (s : Session) : List Operation := (s.keypad.map fun k => .hold k.code).toList

/-- The requests of a frame before its steps. -/
def eventRequests (w : World) (s : Session) : List Operation :=
  s.reloadRequests w ++ (s.handleEvents w).1.holdRequests

/-- The step behind so many others. -/
def stepRequest (s : Session) (k : Nat) : Operation := .step (s.clock s.now (s.looks + k))

def stepRequests (s : Session) (count : Nat) : List Operation :=
  (List.range count).map s.stepRequest

def stepFault (w : World) (s : Session) (k : Nat) : Option Fault :=
  ((s.machine.after w.dice (s.stepRequests k)).apply w.dice (s.stepRequest k)).fault

/-- What the frame that begins in `s` does to its machine: all its requests if it goes through, and
else those up to the load or the step that fails. -/
structure FrameEffect (w : World) (s : Session) : Prop where
  whole : (s.frame w).2 = none →
    (∀ k < s.stepCount w, (s.handleEvents w).1.stepFault w k = none) ∧
    (s.frame w).1.machine = s.machine.after w.dice (s.eventRequests w ++
      (s.handleEvents w).1.stepRequests (s.stepCount w) ++ [.takeRedraw])
  cut : ∀ fault, (s.frame w).2 = some (.fault fault) → ∃ k < s.stepCount w,
    (∀ j < k, (s.handleEvents w).1.stepFault w j = none) ∧
    (s.handleEvents w).1.stepFault w k = some fault ∧
    (s.frame w).1.machine = s.machine.after w.dice (s.eventRequests w ++
      (s.handleEvents w).1.stepRequests (k + 1))
  stuck : ∀ e, (s.frame w).2 = some (.system e) →
    (s.frame w).1.machine = s.machine.after w.dice (s.reloadRequests w)

variable {w : World} {s t : Session}

theorem insert_machine (s : Session) (path : Path) (game : List UInt8) (dice : Nat → Int) :
    (s.insert path game).1.machine = s.machine.after dice
      ((if s.loaded then [.reset s.reading] else []) ++ [.loadGame game]) := by
  unfold insert
  cases s.loaded with
  | true =>
    simp only
    split <;> rfl
  | false =>
    simp only
    split <;> rfl

theorem loadRequests_of_game {path : Option Path} {p : Path} {game : List UInt8}
    (hp : s.source path = some p) (hr : Cartridge.read w.files p = .game game) :
    s.loadRequests w path = (if s.loaded then [.reset s.reading] else []) ++ [.loadGame game] := by
  simp only [loadRequests, hp, Option.map_some, hr]

theorem loadRequests_of_no_game {path : Option Path}
    (h : ¬∃ p game, s.source path = some p ∧ Cartridge.read w.files p = .game game) :
    s.loadRequests w path = [] := by
  rw [loadRequests]
  split
  · rename_i game hread
    obtain ⟨p, hp, hr⟩ := Option.map_eq_some_iff.1 hread
    exact absurd ⟨p, game, hp, hr⟩ h
  · rfl

theorem load_machine (w : World) (s : Session) (path : Option Path) :
    (s.load w path).1.machine = s.machine.after w.dice (s.loadRequests w path) := by
  rcases s.load_cases w path with ⟨p, game, hp, hr, hl⟩ | ⟨hn, hm, -⟩
  · have hasked := (s.unmoved_asked w path).trans (unmoved_log _ [Cartridge.announcement p])
    rw [hl, insert_machine _ p game w.dice, loadRequests_of_game hp hr, hasked.eq]
    rfl
  · rw [loadRequests_of_no_game hn, hm.eq]
    rfl

/-- Told its key at the end of its events, a machine has had all requests of the reloads. -/
theorem handle_machine (w : World) (s : Session) (keypad : Keypad) (events : List Event) :
    ((s.handle w keypad events).2 = none → (s.handle w keypad events).1.machine =
      s.machine.after w.dice ((s.reloads w keypad events).flatMap (loadRequests w · none) ++
        (s.handle w keypad events).1.holdRequests)) ∧
    ((s.handle w keypad events).2 ≠ none → (s.handle w keypad events).1.machine =
      s.machine.after w.dice ((s.reloads w keypad events).flatMap (loadRequests w · none))) := by
  fun_induction handle w s keypad events with
  | case1 s keypad => exact ⟨fun _ => rfl, fun h => absurd rfl h⟩
  | case2 s keypad rest ih =>
    simp only [reloads, if_true]
    exact ih
  | case3 s keypad rest t b hl =>
    have hload := s.load_machine w none
    rw [hl] at hload
    simp only [reloads, hl, reduceCtorEq, if_false, if_true, List.flatMap_singleton]
    exact ⟨fun h => h.elim, fun _ => hload⟩
  | case4 s keypad rest t _ hl _ ih =>
    have hload := s.load_machine w none
    rw [hl] at hload
    simp only [reloads, hl, reduceCtorEq, if_false, if_true, List.flatMap_cons, List.append_assoc]
    rw [Machine.after_append, Machine.after_append w.dice s.machine, ← hload]
    exact ih
  | case5 s keypad event rest hq hr ih =>
    simp only [reloads, if_neg hq, if_neg hr]
    exact ih

theorem handleEvents_machine (w : World) (s : Session) :
    ((s.handleEvents w).2 = none →
      (s.handleEvents w).1.machine = s.machine.after w.dice (s.eventRequests w)) ∧
    ((s.handleEvents w).2 ≠ none →
      (s.handleEvents w).1.machine = s.machine.after w.dice (s.reloadRequests w)) := by
  unfold eventRequests reloadRequests frameReloads handleEvents
  cases hk : s.keypad with
  | none =>
    simp only [holdRequests, hk]
    exact ⟨fun _ => rfl, fun h => absurd rfl h⟩
  | some keypad =>
    have h := handle_machine w { s with queue := [] } keypad s.queue
    simp only [hk] at h ⊢
    exact h

theorem stepRequest_look (s : Session) (out : Outcome) (k : Nat) :
    (s.look.adopt out).stepRequest k = s.stepRequest (k + 1) := by
  have hlooks : s.looks + 1 + k = s.looks + (k + 1) := by omega
  exact congrArg (fun n => Operation.step (s.clock s.now n)) hlooks

theorem stepRequests_succ (s : Session) (out : Outcome) (count : Nat) :
    s.stepRequests (count + 1) = s.stepRequest 0 :: (s.look.adopt out).stepRequests count := by
  rw [stepRequests, List.range_succ_eq_map, List.map_cons, List.map_map, stepRequests]
  refine congrArg (s.stepRequest 0 :: ·) (List.map_congr_left fun k _ => ?_)
  exact (s.stepRequest_look out k).symm

theorem stepFault_succ (w : World) (s : Session) (k : Nat) : s.stepFault w (k + 1) =
    (s.look.adopt (s.machine.step w.dice s.reading)).stepFault w k := by
  rw [stepFault, s.stepRequests_succ (s.machine.step w.dice s.reading) k, stepFault,
    s.stepRequest_look]
  rfl

/-- The steps up to the first that fails, or all of them. -/
theorem takeSteps_machine (w : World) (s : Session) (count : Nat) :
    ((s.takeSteps w count).2 = none ∧ (∀ k < count, s.stepFault w k = none) ∧
      (s.takeSteps w count).1.machine = s.machine.after w.dice (s.stepRequests count)) ∨
    ∃ fault, (s.takeSteps w count).2 = some (.fault fault) ∧ ∃ k < count,
      (∀ j < k, s.stepFault w j = none) ∧ s.stepFault w k = some fault ∧
      (s.takeSteps w count).1.machine = s.machine.after w.dice (s.stepRequests (k + 1)) := by
  induction count generalizing s with
  | zero => exact Or.inl ⟨rfl, fun k hk => absurd hk (Nat.not_lt_zero k), rfl⟩
  | succ count ih =>
    rw [takeSteps_succ]
    have hrest := s.stepRequests_succ (s.machine.step w.dice s.reading)
    cases hf : (s.machine.step w.dice s.reading).fault with
    | some fault =>
      exact Or.inr ⟨fault, rfl, 0, Nat.succ_pos count, fun j hj => absurd hj (Nat.not_lt_zero j),
        hf, rfl⟩
    | none =>
      -- The faults of the steps to come are those of this session from its second step on.
      have hfaults {k : Nat} (h : ∀ j < k,
          (s.look.adopt (s.machine.step w.dice s.reading)).stepFault w j = none) :
          ∀ j < k + 1, s.stepFault w j = none := by
        intro j hj
        cases j with
        | zero => exact hf
        | succ j =>
          rw [stepFault_succ]
          exact h j (Nat.lt_of_succ_lt_succ hj)
      rcases ih (s.look.adopt (s.machine.step w.dice s.reading)) with
        ⟨hok, hnone, hmachine⟩ | ⟨fault, hb, k, hk, hnone, hfault, hmachine⟩
      · refine Or.inl ⟨hok, hfaults hnone, ?_⟩
        rw [hrest]
        exact hmachine
      · refine Or.inr ⟨fault, hb, k + 1, Nat.succ_lt_succ hk, hfaults hnone, ?_, ?_⟩
        · rw [stepFault_succ]
          exact hfault
        · rw [hrest]
          exact hmachine

theorem frame_effect (w : World) (s : Session) : s.FrameEffect w := by
  obtain ⟨hevents, hreloads⟩ := s.handleEvents_machine w
  cases hb : (s.handleEvents w).2 with
  | some b =>
    have hh : s.handleEvents w = ((s.handleEvents w).1, some b) := Prod.ext rfl hb
    have hf : s.frame w = ((s.handleEvents w).1, some b) := by rw [frame, hh]
    obtain ⟨e, rfl⟩ := handleEvents_eq_some hb
    refine ⟨fun h => ?_, fun fault h => ?_, fun _ _ => ?_⟩
    · rw [hf] at h
      cases h
    · rw [hf] at h
      cases h
    · rw [hf]
      exact hreloads (hb ▸ Option.some_ne_none _)
  | none =>
    have hmachine := hevents hb
    have hsteps := takeSteps_machine w (s.handleEvents w).1 (s.stepCount w)
    obtain ⟨t, b, hend⟩ : ∃ t b, (s.handleEvents w).1.takeSteps w (s.stepCount w) = (t, b) :=
      ⟨_, _, rfl⟩
    have hf := frame_of_handled hb hend
    rw [hend, hmachine] at hsteps
    rcases hsteps with ⟨rfl, hnone, ht⟩ | ⟨fault, rfl, k, hk, hnone, hfault, ht⟩
    · refine ⟨fun _ => ⟨hnone, ?_⟩, fun fault h => ?_, fun e h => ?_⟩
      · rw [hf, Machine.after_concat, Machine.after_append, ← ht]
        exact (t.refresh.sound_unseen _).1.trans t.refresh_machine
      · rw [hf] at h
        cases h
      · rw [hf] at h
        cases h
    · refine ⟨fun h => ?_, fun fault' h => ?_, fun e h => ?_⟩
      · rw [hf] at h
        cases h
      · rw [hf] at h ⊢
        obtain rfl := Breakdown.fault.inj (Option.some.inj h)
        exact ⟨k, hk, hnone, hfault, ht.trans (Machine.after_append w.dice s.machine _ _).symm⟩
      · rw [hf] at h
        cases h

/-- Whatever is done with `s` and with `t`, both answer alike and go on alike. -/
structure Twins (w : World) (s t : Session) : Prop where
  bare : s.bare = t.bare
  load : ∀ path, bared (s.load w path) = bared (t.load w path)
  frame : bared (s.frame w) = bared (t.frame w)
  run : ∀ script, bared (s.run w script) = bared (t.run w script)

/-- Sessions of one machine that start at one clock, on any displays and hosts, with or without a
buzzer and message boxes, are twins after every history, if both or neither has a keypad. Their
frames do to the machine what its events, the held key and the pace ask for, and take the redraw
notice at the end. -/
theorem presentation_inert {settings : Settings} {display display' : Display}
    {equipment equipment' : Equipment} {host host' : Host} {clock : Clock}
    {picks : List (Option String)}
    (hs : (start settings display equipment host clock picks).2 = .ok s)
    (ht : (start settings display' equipment' host' clock picks).2 = .ok t)
    (hk : equipment.keypad = equipment'.keypad) (w : World) (history : List Activity) :
    Twins w (s.after w history) (t.after w history) ∧ ∀ u : Session, u.FrameEffect w := by
  have h := bare_after (w := w) (bare_start hs ht hk) history
  exact ⟨⟨h, bared_load h, bared_frame h, bared_run h⟩, frame_effect w⟩

/-- Where no events wait, the machine is told its key and nothing else happens to it. -/
theorem handleEvents_of_no_events {keypad : Keypad} (hk : s.keypad = some keypad)
    (hq : s.queue = []) : ∃ t held, s.handleEvents w = (t, none) ∧ t.loaded = s.loaded ∧
      t.pace = s.pace ∧ t.machine = { s.machine with key := held } := by
  obtain ⟨held, hhold⟩ := s.machine.hold_machine keypad.code
  rw [handleEvents, hk, hq]
  exact ⟨_, held, rfl, rfl, rfl, hhold⟩

/-- The first load and the first frame of a session with a keypad that takes one step in a frame.
The game clears the screen, which is then shown. -/
theorem first_frame_wiping {settings : Settings} {now : Float} {keypad : Keypad} {path : Path}
    (hm : s.machine = .fresh settings now) (hl : s.loaded = false) (hp : s.pace = 1)
    (hk : s.keypad = some keypad) (hq : s.queue = []) (hj : s.journal.screens = [])
    (hpath : Cartridge.IsGame path) :
    let loaded := (s.load wipingWorld (some path)).1
    loaded.FrameRepaints wipingWorld ∧ (loaded.frame wipingWorld).1.journal.screens =
      [(loaded.frame wipingWorld).1.machine.screen] := by
  intro loaded
  obtain ⟨journal, hload⟩ := load_wiping hl hpath
  have hloaded : loaded = s.wiping journal := congrArg Prod.fst hload
  have hbounds := wiping_inBounds hm journal
  have hscreens : loaded.journal.screens = [] :=
    (s.load_painted wipingWorld (some path)).screens.trans hj
  have hdown : (s.wiping journal).machine.redraw = false := by
    rw [wiping, hm]
    rfl
  rw [hloaded] at hscreens ⊢
  obtain ⟨t, held, hevents, hgame, hpace, hmachine⟩ :=
    @handleEvents_of_no_events wipingWorld (s.wiping journal) keypad hk hq
  have hpaints : t.Paints wipingWorld := by
    refine paints_of_wiping ?_ (congrArg Machine.memory hmachine)
      (congrArg Machine.counter hmachine)
    rw [hmachine]
    exact hbounds.congr rfl rfl rfl
  obtain ⟨hok, hrepaints⟩ := frame_of_paints hevents hgame (hpace.trans hp) hpaints
  have hshows := @next_frame_shows wipingWorld (s.wiping journal) [] hbounds hdown
    List.not_mem_nil (fun _ => List.not_mem_nil) hok
  have honce := hshows.once (Or.inl hrepaints)
  exact ⟨hrepaints, honce.trans (congrArg (· ++ _) hscreens)⟩

/-- A terminal without a buzzer, and a window with one at a mixer of two channels. Both load the game
that clears the screen, execute it and show the screen. -/
theorem presentation_inert_window :
    let clock : Clock := fun _ looks => Float.ofNat looks
    let terminal := start { rate := 60 } .console { keypad := true } (.usual none) clock []
    let window := start { rate := 60 } (.window (some 12))
      { keypad := true, buzzer := true, interactive := true } (.usual (some ⟨22050, 2⟩)) clock []
    ∃ s t, terminal.2 = .ok s ∧ window.2 = .ok t ∧ t.buzzer = some {} ∧
      let load : Activity := .load (some ⟨0, ["wipe.ch8"]⟩)
      let last := t.after wipingWorld [load, .frame]
      (t.after wipingWorld [load]).FrameRepaints wipingWorld ∧
        last.journal.screens = [last.machine.screen] ∧
        Twins wipingWorld (s.after wipingWorld [load, .frame]) last := by
  intro clock terminal window
  have hpace : ({ rate := 60 } : Settings).instructionsPerFrame frameRate = .ok 1 := by decide
  have hmixer : (Mixer.mk 22050 2).Usable .usual := ⟨by decide, by decide, by decide⟩
  have hgame : Cartridge.IsGame ⟨0, ["wipe.ch8"]⟩ := by decide +kernel
  obtain ⟨s, hs⟩ : ∃ s, terminal.2 = .ok s :=
    exists_start rfl (fun hbuzzer => Bool.noConfusion hbuzzer) hpace clock []
  obtain ⟨t, ht⟩ : ∃ t, window.2 = .ok t := exists_start (by decide) (fun _ => hmixer) hpace clock []
  obtain ⟨htwins, -⟩ :=
    presentation_inert hs ht rfl wipingWorld [.load (some ⟨0, ["wipe.ch8"]⟩), .frame]
  obtain ⟨⟨settings, now, hm⟩, hl⟩ := start_new ht
  have hscreens := start_unshown ht
  obtain ⟨buzzer, pace, hb, hp, hsession⟩ := start_eq_ok ht
  have hbuzzer : some {} = buzzer := Except.ok.inj ((setUpBuzzer_ok fun _ => hmixer).symm.trans hb)
  have hone : 1 = pace := Except.ok.inj (hpace.symm.trans hp)
  subst hbuzzer hone
  have hplain : t.buzzer = some {} ∧ t.pace = 1 ∧ t.keypad = some {} ∧ t.queue = [] := by
    rw [hsession]
    exact ⟨rfl, rfl, rfl, rfl⟩
  obtain ⟨hbuzzer, hpace, hkeypad, hqueue⟩ := hplain
  have hframe := first_frame_wiping hm hl hpace hkeypad hqueue hscreens hgame
  rw [← act_load] at hframe
  exact ⟨s, t, hs, ht, hbuzzer, hframe.1, hframe.2, htwins⟩

/-- The step clears the screen and puts the redraw notice up, but the frame takes it down. -/
theorem frame_takes_notice :
    let s := (stepper {}).wiping []
    (s.frame wipingWorld).2 = none ∧ (s.frame wipingWorld).1.machine.redraw = false ∧
      (s.machine.after wipingWorld.dice (s.eventRequests wipingWorld ++
        (s.handleEvents wipingWorld).1.stepRequests (s.stepCount wipingWorld))).redraw = true := by
  intro s
  have hmachine : (stepper {}).machine = .fresh {} 0 := rfl
  have hm : s.machine.InBounds := wiping_inBounds hmachine []
  have hpaints : s.Paints wipingWorld := paints_of_wiping hm rfl rfl
  have hok : (s.frame wipingWorld).2 = none :=
    (frame_of_paints (handleEvents_of_none rfl) rfl rfl hpaints).1
  have htaken (m : Machine) : (m.apply wipingWorld.dice .takeRedraw).machine.redraw = false := rfl
  have hstep (m : Machine) (now : Float) : m.after wipingWorld.dice [.step now] =
      (m.step wipingWorld.dice now).machine := rfl
  have hrequests : s.eventRequests wipingWorld ++
      (s.handleEvents wipingWorld).1.stepRequests (s.stepCount wipingWorld) =
        [.step s.reading] := rfl
  refine ⟨hok, ?_, ?_⟩
  · rw [((frame_effect wipingWorld s).whole hok).2, Machine.after_concat]
    exact htaken _
  · rw [hrequests, hstep]
    exact (Machine.step_paints hm hpaints.2).1.2 (Or.inr hpaints.1)

end Chip8.Session
