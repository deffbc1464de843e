import Chip8.Proofs.Session.Hush
import Chip8.Proofs.Session.Paint
import Mathlib.Data.List.Chain

/-!
The tone of a session. It is started and stopped in turn, after each frame that goes through it
sounds exactly if the sound timer runs, and no run leaves it sounding.
-/
namespace Chip8

namespace Journal

/-- The starts and stops of the tone. -/
def tones (j : Journal) : List AudioCall :=
  j.audio.filter fun call => call = .play ∨ call = .stop

theorem tones_record (j : Journal) (effects : List Effect) :
    (j.record effects).tones = j.tones ++ (Journal.record [] effects).tones := by
  rw [tones, audio_record, List.filter_append]
  rfl

end Journal

/-- The calls are starts and stops in turn, a start at first, after which a tone plays or not. -/
structure TakesTurns (calls : List AudioCall) (playing : Bool) : Prop where
  first : ∀ call ∈ calls.head?, call = .play
  inTurn : calls.IsChain (· ≠ ·)
  last : playing = true ↔ calls.getLast? = some .play
  count : calls.count .play = calls.count .stop + playing.toNat

variable {calls : List AudioCall} {playing : Bool}

theorem takesTurns_nil : TakesTurns [] false where
  first _ h := by cases h
  inTurn := .nil
  last := by simp
  count := rfl

theorem TakesTurns.start (h : TakesTurns calls false) : TakesTurns (calls ++ [.play]) true where
  first := by
    intro call hc
    rw [List.head?_append] at hc
    cases hh : calls.head? with
    | none =>
      rw [hh] at hc
      exact (Option.some.inj hc).symm
    | some c =>
      rw [hh] at hc
      obtain rfl := Option.some.inj hc
      exact h.first c hh
  inTurn := by
    refine h.inTurn.append (.singleton _) ?_
    rintro call hlast next hnext rfl
    obtain rfl := Option.some.inj hnext
    exact absurd (h.last.2 hlast) Bool.false_ne_true
  last := by simp
  count := by
    have hc := h.count
    simpa using hc

theorem TakesTurns.stop (h : TakesTurns calls true) : TakesTurns (calls ++ [.stop]) false where
  first := by
    have hlast := h.last.1 rfl
    cases calls with
    | nil => cases hlast
    | cons c rest => exact h.first
  inTurn := by
    refine h.inTurn.append (.singleton _) ?_
    rintro call hlast next hnext rfl
    obtain rfl := Option.some.inj hnext
    cases hlast.symm.trans (h.last.1 rfl)
  last := by simp
  count := by
    have hc := h.count
    simpa using hc

theorem Buzzer.update_eq (b : Buzzer) (active : Bool) : (b.update active).1 = ⟨active⟩ := by
  have h := b.playing_update active
  generalize (b.update active).1 = updated at h
  rw [← h]

theorem TakesTurns.update (h : TakesTurns calls playing) (active : Bool) :
    TakesTurns (calls ++ (Journal.record [] ((⟨playing⟩ : Buzzer).update active).2).tones)
      active := by
  cases playing with
  | false =>
    cases active with
    | false => exact (List.append_nil calls).symm ▸ h
    | true => exact h.start
  | true =>
    cases active with
    | false => exact h.stop
    | true => exact (List.append_nil calls).symm ▸ h

theorem Buzzer.setUp_silent {storage : Storage} {mixer : Option Mixer} {pitch volume : Int}
    {b : Buzzer} (h : (setUp storage mixer pitch volume).2 = .ok b) :
    b = {} ∧ (Journal.record [] (setUp storage mixer pitch volume).1).tones = [] := by
  unfold setUp at h ⊢
  simp only at h ⊢
  split at h
  · cases h
  · obtain rfl := Except.ok.inj h
    cases mixer <;> exact ⟨rfl, rfl⟩

namespace Session

/-- The session has a buzzer that plays, or not, as the starts and stops so far have told it. -/
structure InTune (s : Session) (playing : Bool) : Prop where
  buzzer : s.buzzer = some ⟨playing⟩
  turns : TakesTurns s.journal.tones playing

variable {w : World} {s t : Session} {p : Prop}

theorem InTune.hushed (h : s.InTune playing) (hs : Hushed s t p) : t.InTune playing := by
  have htones : t.journal.tones = s.journal.tones := congrArg (List.filter _) hs.audio
  refine ⟨hs.buzzer.trans h.buzzer, ?_⟩
  rw [htones]
  exact h.turns

theorem InTune.sound (h : s.InTune playing) (active : Bool) : (s.sound active).InTune active := by
  have hsound : s.sound active =
      { s with buzzer := some ⟨active⟩ }.record ((⟨playing⟩ : Buzzer).update active).2 := by
    rw [← Buzzer.update_eq ⟨playing⟩ active, Session.sound, h.buzzer]
  rw [hsound]
  refine ⟨rfl, ?_⟩
  rw [record, Journal.tones_record]
  exact h.turns.update active

/-- A frame keeps the session in tune, and one that goes through makes the buzzer follow the sound
timer. -/
theorem InTune.frame (h : s.InTune playing) : (∃ playing, (s.frame w).1.InTune playing) ∧
    ((s.frame w).2 = none → (s.frame w).1.InTune ((s.frame w).1.machine.sound != 0)) := by
  rcases s.frame_hushed w with ⟨hb, hs⟩ | ⟨t, ht, hs⟩
  · exact ⟨⟨playing, h.hushed hs⟩, fun hn => absurd hn hb⟩
  · have hsound := (h.hushed hs).sound t.machine.bell
    rw [ht]
    refine ⟨⟨_, hsound⟩, fun _ => ?_⟩
    rw [(t.sound_unseen t.machine.bell).1]
    exact hsound

theorem InTune.of_frame (h : s.InTune playing) {b : Option Breakdown} (hf : s.frame w = (t, b)) :
    ∃ playing, t.InTune playing := by
  have hframe := (h.frame (w := w)).1
  rwa [hf] at hframe

theorem InTune.tick (h : s.InTune playing) (tick : Tick) : (s.tick tick).InTune playing :=
  ⟨h.buzzer, h.turns⟩

theorem InTune.loop (h : s.InTune playing) (script : List Tick) :
    (∃ playing, (s.loop w script).1.InTune playing) ∧
      ∀ t ∈ s.frames w script, ∃ playing, t.InTune playing := by
  fun_induction Session.loop w s script generalizing playing with
  | case1 script s hrun t b hf =>
    obtain ⟨playing', ht⟩ := h.of_frame hf
    unfold frames
    simp only [hf, if_pos hrun, List.forall_mem_singleton]
    exact ⟨⟨playing', ht.hushed (collapse_hushed t b)⟩, playing, h⟩
  | case2 s hrun t hf =>
    obtain ⟨playing', ht⟩ := h.of_frame hf
    unfold frames
    simp only [hf, if_pos hrun, List.forall_mem_singleton]
    exact ⟨⟨playing', ht⟩, playing, h⟩
  | case3 s hrun t hf tick rest =>
    rename_i hi
    obtain ⟨playing', ht⟩ := h.of_frame hf
    unfold frames
    simp only [hf, if_pos hrun, if_pos hi, List.forall_mem_singleton]
    exact ⟨⟨playing', (ht.tick tick).hushed (unmoved_log _ _).hushed⟩, playing, h⟩
  | case4 s hrun t hf tick rest =>
    rename_i hi ih
    obtain ⟨playing', ht⟩ := h.of_frame hf
    unfold frames
    simp only [hf, if_pos hrun, if_neg hi, List.forall_mem_cons]
    obtain ⟨hloop, hframes⟩ := ih (ht.tick tick)
    exact ⟨hloop, ⟨playing, h⟩, hframes⟩
  | case5 script s hrun =>
    unfold frames
    rw [if_neg hrun]
    exact ⟨⟨playing, h⟩, by simp⟩

theorem InTune.run (h : s.InTune playing) (script : List Tick) :
    (s.run w script).1.InTune false := by
  obtain ⟨playing', hloop⟩ :=
    (InTune.loop (w := w) (s := { s with running := true }) ⟨h.buzzer, h.turns⟩ script).1
  exact hloop.sound false

theorem InTune.act (h : s.InTune playing) (activity : Activity) :
    (∃ playing, (s.act w activity).1.InTune playing) ∧
      ∀ t ∈ s.framesOf w activity, ∃ playing, t.InTune playing := by
  cases activity with
  | load path =>
    rw [act_load]
    exact ⟨⟨playing, h.hushed (s.load_hushed w path)⟩, by simp [framesOf]⟩
  | post events | wait now => exact ⟨⟨playing, h.buzzer, h.turns⟩, by simp [framesOf]⟩
  | frame => exact ⟨h.frame.1, List.forall_mem_singleton.2 ⟨playing, h⟩⟩
  | run script =>
    rw [act_run]
    exact ⟨⟨false, h.run script⟩,
      (InTune.loop (s := { s with running := true }) ⟨h.buzzer, h.turns⟩ script).2⟩

theorem InTune.after (h : s.InTune playing) (history : List Activity) :
    (∃ playing, (s.after w history).InTune playing) ∧
      ∀ t ∈ s.frameStarts w history, ∃ playing, t.InTune playing := by
  induction history generalizing s playing with
  | nil => exact ⟨⟨playing, h⟩, by simp [frameStarts]⟩
  | cons activity rest ih =>
    obtain ⟨⟨playing', hact⟩, hframes⟩ := h.act (w := w) activity
    obtain ⟨hafter, hrest⟩ := ih hact
    exact ⟨hafter, List.forall_mem_append.2 ⟨hframes, hrest⟩⟩

/-- A session that is set up with a buzzer begins in silence. -/
theorem start_silent {settings : Settings} {display : Display} {equipment : Equipment}
    {host : Host} {clock : Clock} {picks : List (Option String)}
    (h : (start settings display equipment host clock picks).2 = .ok s)
    (he : equipment.buzzer = true) : s.buzzer = some {} ∧ s.journal.tones = [] := by
  have hshown : (Journal.record [] ((if equipment.keypad then [.audio (.request .standard)] else [])
      ++ [.present .start])).tones = [] := by
    split <;> rfl
  unfold start at h
  simp only [setUpBuzzer, he, if_true] at h
  generalize Journal.record [] (_ ++ [.present .start]) = shown at hshown h
  cases hd : display.opening host.window with
  | error e => simp [hd] at h
  | ok _ =>
    cases hb : (Buzzer.setUp host.storage host.mixer Tone.standardPitch Tone.standardVolume).2 with
    | error e => simp [hd, hb, Except.map] at h
    | ok buzzer =>
      obtain ⟨rfl, htones⟩ := Buzzer.setUp_silent hb
      cases hp : settings.instructionsPerFrame frameRate with
      | error e => simp [hd, hb, hp, Except.map] at h
      | ok pace =>
        simp only [hd, hb, hp, Except.map, Except.ok.injEq] at h
        rw [← h]
        refine ⟨rfl, ?_⟩
        rw [Journal.tones_record, hshown, htones, List.append_nil]

/-- Whatever happens to a session whose buzzer is silent at first, the tone is started and stopped
in turn. After a frame that goes through it plays exactly if the sound timer runs. A run stops it
in the end, however it ends. -/
theorem tone_follows (hb : s.buzzer = some {}) (hj : s.journal.tones = []) (w : World)
    (history : List Activity) :
    (∃ playing, (s.after w history).InTune playing) ∧
    (∀ t ∈ s.frameStarts w history, (∃ playing, (t.frame w).1.InTune playing) ∧
      ((t.frame w).2 = none → (t.frame w).1.InTune ((t.frame w).1.machine.sound != 0))) ∧
    ∀ script, (s.after w (history ++ [.run script])).InTune false ∧
      (s.after w (history ++ [.run script])).journal.tones.count .play =
        (s.after w (history ++ [.run script])).journal.tones.count .stop := by
  have hs : s.InTune false := ⟨hb, hj ▸ takesTurns_nil⟩
  obtain ⟨⟨playing, hafter⟩, hframes⟩ := hs.after (w := w) history
  refine ⟨⟨playing, hafter⟩, ?_, ?_⟩
  · intro t ht
    obtain ⟨before, hbefore⟩ := hframes t ht
    exact hbefore.frame
  · intro script
    have hlast : s.after w (history ++ [.run script]) = ((s.after w history).run w script).1 :=
      (after_append w s history _).trans (act_run w _ script)
    have hrun := hafter.run (w := w) script
    rw [hlast]
    exact ⟨hrun, hrun.turns.count⟩

/-- Sets the sound timer to five. -/
def humming : List UInt8 := [0x60, 0x05, 0xf0, 0x18]

/-- A session with that game. Its first frame executes it. -/
def hummer (settings : Settings) : Session where
  machine := .booted settings 0 humming
  pace := 2
  buzzer := some {}
  loaded := true

/-- The two instructions of the game. -/
theorem humming_steps {m : Machine} (hc : m.counter = 512)
    (hm : m.memory = (Font.install .blank).overlay gameStart humming) (dice : Nat → Int)
    (now next : Float) :
    (m.step dice now).fault = none ∧ ((m.step dice now).machine.step dice next).fault = none ∧
      ((m.step dice now).machine.step dice next).machine.sound = 5 := by
  have hset : m.Next (.set 0 5) := Machine.next_of_game 0 hm hc (by decide) (by decide) rfl
  have hfault := (Machine.step_of_next dice now hset).2
  obtain ⟨_, _, _, hstep⟩ := Machine.step_machine_of_next dice now hset
  generalize m.step dice now = first at hfault hstep ⊢
  have hmemory : first.machine.memory = m.memory := (congrArg Machine.memory hstep).trans rfl
  have hcounter : first.machine.counter = m.counter + 2 :=
    (congrArg Machine.counter hstep).trans rfl
  have hregister : first.machine.register 0 = 5 :=
    (congrArg (Machine.register · 0) hstep).trans (Machine.register_setRegister_self _ 0 5)
  rw [hm] at hmemory
  rw [hc] at hcounter
  have hsound : first.machine.Next (.setSound 0) :=
    Machine.next_of_game 2 hmemory hcounter (by decide) (by decide) rfl
  obtain ⟨_, _, _, hstep'⟩ := Machine.step_machine_of_next dice next hsound
  refine ⟨hfault, (Machine.step_of_next dice next hsound).2, ?_⟩
  exact (congrArg Machine.sound hstep').trans hregister

theorem frame_of_takeSteps (hk : s.keypad = none) (hl : s.loaded = true)
    (h : s.takeSteps w s.pace = (t, none)) :
    (s.frame w).2 = none ∧ (s.frame w).1.machine.sound = t.machine.sound := by
  have hevents := handleEvents_of_none (w := w) hk
  have hsound : t.refresh.machine.sound = t.machine.sound := by
    rw [refresh_machine]
    rfl
  simp only [frame, hevents, hl, if_true, h, (sound_unseen _ _).1, hsound, and_self]

theorem takeSteps_two (hfirst : (s.machine.step w.dice s.reading).fault = none)
    (hsecond : ((s.machine.step w.dice s.reading).machine.step w.dice s.look.reading).fault =
      none) : ∃ t, s.takeSteps w 2 = (t, none) ∧ t.machine =
        ((s.machine.step w.dice s.reading).machine.step w.dice s.look.reading).machine := by
  rw [takeSteps_succ, hfirst]
  generalize s.machine.step w.dice s.reading = first at hsecond ⊢
  have hreading : (s.look.adopt first).reading = s.look.reading := rfl
  have hmachine : (s.look.adopt first).machine = first.machine := rfl
  simp only [takeSteps_succ, takeSteps_zero, hreading, hmachine, hsecond]
  exact ⟨_, rfl, rfl⟩

theorem hummer_frame (settings : Settings) : ((hummer settings).frame stillWorld).2 = none ∧
    ((hummer settings).frame stillWorld).1.machine.sound = 5 := by
  obtain ⟨hfirst, hsecond, hsound⟩ := humming_steps (m := (hummer settings).machine) rfl rfl
    stillWorld.dice (hummer settings).reading (hummer settings).look.reading
  obtain ⟨t, hsteps, hmachine⟩ := takeSteps_two hfirst hsecond
  obtain ⟨hok, hframe⟩ := frame_of_takeSteps rfl rfl hsteps
  rw [hframe, hmachine]
  exact ⟨hok, hsound⟩

/-- In the first frame the tone starts, and a run stops it. -/
theorem tone_follows_hum :
    ((hummer {}).buzzer = some {} ∧ (hummer {}).journal.tones = [] ∧
      hummer {} ∈ (hummer {}).frameStarts stillWorld [.frame]) ∧
    ((hummer {}).frame stillWorld).1.InTune true ∧
    ((hummer {}).after stillWorld ([.frame] ++ [.run []])).InTune false := by
  have hstart : hummer {} ∈ (hummer {}).frameStarts stillWorld [.frame] := List.mem_cons_self
  obtain ⟨hok, hsound⟩ := hummer_frame {}
  obtain ⟨-, hframes, hruns⟩ :=
    tone_follows (s := hummer {}) rfl rfl stillWorld [.frame]
  have htone := (hframes _ hstart).2 hok
  rw [hsound] at htone
  exact ⟨⟨rfl, rfl, hstart⟩, htone, (hruns []).1⟩

end Session

end Chip8
