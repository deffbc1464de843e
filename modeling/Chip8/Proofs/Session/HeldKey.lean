import Chip8.Proofs.Keypad.Held
import Chip8.Proofs.Machine.Cycle
import Chip8.Proofs.Machine.Effect
import Chip8.Proofs.Session.CleanStart
import Mathlib.Data.List.Infix

/-!
The key that a machine takes for held. The keypad of a session is handed on from frame to frame,
and at the end of each handling of events the machine is told its key. A reload makes the machine
forget the key, but only until the batch of events is handled.
-/
namespace Chip8

namespace Keypad

/-- The key for reloading is none of the keypad. -/
theorem after_reloadKey (k : Keypad) : k.after (.keyDown Session.reloadKey) = k :=
  after_of_change?_eq_none (by decide)

end Keypad

namespace Machine

/-- A machine never refuses the key of a keypad. -/
theorem hold_code (m : Machine) (k : Keypad) :
    (m.hold k.code).fault = none ∧ (m.hold k.code).machine = { m with key := k.key } := by
  obtain ⟨_ | key⟩ := k
  · exact ⟨rfl, rfl⟩
  · exact (m.hold_of_nibble key).symm

theorem perform_key (dice : Nat → Int) (m : Machine) (o : Opcode) :
    (m.perform dice o).machine.key = m.key := by
  unfold perform
  cases Instruction.ofOpcode? o with
  | none => rfl
  | some i => exact i.execute_key dice m

theorem step_key (dice : Nat → Int) (m : Machine) (now : Float) :
    (m.step dice now).machine.key = m.key := by
  obtain ⟨delay, sound, lastTick, h⟩ := m.updateTimers_eq now
  simp only [step, h, cycle]
  split
  · rfl
  · exact perform_key dice _ _

end Machine

namespace Session

/-- The events that are handled of a batch: all of them, or those up to a reload that breaks
down. -/
def handled (w : World) (s : Session) (keypad : Keypad) : List Event → List Event
  | [] => []
  | event :: rest =>
    if event = .quit then event :: handled w { s with running := false } keypad rest
    else if event = .keyDown reloadKey then
      match s.load w none with
      | (_, .error _) => [event]
      | (t, .ok _) => event :: handled w t keypad rest
    else event :: handled w (s.log (Keypad.lines event)) (keypad.after event) rest

/-- The events that a frame handles. -/
def handledEvents (w : World) (s : Session) : List Event :=
  match s.keypad with
  | none => []
  | some keypad => handled w { s with queue := [] } keypad s.queue

/-- The sessions in which the frames of an activity begin. -/
def framesOf (w : World) (s : Session) : Activity → List Session
  | .frame => [s]
  | .run script => frames w { s with running := true } script
  | .load _ | .post _ | .wait _ => []

/-- The sessions in which the frames of a history begin, those of its runs among them. -/
def frameStarts (w : World) (s : Session) : List Activity → List Session
  | [] => []
  | activity :: rest => s.framesOf w activity ++ frameStarts w (s.act w activity).1 rest

open Keypad

variable {w : World} {s t : Session} {k : Keypad}

theorem adopt_keypad (s : Session) (out : Outcome) : (s.adopt out).keypad = s.keypad := rfl

theorem insert_keypad (s : Session) (path : Path) (game : List UInt8) :
    (s.insert path game).1.keypad = s.keypad := by
  have hready : (if s.loaded then s.look.adopt (s.machine.reset s.reading) else s).keypad =
      s.keypad := by
    split
    · exact adopt_keypad s.look _
    · rfl
  rw [insert, ← hready]
  generalize (if s.loaded then s.look.adopt (s.machine.reset s.reading) else s) = t
  simp only
  generalize t.machine.loadGame game = out
  cases out.fault <;> rfl

theorem load_keypad (w : World) (s : Session) (path : Option Path) :
    (s.load w path).1.keypad = s.keypad := by
  rcases s.load_eq_insert_or_unmoved w path with ⟨t, p, game, ht, -, hl⟩ | ⟨-, hm⟩
  · rw [hl, insert_keypad, ht.eq]
  · rw [hm.eq]

theorem handle_keypad (w : World) (s : Session) (keypad : Keypad) (events : List Event) :
    (s.handle w keypad events).1.keypad =
      some (keypad.afterAll (s.handled w keypad events)) := by
  fun_induction handle w s keypad events with
  | case1 s keypad => rfl
  | case2 s keypad rest ih =>
    rw [ih]
    rfl
  | case3 s keypad rest t b hl =>
    simp only [handled, hl, reduceCtorEq, if_false, if_true]
    rw [afterAll_cons, after_reloadKey]
    rfl
  | case4 s keypad rest t _ hl _ ih =>
    simp only [handled, hl, reduceCtorEq, if_false, if_true]
    rw [ih, afterAll_cons, after_reloadKey]
  | case5 s keypad event rest hq hr ih =>
    simp only [handled, if_neg hq, if_neg hr]
    rw [ih, afterAll_cons]

/-- A handling that does not break down reads every event and tells the machine at the end. -/
theorem handle_complete {keypad : Keypad} {events : List Event}
    (h : (s.handle w keypad events).2 = none) : s.handled w keypad events = events ∧
      (s.handle w keypad events).1.machine.key = (keypad.afterAll events).key := by
  fun_induction handle w s keypad events with
  | case1 s keypad => exact ⟨rfl, congrArg Machine.key (s.machine.hold_code keypad).2⟩
  | case2 s keypad rest ih =>
    obtain ⟨hread, hkey⟩ := ih h
    refine ⟨?_, hkey⟩
    simp only [handled, if_true, hread]
  | case3 => cases h
  | case4 s keypad rest t _ hl _ ih =>
    obtain ⟨hread, hkey⟩ := ih h
    rw [afterAll_cons, after_reloadKey]
    refine ⟨?_, hkey⟩
    simp only [handled, hl, reduceCtorEq, if_false, if_true, hread]
  | case5 s keypad event rest hq hr ih =>
    obtain ⟨hread, hkey⟩ := ih h
    refine ⟨?_, hkey⟩
    simp only [handled, if_neg hq, if_neg hr, hread]

section
variable (hs : s.keypad = some k)
include hs

theorem handleEvents_keypad :
    (s.handleEvents w).1.keypad = some (k.afterAll (s.handledEvents w)) := by
  simp only [handleEvents, handledEvents, hs]
  exact handle_keypad w _ k s.queue

theorem handleEvents_complete (h : (s.handleEvents w).2 = none) :
    s.handledEvents w = s.queue ∧
      (s.handleEvents w).1.machine.key = (k.afterAll s.queue).key := by
  simp only [handleEvents, handledEvents, hs] at h ⊢
  exact handle_complete h

end

theorem takeSteps_keypad (w : World) (s : Session) (count : Nat) :
    (s.takeSteps w count).1.keypad = s.keypad := by
  induction count generalizing s with
  | zero => rfl
  | succ count ih =>
    rw [takeSteps_succ]
    split
    · rfl
    · exact ih _

theorem takeSteps_key (w : World) (s : Session) (count : Nat) :
    (s.takeSteps w count).1.machine.key = s.machine.key := by
  induction count generalizing s with
  | zero => rfl
  | succ count ih =>
    have hstep := s.machine.step_key w.dice s.reading
    rw [takeSteps_succ]
    split
    · exact hstep
    · exact (ih _).trans hstep

theorem refresh_keypad (s : Session) : s.refresh.keypad = s.keypad := by
  simp only [refresh]
  split <;> rfl

theorem sound_keypad (s : Session) (active : Bool) : (s.sound active).keypad = s.keypad := by
  unfold sound
  cases s.buzzer <;> rfl

theorem frame_keypad (w : World) (s : Session) :
    (s.frame w).1.keypad = (s.handleEvents w).1.keypad := by
  unfold frame
  rcases s.handleEvents w with ⟨t, _ | b⟩
  · have hsteps := t.takeSteps_keypad w (if t.loaded then t.pace else 0)
    simp only
    generalize t.takeSteps w (if t.loaded then t.pace else 0) = result at hsteps ⊢
    obtain ⟨u, _ | b⟩ := result
    · exact (sound_keypad _ _).trans ((refresh_keypad u).trans hsteps)
    · exact hsteps
  · rfl

theorem collapse_keypad (s : Session) (b : Breakdown) : (s.collapse b).1.keypad = s.keypad := by
  unfold collapse
  cases b with
  | system e => rfl
  | fault f =>
    simp only
    split <;> rfl

/-- From frame to frame the keypad is handed on, as the events of each frame have left it. -/
def HandedOn (w : World) (k : Keypad) : List Session → Prop
  | [] => True
  | s :: rest => s.keypad = some k ∧ HandedOn w (k.afterAll (s.handledEvents w)) rest

theorem handedOn_append {first second : List Session} : HandedOn w k (first ++ second) ↔
    HandedOn w k first ∧ HandedOn w (k.afterAll (first.flatMap (handledEvents w))) second := by
  induction first generalizing k with
  | nil => simp [HandedOn, afterAll]
  | cons s rest ih =>
    rw [List.cons_append, HandedOn, HandedOn, ih, List.flatMap_cons, afterAll_append, and_assoc]

theorem HandedOn.keypad {starts earlier : List Session} (h : HandedOn w k starts)
    (hp : earlier ++ [t] <+: starts) :
    t.keypad = some (k.afterAll (earlier.flatMap (handledEvents w))) := by
  obtain ⟨later, rfl⟩ := hp
  rw [handedOn_append, handedOn_append] at h
  exact h.1.2.1

/-- One frame alone. -/
theorem frame_handedOn (hs : s.keypad = some k) : HandedOn w k [s] ∧ (s.frame w).1.keypad =
    some (k.afterAll ([s].flatMap (handledEvents w))) := by
  refine ⟨⟨hs, trivial⟩, ?_⟩
  rw [frame_keypad, handleEvents_keypad hs, List.flatMap_singleton]

theorem loop_handedOn (hs : s.keypad = some k) (script : List Tick) :
    HandedOn w k (s.frames w script) ∧ (s.loop w script).1.keypad =
      some (k.afterAll ((s.frames w script).flatMap (handledEvents w))) := by
  -- What a frame hands on goes to the end of the loop, unless the loop goes on behind a tick.
  have hone := frame_handedOn (w := w) hs
  fun_induction loop w s script generalizing k with
  | case1 script s hrun t b hf =>
    unfold frames
    simp only [hf, if_pos hrun, collapse_keypad] at hone ⊢
    exact hone
  | case2 s hrun t hf =>
    unfold frames
    simp only [hf, if_pos hrun] at hone ⊢
    exact hone
  | case3 s hrun t hf tick rest =>
    rename_i hi
    unfold frames
    simp only [hf, if_pos hrun, if_pos hi] at hone ⊢
    exact hone
  | case4 s hrun t hf tick rest =>
    rename_i hi ih
    rw [hf, List.flatMap_singleton] at hone
    obtain ⟨hrest, hloop⟩ := ih hone.2 (frame_handedOn hone.2)
    unfold frames
    simp only [hf, if_pos hrun, if_neg hi]
    refine ⟨⟨hs, hrest⟩, ?_⟩
    rw [hloop, List.flatMap_cons, afterAll_append]
  | case5 script s hrun =>
    unfold frames
    rw [if_neg hrun]
    exact ⟨trivial, hs⟩

theorem act_handedOn (hs : s.keypad = some k) (activity : Activity) :
    HandedOn w k (s.framesOf w activity) ∧ (s.act w activity).1.keypad =
      some (k.afterAll ((s.framesOf w activity).flatMap (handledEvents w))) := by
  cases activity with
  | load path =>
    refine ⟨trivial, ?_⟩
    rw [act_load]
    exact (s.load_keypad w path).trans hs
  | post events | wait now => exact ⟨trivial, hs⟩
  | frame => exact frame_handedOn hs
  | run script =>
    obtain ⟨hframes, hloop⟩ := loop_handedOn (w := w) (s := { s with running := true }) hs script
    have hrun : (s.run w script).1.keypad =
        some (k.afterAll ((s.framesOf w (.run script)).flatMap (handledEvents w))) :=
      (sound_keypad _ _).trans hloop
    refine ⟨hframes, ?_⟩
    rw [act_run]
    exact hrun

theorem frameStarts_handedOn (hs : s.keypad = some k) (history : List Activity) :
    HandedOn w k (s.frameStarts w history) := by
  induction history generalizing s k with
  | nil => trivial
  | cons activity rest ih =>
    obtain ⟨hframes, hafter⟩ := act_handedOn hs activity
    exact handedOn_append.2 ⟨hframes, ih hafter⟩

/-- After the events of the frame that begins in `t`, behind frames that began in `earlier`, `k` is
the keypad, and unless the handling broke down the machine knows its key. -/
structure Told (w : World) (earlier : List Session) (t : Session) (k : Keypad) : Prop where
  keypad : (t.handleEvents w).1.keypad = some k
  held : ∀ key, k.key = some key ↔ HeldBy key ((earlier ++ [t]).flatMap (handledEvents w))
  handled : (∀ u ∈ earlier ++ [t], (u.handleEvents w).2 = none) →
    (earlier ++ [t]).flatMap (handledEvents w) = (earlier ++ [t]).flatMap queue
  machine : (t.handleEvents w).2 = none → (t.handleEvents w).1.machine.key = k.key
  steps : ∀ count, ((t.handleEvents w).1.takeSteps w count).1.machine.key =
    (t.handleEvents w).1.machine.key

theorem HandedOn.handled {starts : List Session} (h : HandedOn w k starts)
    (hc : ∀ u ∈ starts, (u.handleEvents w).2 = none) :
    starts.flatMap (handledEvents w) = starts.flatMap queue := by
  induction starts generalizing k with
  | nil => rfl
  | cons u rest ih =>
    obtain ⟨hu, hrest⟩ := List.forall_mem_cons.1 hc
    rw [List.flatMap_cons, List.flatMap_cons, (handleEvents_complete h.1 hu).1, ih h.2 hrest]

theorem HandedOn.told {starts earlier : List Session} (h : HandedOn w {} starts)
    (hp : earlier ++ [t] <+: starts) :
    Told w earlier t (({} : Keypad).afterAll ((earlier ++ [t]).flatMap (handledEvents w))) := by
  have ht := h.keypad hp
  have hnow : (earlier ++ [t]).flatMap (handledEvents w) =
      earlier.flatMap (handledEvents w) ++ t.handledEvents w := by
    rw [List.flatMap_append, List.flatMap_singleton]
  refine ⟨?_, key_afterAll_iff _, ?_, ?_, takeSteps_key w _⟩
  · rw [hnow, afterAll_append]
    exact handleEvents_keypad ht
  · obtain ⟨later, rfl⟩ := hp
    exact (handedOn_append.1 h).1.handled
  · intro hc
    obtain ⟨hall, hkey⟩ := handleEvents_complete ht hc
    rw [hnow, afterAll_append, hall]
    exact hkey

/-- Whatever happens to a session that begins with no key down, after each handling of events
the machine takes that key for held which was pressed last and not let go, and the steps of the
frame do not change it. A machine never refuses a key of the keypad. The sixteen key codes stand for
the keys that the table says, and events with other codes do not concern the keypad. -/
theorem held_key (hs : s.keypad = some {}) (w : World) (history : List Activity) :
    (∀ earlier t, earlier ++ [t] <+: s.frameStarts w history → ∃ k, Told w earlier t k) ∧
    (∀ (m : Machine) (k : Keypad), (m.hold k.code).fault = none) ∧
    (∀ code key, key? code = some key ↔ (code, key) ∈ keyCodes) ∧
    ∀ e : Event, (change? e).isSome ↔
      ∃ entry ∈ layout, e = .keyDown entry.1.toNat ∨ e = .keyUp entry.1.toNat :=
  ⟨fun _ _ hp => ⟨_, (frameStarts_handedOn hs history).told hp⟩, fun m k => (m.hold_code k).1,
    fun _ _ => key?_eq_some_iff, isSome_change?_iff⟩

theorem start_keypad {settings : Settings} {display : Display} {equipment : Equipment}
    {host : Host} {clock : Clock} {picks : List (Option String)}
    (h : (start settings display equipment host clock picks).2 = .ok s) (he : equipment.keypad = true) :
    s.keypad = some {} := by
  obtain ⟨buzzer, pace, -, -, rfl⟩ := start_eq_ok h
  exact if_pos he

/-- A session that waits to be told which key is held. -/
def player (settings : Settings) : Session where
  machine := .fresh settings 0
  pace := 9
  keypad := some {}

/-- The key Q goes down, and the file picker is opened and cancelled. -/
def pressed : List Event := [.keyDown 'q'.toNat, .keyDown reloadKey]

theorem held_key_pressed : (player {}).keypad = some {} ∧
    [] ++ [(player {}).post pressed] <+:
      (player {}).frameStarts stillWorld [.post pressed, .frame] ∧
    ∃ k, Told stillWorld [] ((player {}).post pressed) k ∧ k.key = some 4 := by
  have hp : [] ++ [(player {}).post pressed] <+:
      (player {}).frameStarts stillWorld [.post pressed, .frame] := ⟨[], rfl⟩
  obtain ⟨k, hk⟩ := (held_key (s := player {}) rfl stillWorld [.post pressed, .frame]).1 [] _ hp
  have hall := hk.handled (List.forall_mem_singleton.2 rfl)
  refine ⟨rfl, hp, k, hk, (hk.held 4).2 ?_⟩
  rw [hall]
  refine ⟨[], 'q'.toNat, [.keyDown reloadKey], rfl, by decide, ?_, by simp⟩
  intro other ho
  obtain rfl := Event.keyDown.inj (List.mem_singleton.1 ho)
  decide

end Session

end Chip8
