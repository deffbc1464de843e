import Chip8.Proofs.Session.Load
import Chip8.Session.Run

/-!
What holds of the machine throughout a session. A session does five things to its machine: it
holds a key, takes a step, takes the redraw notice, puts the first game in, or resets the machine
and puts another game in. A property that these keep holds after every history, and also in the
middle of frames and runs, wherever a game is asked for.
-/
namespace Chip8

/-- The property of a machine, and of whether a game is loaded, is kept by all that a session does
to its machine. Only a machine with a game takes steps. -/
structure Kept (w : World) (P : Machine → Bool → Prop) : Prop where
  hold : ∀ {m loaded} (key : Option Int), P m loaded → P (m.hold key).machine loaded
  step : ∀ {m} (now : Float), P m true → P (m.step w.dice now).machine true
  takeRedraw : ∀ {m loaded}, P m loaded → P m.takeRedraw.2 loaded
  first : ∀ {m} {game : List UInt8}, game.length ≤ gameCapacity → P m false →
    P (m.loadGame game).machine true
  another : ∀ {m} (now : Float) {game : List UInt8}, game.length ≤ gameCapacity → P m true →
    P ((m.reset now).machine.loadGame game).machine true

namespace Session

/-- The sessions in which a game is asked for while events are handled. -/
def reloads (w : World) (s : Session) (keypad : Keypad) : List Event → List Session
  | [] => []
  | event :: rest =>
    if event = .quit then reloads w { s with running := false } keypad rest
    else if event = .keyDown reloadKey then
      match s.load w none with
      | (_, .error _) => [s]
      | (t, .ok _) => s :: reloads w t keypad rest
    else reloads w (s.log (Keypad.lines event)) (keypad.after event) rest

def frameReloads (w : World) (s : Session) : List Session :=
  match s.keypad with
  | none => []
  | some keypad => reloads w { s with queue := [] } keypad s.queue

/-- The sessions in which the frames of a run begin. -/
def frames (w : World) (s : Session) (script : List Tick) : List Session :=
  if s.running then
    match s.frame w, script with
    | (t, none), tick :: rest =>
      if tick.interrupted then [s] else s :: frames w (t.tick tick) rest
    | _, _ => [s]
  else []

/-- The loads of an activity: the sessions before them, with the paths that are given. -/
def loadsOf (w : World) (s : Session) : Activity → List (Session × Option Path)
  | .load path => [(s, path)]
  | .frame => (s.frameReloads w).map fun t => (t, none)
  | .run script =>
    ((frames w { s with running := true } script).flatMap (frameReloads w)).map fun t => (t, none)
  | .post _ | .wait _ => []

/-- The loads of a history, those during its frames and runs among them. -/
def loads (w : World) (s : Session) : List Activity → List (Session × Option Path)
  | [] => []
  | activity :: rest => s.loadsOf w activity ++ loads w (s.act w activity).1 rest

theorem act_load (w : World) (s : Session) (path : Option Path) :
    (s.act w (.load path)).1 = (s.load w path).1 := by
  rw [act]
  rcases s.load w path with ⟨t, b | _⟩ <;> rfl

theorem act_run (w : World) (s : Session) (script : List Tick) :
    (s.act w (.run script)).1 = (s.run w script).1 := by
  rw [act]
  rcases s.run w script with ⟨t, _ | b | _⟩ <;> rfl

theorem loads_append (w : World) (s : Session) (first second : List Activity) :
    s.loads w (first ++ second) = s.loads w first ++ (s.after w first).loads w second := by
  induction first generalizing s with
  | nil => rfl
  | cons activity rest ih =>
    rw [List.cons_append, loads, loads, ih, List.append_assoc]
    rfl

theorem load_mem_loads (w : World) (s : Session) (history : List Activity)
    (path : Option Path) : (s.after w history, path) ∈ s.loads w (history ++ [.load path]) := by
  rw [loads_append]
  exact List.mem_append_right _ List.mem_cons_self

end Session

namespace Kept

open Session

variable {w : World} {P : Machine → Bool → Prop} {s : Session}

theorem of_result {α : Type} {result : Session × α} {t : Session} {a : α}
    (h : P result.1.machine result.1.loaded) (ht : result = (t, a)) : P t.machine t.loaded := by
  rw [ht] at h
  exact h

variable (hP : Kept w P)
include hP

theorem insert (h : P s.machine s.loaded) (path : Path) {game : List UInt8}
    (hgame : game.length ≤ gameCapacity) :
    P (s.insert path game).1.machine (s.insert path game).1.loaded := by
  cases hl : s.loaded with
  | false =>
    rw [hl] at h
    simp only [Session.insert, hl, (Machine.loadGame_of_le hgame).1]
    exact hP.first hgame h
  | true =>
    rw [hl] at h
    simp only [Session.insert, hl, (Machine.loadGame_of_le hgame).1]
    exact hP.another _ hgame h

theorem load (h : P s.machine s.loaded) (path : Option Path) :
    P (s.load w path).1.machine (s.load w path).1.loaded := by
  rcases s.load_eq_insert_or_unmoved w path with ⟨t, p, game, ht, hgame, hl⟩ | ⟨-, hm⟩
  · rw [hl]
    refine hP.insert ?_ p hgame
    rw [ht.eq]
    exact h
  · rw [hm.eq]
    exact h

theorem handle (h : P s.machine s.loaded) (keypad : Keypad) (events : List Event) :
    P (s.handle w keypad events).1.machine (s.handle w keypad events).1.loaded := by
  fun_induction Session.handle w s keypad events with
  | case1 s keypad => exact hP.hold _ h
  | case2 s keypad rest ih => exact ih h
  | case3 s keypad rest t b hl =>
    have ht : P t.machine t.loaded := of_result (hP.load h none) hl
    exact ht
  | case4 s keypad rest t _ hl _ ih => exact ih (of_result (hP.load h none) hl)
  | case5 s keypad event rest _ _ ih => exact ih h

theorem reloads (h : P s.machine s.loaded) (keypad : Keypad) (events : List Event) :
    ∀ t ∈ s.reloads w keypad events, P t.machine t.loaded := by
  fun_induction Session.reloads w s keypad events with
  | case1 => simp
  | case2 s keypad rest ih => exact ih h
  | case3 s => exact List.forall_mem_singleton.2 h
  | case4 s keypad rest t _ hl _ ih =>
    exact List.forall_mem_cons.2 ⟨h, ih (of_result (hP.load h none) hl)⟩
  | case5 s keypad event rest _ _ ih => exact ih h

theorem handleEvents (h : P s.machine s.loaded) :
    P (s.handleEvents w).1.machine (s.handleEvents w).1.loaded := by
  unfold Session.handleEvents
  split
  · exact h
  · exact hP.handle (s := { s with queue := [] }) h _ s.queue

theorem frameReloads (h : P s.machine s.loaded) :
    ∀ t ∈ s.frameReloads w, P t.machine t.loaded := by
  unfold Session.frameReloads
  split
  · simp
  · exact hP.reloads (s := { s with queue := [] }) h _ s.queue

theorem takeSteps (h : P s.machine s.loaded) (hl : s.loaded = true) (count : Nat) :
    P (s.takeSteps w count).1.machine (s.takeSteps w count).1.loaded := by
  induction count generalizing s with
  | zero =>
    rw [takeSteps_zero]
    exact h
  | succ count ih =>
    have hstep : P (s.machine.step w.dice s.reading).machine s.loaded := by
      rw [hl] at h ⊢
      exact hP.step s.reading h
    rw [takeSteps_succ]
    generalize s.machine.step w.dice s.reading = out at hstep ⊢
    cases hf : out.fault with
    | some fault => exact hstep
    | none => exact ih (s := s.look.adopt out) hstep hl

theorem refresh (h : P s.machine s.loaded) : P s.refresh.machine s.refresh.loaded := by
  have htaken := hP.takeRedraw h
  simp only [Session.refresh]
  split <;> exact htaken

omit hP in
theorem sound (h : P s.machine s.loaded) (active : Bool) :
    P (s.sound active).machine (s.sound active).loaded := by
  unfold Session.sound
  cases s.buzzer <;> exact h

theorem frame (h : P s.machine s.loaded) :
    P (s.frame w).1.machine (s.frame w).1.loaded := by
  have hevents := hP.handleEvents h
  unfold Session.frame
  rcases he : s.handleEvents w with ⟨t, b | _⟩
  · have ht : P t.machine t.loaded := of_result hevents he
    have hsteps : P (t.takeSteps w (if t.loaded then t.pace else 0)).1.machine
        (t.takeSteps w (if t.loaded then t.pace else 0)).1.loaded := by
      cases hl : t.loaded with
      | false =>
        rw [if_neg Bool.false_ne_true, takeSteps_zero]
        exact ht
      | true =>
        rw [if_pos rfl]
        exact hP.takeSteps ht hl t.pace
    simp only
    rcases hs : t.takeSteps w (if t.loaded then t.pace else 0) with ⟨u, b | _⟩
    · exact sound (hP.refresh (of_result hsteps hs)) _
    · exact of_result hsteps hs
  · exact of_result hevents he

omit hP in
theorem collapse (h : P s.machine s.loaded) (b : Breakdown) :
    P (s.collapse b).1.machine (s.collapse b).1.loaded := by
  unfold Session.collapse
  cases b with
  | system e => exact h
  | fault f =>
    simp only
    split <;> exact h

theorem loop (h : P s.machine s.loaded) (script : List Tick) :
    P (s.loop w script).1.machine (s.loop w script).1.loaded := by
  fun_induction Session.loop w s script with
  | case1 script s _ t b hf => exact collapse (of_result (hP.frame h) hf) b
  | case2 s _ t hf | case3 s _ t hf =>
    have ht : P t.machine t.loaded := of_result (hP.frame h) hf
    exact ht
  | case4 s _ t hf tick rest _ _ ih =>
    have ht : P t.machine t.loaded := of_result (hP.frame h) hf
    exact ih ht
  | case5 => exact h

theorem frames (h : P s.machine s.loaded) (script : List Tick) :
    ∀ t ∈ s.frames w script, P t.machine t.loaded := by
  fun_induction Session.frames w s script with
  | case1 s | case3 _ s => exact List.forall_mem_singleton.2 h
  | case2 s _ t tick rest hf _ ih =>
    have ht : P t.machine t.loaded := of_result (hP.frame h) hf
    exact List.forall_mem_cons.2 ⟨h, ih ht⟩
  | case4 => simp

theorem act (h : P s.machine s.loaded) (activity : Activity) :
    P (s.act w activity).1.machine (s.act w activity).1.loaded := by
  cases activity with
  | load path =>
    rw [act_load]
    exact hP.load h path
  | post events | wait now => exact h
  | frame => exact hP.frame h
  | run script =>
    have hloop := hP.loop (s := { s with running := true }) h script
    have hrun : P (s.run w script).1.machine (s.run w script).1.loaded := sound hloop false
    rw [act_run]
    exact hrun

theorem loadsOf (h : P s.machine s.loaded) (activity : Activity) :
    ∀ call ∈ s.loadsOf w activity, P call.1.machine call.1.loaded := by
  intro call hc
  cases activity with
  | load path =>
    rw [List.mem_singleton.1 hc]
    exact h
  | post events | wait now => cases hc
  | frame =>
    obtain ⟨t, ht, rfl⟩ := List.mem_map.1 hc
    exact hP.frameReloads h t ht
  | run script =>
    obtain ⟨t, ht, rfl⟩ := List.mem_map.1 hc
    obtain ⟨u, hu, ht⟩ := List.mem_flatMap.1 ht
    exact hP.frameReloads (hP.frames (s := { s with running := true }) h script u hu) t ht

/-- What is kept holds wherever a game is asked for. -/
theorem loads (h : P s.machine s.loaded) (history : List Activity) :
    ∀ call ∈ s.loads w history, P call.1.machine call.1.loaded := by
  induction history generalizing s with
  | nil => simp [Session.loads]
  | cons activity rest ih =>
    intro call hc
    rcases List.mem_append.1 hc with hc | hc
    · exact hP.loadsOf h activity call hc
    · exact ih (hP.act h activity) call hc

end Kept

end Chip8
