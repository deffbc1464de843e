import Chip8.Proofs.Memory.Block
import Chip8.Proofs.Session.Invariant
import Chip8.Session.Start

/-!
Games start on a clean machine. Before the first game nothing runs, so the machine is as it was
when it was switched on, but for the key that is held and the redraw notice. Before any other
game the machine is reset, whatever the last one has done to it.
-/
namespace Chip8

namespace Font

theorem toList_install_blank : (install .blank).toList =
    List.replicate 80 0 ++ glyphs.flatten ++ List.replicate 3936 0 := by
  have hlen : glyphs.flatten.length = 80 := by decide
  rw [install, Memory.toList_overlay _ _ _ (by rw [hlen]; decide), hlen, Memory.blank,
    Vector.toList_replicate, List.take_replicate, List.drop_replicate]
  rfl

theorem toList_overlay_install {game : List UInt8} (h : game.length ≤ gameCapacity) :
    ((install .blank).overlay gameStart game).toList = List.replicate 80 0 ++ glyphs.flatten ++
      List.replicate 352 0 ++ game ++ List.replicate (3584 - game.length) 0 := by
  have hcap : game.length ≤ 3584 := h
  have hlen : glyphs.flatten.length = 80 := by decide
  have hfront : (List.replicate 80 (0 : UInt8) ++ glyphs.flatten).length = 160 := by
    rw [List.length_append, List.length_replicate, hlen]
  rw [gameStart, Memory.toList_overlay _ _ _ (by omega), toList_install_blank, List.take_append,
    List.drop_append, hfront, List.take_of_length_le (by omega),
    List.drop_eq_nil_of_le (by omega), List.take_replicate, List.drop_replicate, List.nil_append,
    show 3936 - (512 + game.length - 160) = 3584 - game.length by omega]
  rfl

end Font

namespace Machine

variable {m : Machine} {game : List UInt8}

/-- All is as it was when the machine was switched on, but perhaps the key that is held, the
redraw notice, the clock reading of the timers and the position among the random numbers. -/
structure Pristine (m : Machine) : Prop where
  memory : m.memory = Font.install .blank
  registers : m.registers = Vector.replicate 16 0
  index : m.index = 0
  counter : m.counter = gameStart
  stack : m.stack = []
  delay : m.delay = 0
  sound : m.sound = 0
  screen : m.screen = .blank

/-- The font and a game are in memory, and everything else is zero or empty. -/
structure Clean (m : Machine) (game : List UInt8) : Prop where
  memory : m.memory.toList = List.replicate 80 0 ++ Font.glyphs.flatten ++
    List.replicate 352 0 ++ game ++ List.replicate (3584 - game.length) 0
  register : ∀ x, m.register x = 0
  index : m.index = 0
  counter : m.counter = 512
  stack : m.stack = []
  delay : m.delay = 0
  sound : m.sound = 0
  pixel : ∀ x y, m.screen.pixel x y = false

theorem fresh_pristine (settings : Settings) (now : Float) : (fresh settings now).Pristine :=
  ⟨rfl, rfl, rfl, rfl, rfl, rfl, rfl, rfl⟩

theorem reset_pristine (m : Machine) (now : Float) : (m.reset now).machine.Pristine :=
  ⟨rfl, rfl, rfl, rfl, rfl, rfl, rfl, rfl⟩

theorem hold_machine (m : Machine) (key : Option Int) :
    ∃ held, (m.hold key).machine = { m with key := held } := by
  unfold hold
  cases key with
  | none => exact ⟨none, rfl⟩
  | some key =>
    simp only
    split
    · exact ⟨_, rfl⟩
    · exact ⟨m.key, rfl⟩

theorem Pristine.hold (h : m.Pristine) (key : Option Int) : (m.hold key).machine.Pristine := by
  obtain ⟨held, he⟩ := m.hold_machine key
  rw [he]
  exact { h with }

theorem Pristine.takeRedraw (h : m.Pristine) : m.takeRedraw.2.Pristine := { h with }

theorem Pristine.clean (h : m.Pristine) (hgame : game.length ≤ gameCapacity) :
    (m.loadGame game).machine.Clean game := by
  rw [(loadGame_of_le hgame).2]
  exact {
    memory := by
      rw [h.memory]
      exact Font.toList_overlay_install hgame
    register := by
      intro x
      change m.registers[x.val] = 0
      rw [h.registers, Vector.getElem_replicate]
    index := h.index
    counter := rfl
    stack := h.stack
    delay := h.delay
    sound := h.sound
    pixel := by
      intro x y
      rw [h.screen]
      exact Screen.pixel_blank x y }

end Machine

/-- Without a game the machine stays pristine, as only a machine with a game takes steps. -/
theorem kept_pristine (w : World) : Kept w fun m loaded => loaded = false → m.Pristine where
  hold key h hl := (h hl).hold key
  step _ _ hl := by cases hl
  takeRedraw h hl := (h hl).takeRedraw
  first _ _ hl := by cases hl
  another _ _ _ _ hl := by cases hl

namespace Session

/-- Nothing has been done yet with the machine. -/
structure New (s : Session) : Prop where
  machine : ∃ settings now, s.machine = .fresh settings now
  loaded : s.loaded = false

variable {w : World} {s : Session}

theorem New.pristine (h : s.New) : s.machine.Pristine := by
  obtain ⟨settings, now, hm⟩ := h.machine
  rw [hm]
  exact Machine.fresh_pristine settings now

section
variable {settings : Settings} {display : Display} {equipment : Equipment} {host : Host}
  {clock : Clock} {picks : List (Option String)}

theorem start_eq_ok (h : (start settings display equipment host clock picks).2 = .ok s) :
    ∃ buzzer pace, (setUpBuzzer equipment.buzzer host).2 = .ok buzzer ∧
      settings.instructionsPerFrame frameRate = .ok pace ∧ s =
      { machine := .fresh settings (clock 0 0)
        pace := pace
        keypad := if equipment.keypad then some {} else none
        buzzer := buzzer
        interactive := equipment.interactive
        picks := picks
        clock := clock
        looks := 1
        journal := (start settings display equipment host clock picks).1 } := by
  unfold start at h ⊢
  cases hd : display.opening host.window with
  | error e => simp [hd] at h
  | ok _ =>
    cases hb : (setUpBuzzer equipment.buzzer host).2 with
    | error e => simp [hd, hb] at h
    | ok buzzer =>
      cases hp : settings.instructionsPerFrame frameRate with
      | error e => simp [hd, hb, hp] at h
      | ok pace =>
        simp only [hd, hb, hp, Except.ok.injEq] at h ⊢
        exact ⟨buzzer, pace, rfl, rfl, h.symm⟩

theorem start_new (h : (start settings display equipment host clock picks).2 = .ok s) : s.New := by
  obtain ⟨buzzer, pace, -, -, rfl⟩ := start_eq_ok h
  exact ⟨⟨settings, clock 0 0, rfl⟩, rfl⟩

end

theorem insert_clean (h : s.loaded = false → s.machine.Pristine) (path : Path)
    {game : List UInt8} (hgame : game.length ≤ gameCapacity) :
    (s.insert path game).1.machine.Clean game ∧ (s.insert path game).1.loaded = true := by
  cases hl : s.loaded with
  | false =>
    have hclean := (h hl).clean hgame
    simp only [insert, hl, (Machine.loadGame_of_le hgame).1]
    exact ⟨hclean, rfl⟩
  | true =>
    have hclean := (s.machine.reset_pristine s.reading).clean hgame
    simp only [insert, hl, (Machine.loadGame_of_le hgame).1]
    exact ⟨hclean, rfl⟩

/-- Whatever has been done with a session, a load that goes through leaves a clean machine with
the game in memory. -/
theorem load_clean (hs : s.New) (history : List Activity) :
    ∀ call ∈ s.loads w history, (call.1.load w call.2).2 = .ok true →
      ∃ path game, call.1.source call.2 = some path ∧ w.files.Holds path game ∧
        (call.1.load w call.2).1.machine.Clean game ∧
        (call.1.load w call.2).1.loaded = true := by
  intro ⟨t, path⟩ hc hok
  have hpristine : t.loaded = false → t.machine.Pristine :=
    (kept_pristine w).loads (fun _ => hs.pristine) history (t, path) hc
  rcases t.load_cases w path with ⟨p, game, hp, hr, hl⟩ | ⟨hn, -, -⟩
  · obtain ⟨hfile, -, hgame⟩ := Cartridge.read_eq_game_iff.1 hr
    have hasked := (t.unmoved_asked w path).trans (unmoved_log _ [Cartridge.announcement p])
    refine ⟨p, game, hp, hfile, ?_⟩
    rw [hl]
    refine insert_clean ?_ p hgame
    rw [hasked.eq]
    exact hpristine
  · exact absurd (load_eq_true_iff.1 hok) hn

/-- A world whose files all hold the game that jumps to its own first word. -/
def stillWorld : World where
  files := fun _ => .file (.ofBytes [0x12, 0x00])
  dice := fun _ => 0
  folder := ⟨0, []⟩

/-- A session whose machine has just been switched on. -/
def newcomer (settings : Settings) : Session where
  machine := .fresh settings 0
  pace := 9

theorem load_clean_again :
    let path : Path := ⟨0, ["still.ch8"]⟩
    let before : List Activity := [.load (some path), .frame]
    let call : Session × Option Path := ((newcomer {}).after stillWorld before, some path)
    ((newcomer {}).New ∧ call ∈ (newcomer {}).loads stillWorld (before ++ [.load (some path)]) ∧
      (call.1.load stillWorld call.2).2 = .ok true) ∧
    ∃ p game, call.1.source call.2 = some p ∧ stillWorld.files.Holds p game ∧
      (call.1.load stillWorld call.2).1.machine.Clean game ∧
      (call.1.load stillWorld call.2).1.loaded = true := by
  intro path before call
  have hnew : (newcomer {}).New := ⟨⟨{}, 0, rfl⟩, rfl⟩
  have hmem := (newcomer {}).load_mem_loads stillWorld before (some path)
  have hread : Cartridge.read stillWorld.files path = .game [0x12, 0x00] :=
    Cartridge.read_eq_game_iff.2 ⟨⟨_, rfl, rfl⟩, by decide +kernel, by decide⟩
  have hok : (call.1.load stillWorld call.2).2 = .ok true :=
    load_eq_true_iff.2 ⟨path, _, rfl, hread⟩
  exact ⟨⟨hnew, hmem, hok⟩, load_clean hnew (before ++ [.load (some path)]) call hmem hok⟩

end Session

end Chip8
