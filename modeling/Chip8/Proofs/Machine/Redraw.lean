import Chip8.Proofs.Machine.Bounds
import Chip8.Proofs.Screen.Sprite
import Mathlib.Data.List.Infix

/-!
The redraw notice and the changes it covers. A watch remembers the screen that was up when the
notice was last taken. A screen that differs from it is noticed, except after a torn sprite: one
that runs out of memory with the notice down, and has drawn a lit pixel by then. A history has a
change that goes unnoticed exactly when it tears a sprite.
-/
namespace Chip8

/-- A machine and the screen that was on it when the redraw notice was last taken. -/
structure Watch where
  machine : Machine
  shown : Screen

namespace Watch

def start (settings : Settings) (now : Float) : Watch :=
  ⟨.fresh settings now, (Machine.fresh settings now).screen⟩

def shownAfter (w : Watch) : Operation → Screen
  | .takeRedraw => w.machine.screen
  | _ => w.shown

def apply (dice : Nat → Int) (w : Watch) (operation : Operation) : Watch where
  machine := (w.machine.apply dice operation).machine
  shown := w.shownAfter operation

def after (dice : Nat → Int) (w : Watch) (history : List Operation) : Watch :=
  history.foldl (apply dice) w

/-- If the screen is not the one last shown, taking the notice will tell. -/
def Noticed (w : Watch) : Prop := w.machine.screen ≠ w.shown → w.machine.takeRedraw.1 = true

end Watch

namespace Machine

/-- The request is a step that tears a sprite: the notice is down, some of the rows on the screen
lie behind the end of memory, and not all bytes before it are zero. -/
def Tears (m : Machine) : Operation → Prop
  | .step _ => m.redraw = false ∧ ∃ x y height, m.Next (.draw x y height) ∧
      4096 < m.index + m.visibleRows y height ∧
      ∃ (a : Nat) (value : UInt8), m.index ≤ a ∧ m.memory[a]? = some value ∧ value ≠ 0
  | _ => False

variable {dice : Nat → Int} {m : Machine} {now : Float} {i : Instruction}

theorem step_screen_of_next (hi : m.Next i) :
    (m.step dice now).machine.screen = i.screenAfter m := by
  obtain ⟨delay, sound, lastTick, h⟩ := step_machine_of_next dice now hi
  rw [h, i.execute_screen]
  cases i <;> rfl

theorem step_redraw_of_next (hi : m.Next i) :
    (m.step dice now).machine.redraw = i.redrawAfter m := by
  obtain ⟨delay, sound, lastTick, h⟩ := step_machine_of_next dice now hi
  rw [h, i.execute_redraw]
  cases i <;> rfl

theorem step_screen_of_not_next (dice : Nat → Int) (now : Float) (hi : ∀ i, ¬m.Next i) :
    (m.step dice now).machine.screen = m.screen ∧
      (m.step dice now).machine.redraw = m.redraw := by
  obtain ⟨counter, delay, sound, lastTick, h⟩ := step_of_not_next dice now hi
  rw [h]
  exact ⟨rfl, rfl⟩

theorem draw_redrawAfter (hm : m.InBounds) (x y height : Nibble) :
    (Instruction.draw x y height).redrawAfter m =
      (decide (m.visibleRows y height = 0 ∨ m.index + m.visibleRows y height ≤ 4096) ||
        m.redraw) := by
  rw [Instruction.redrawAfter, m.memory.readBlock_fault hm.index_nonneg, Memory.blockFault]
  by_cases h : m.visibleRows y height = 0 ∨ m.index + m.visibleRows y height ≤ 4096
  · rw [if_pos h, decide_eq_true h]
    rfl
  · rw [if_neg h, decide_eq_false h]
    rfl

/-- A request other than a step leaves the screen alone, unless it is a reset, and a reset is
announced. -/
theorem apply_screen (m : Machine) (dice : Nat → Int) {operation : Operation}
    (hs : ∀ now, operation ≠ .step now) (ht : operation ≠ .takeRedraw) :
    (m.apply dice operation).machine.redraw = true ∨
      (m.apply dice operation).machine.screen = m.screen ∧
        (m.apply dice operation).machine.redraw = m.redraw := by
  by_cases hr : ∃ now, operation = .reset now
  · obtain ⟨now, rfl⟩ := hr
    exact Or.inl rfl
  push Not at hr
  obtain ⟨_, _, _, _, _, redraw, _, he, -, hkeep⟩ := m.apply_frame dice hs hr
  right
  rw [he]
  exact ⟨rfl, hkeep ht⟩

/-- With the notice down, a step changes the screen without a notice when it tears a sprite. -/
theorem step_tears_iff (dice : Nat → Int) (now : Float) (hm : m.InBounds) (hr : m.redraw = false) :
    m.Tears (.step now) ↔ (m.step dice now).machine.screen ≠ m.screen ∧
      (m.step dice now).machine.redraw = false := by
  by_cases hn : ∃ i, m.Next i
  · obtain ⟨i, hi⟩ := hn
    rw [step_screen_of_next hi, step_redraw_of_next hi]
    have hdraw : m.Tears (.step now) → ∃ x y height, i = .draw x y height := by
      rintro ⟨-, x, y, height, hd, -⟩
      exact ⟨x, y, height, next_unique hi hd⟩
    cases i with
    | clear =>
      constructor
      · intro ht
        obtain ⟨x, y, height, hd⟩ := hdraw ht
        cases hd
      · rintro ⟨-, h⟩
        cases h
    | draw x y height =>
      rw [draw_redrawAfter hm, hr, Bool.or_false, decide_eq_false_iff_not,
        Instruction.screenAfter, Ne, Screen.xor_eq_self_iff,
        picture_eq_blank_iff hm.index_nonneg]
      have h0 := hm.index_nonneg
      constructor
      · rintro ⟨-, x', y', height', hd, hend, a, value, ha, hv, hne⟩
        obtain ⟨rfl, rfl, rfl⟩ := Instruction.draw.inj (next_unique hi hd)
        obtain ⟨hlt, -⟩ := Vector.getElem?_eq_some_iff.1 hv
        refine ⟨fun hall => hne (hall (a - m.index.toNat) (by omega) value ?_), by omega⟩
        rw [show m.index.toNat + (a - m.index.toNat) = a by omega]
        exact hv
      · rintro ⟨hne, hend⟩
        push Not at hne
        obtain ⟨k, hk, value, hv, hz⟩ := hne
        exact ⟨hr, x, y, height, hi, by omega, m.index.toNat + k, value, by omega, hv, hz⟩
    | _ =>
      constructor
      · intro ht
        obtain ⟨x, y, height, hd⟩ := hdraw ht
        cases hd
      · rintro ⟨h, -⟩
        exact absurd rfl h
  · push Not at hn
    obtain ⟨hs, -⟩ := step_screen_of_not_next dice now hn
    constructor
    · rintro ⟨-, x, y, height, hd, -⟩
      exact absurd hd (hn _)
    · rintro ⟨h, -⟩
      exact absurd hs h

/-- A step never takes the notice down. -/
theorem step_redraw_of_redraw (dice : Nat → Int) (now : Float) (hr : m.redraw = true) :
    (m.step dice now).machine.redraw = true := by
  by_cases hn : ∃ i, m.Next i
  · obtain ⟨i, hi⟩ := hn
    rw [step_redraw_of_next hi]
    cases i <;> simp [Instruction.redrawAfter, hr]
  · push Not at hn
    rw [(step_screen_of_not_next dice now hn).2, hr]

theorem not_tears_of_not_step {operation : Operation} (hs : ∀ now, operation ≠ .step now) :
    ¬m.Tears operation := by
  cases operation with
  | step now => exact absurd rfl (hs now)
  | _ => exact id

end Machine

namespace Watch

variable {dice : Nat → Int} {w : Watch}

theorem machine_after (dice : Nat → Int) (w : Watch) (history : List Operation) :
    (w.after dice history).machine = w.machine.after dice history := by
  induction history generalizing w with
  | nil => rfl
  | cons operation history ih => exact ih (w.apply dice operation)

theorem shownAfter_of_ne {operation : Operation} (ht : operation ≠ .takeRedraw) :
    w.shownAfter operation = w.shown := by
  cases operation with
  | takeRedraw => exact absurd rfl ht
  | _ => rfl

theorem noticed_apply_of_not_step (hw : w.Noticed) {operation : Operation}
    (hs : ∀ now, operation ≠ .step now) : (w.apply dice operation).Noticed := by
  intro hne
  by_cases ht : operation = .takeRedraw
  · rw [ht] at hne
    exact absurd rfl hne
  · have hne : (w.machine.apply dice operation).machine.screen ≠ w.shownAfter operation := hne
    rw [shownAfter_of_ne ht] at hne
    rcases w.machine.apply_screen dice hs ht with h | ⟨hscreen, hredraw⟩
    · exact h
    · exact hredraw.trans (hw fun he => hne (hscreen.trans he))

theorem noticed_step_iff (dice : Nat → Int) (hm : w.machine.InBounds) (hw : w.Noticed)
    (now : Float) :
    (w.apply dice (.step now)).Noticed ↔ ¬w.machine.Tears (.step now) := by
  cases hr : w.machine.redraw with
  | true =>
    have hup := Machine.step_redraw_of_redraw dice now hr
    constructor
    · rintro - ⟨hdown, -⟩
      rw [hr] at hdown
      cases hdown
    · exact fun _ _ => hup
  | false =>
    -- With the notice down the screen is still the one last shown.
    have hshown : w.machine.screen = w.shown := by
      by_contra hne
      have hup : w.machine.redraw = true := hw hne
      rw [hr] at hup
      cases hup
    rw [Machine.step_tears_iff dice now hm hr, not_and, Bool.not_eq_false, hshown]
    rfl

/-- A watch on which every change is noticed stays so until a sprite is torn. -/
theorem noticed_apply_iff (dice : Nat → Int) (hm : w.machine.InBounds) (hw : w.Noticed)
    (operation : Operation) :
    (w.apply dice operation).Noticed ↔ ¬w.machine.Tears operation := by
  by_cases hs : ∃ now, operation = .step now
  · obtain ⟨now, rfl⟩ := hs
    exact noticed_step_iff dice hm hw now
  · push Not at hs
    exact iff_of_true (noticed_apply_of_not_step hw hs) (Machine.not_tears_of_not_step hs)

theorem start_noticed (settings : Settings) (now : Float) : (start settings now).Noticed :=
  fun hne => absurd rfl hne

theorem after_noticed (history : List Operation) (hm : w.machine.InBounds) (hw : w.Noticed)
    (ht : ∀ before operation, before ++ [operation] <+: history →
      ¬(w.machine.after dice before).Tears operation) : (w.after dice history).Noticed := by
  induction history using List.reverseRecOn with
  | nil => exact hw
  | append_singleton history operation ih =>
    have hbefore : (w.after dice history).Noticed :=
      ih fun before other hp => ht before other (hp.trans (List.prefix_append _ _))
    have hm' : (w.after dice history).machine.InBounds := by
      rw [machine_after]
      exact Machine.after_inBounds hm history
    have htear : ¬(w.after dice history).machine.Tears operation := by
      rw [machine_after]
      exact ht history operation (List.prefix_refl _)
    have hlast := (noticed_apply_iff dice hm' hbefore operation).2 htear
    rw [after, List.foldl_append]
    exact hlast

/-- Along a history every change of the screen is noticed at every moment, unless a sprite is
torn, and the first torn sprite goes unnoticed. -/
theorem noticed_iff_no_tear (settings : Settings) (now : Float) (dice : Nat → Int)
    (history : List Operation) :
    (∀ before, before <+: history → ((start settings now).after dice before).Noticed) ↔
      ∀ before operation, before ++ [operation] <+: history →
        ¬((Machine.fresh settings now).after dice before).Tears operation := by
  have hm := Machine.fresh_inBounds settings now
  constructor
  · intro h before operation hp
    have hbefore := h before ((List.prefix_append before [operation]).trans hp)
    have hm' : ((start settings now).after dice before).machine.InBounds := by
      rw [machine_after]
      exact Machine.after_inBounds hm before
    have hlast := h (before ++ [operation]) hp
    rw [after, List.foldl_append] at hlast
    have htear := (noticed_apply_iff dice hm' hbefore operation).1 hlast
    rw [machine_after] at htear
    exact htear
  · intro h before hp
    exact after_noticed before hm (start_noticed settings now)
      fun first operation hf => h first operation (hf.trans hp)

/-- A game that draws two rows from the last address of memory, with a byte there that is not
zero. -/
def tornGame : List UInt8 := [0xaf, 0xff, 0xd0, 0x02] ++ List.replicate 3579 0 ++ [0xff]

theorem length_tornGame : tornGame.length = 3584 := by
  simp only [tornGame, List.length_append, List.length_replicate, List.length_cons,
    List.length_nil]

theorem getElem_tornGame (h : 3583 < tornGame.length) : tornGame[3583] = 0xff := by
  have hfront : ([0xaf, 0xff, 0xd0, 0x02] ++ List.replicate 3579 (0 : UInt8)).length = 3583 := by
    rw [List.length_append, List.length_replicate]
    rfl
  exact List.getElem_concat_length hfront.symm h

section
variable {m : Machine} (hm : m.memory = (Font.install .blank).overlay gameStart tornGame)
include hm

/-- The first instruction of the game points the index at the last address. -/
theorem tornGame_first (dice : Nat → Int) (now : Float) (hc : m.counter = 512) :
    ∃ delay sound lastTick, (m.step dice now).machine =
      { m with counter := 514, index := 4095, delay, sound, lastTick } := by
  have hlen := length_tornGame
  have hset : m.Next (.setIndex 4095) :=
    Machine.next_of_game 0 hm hc (by omega) hlen.le rfl
  obtain ⟨delay, sound, lastTick, h⟩ := Machine.step_machine_of_next dice now hset
  refine ⟨delay, sound, lastTick, ?_⟩
  rw [h, hc]
  rfl

/-- The second tears the sprite. -/
theorem tornGame_tears (now : Float) (hc : m.counter = 514) (hi : m.index = 4095)
    (hr : m.redraw = false) (hy : m.register 0 = 0) : m.Tears (.step now) := by
  have hlen := length_tornGame
  have hdraw : m.Next (.draw 0 0 2) := Machine.next_of_game 2 hm hc (by omega) hlen.le rfl
  have hrows : m.visibleRows 0 2 = 2 := by
    rw [Machine.visibleRows, hy]
    rfl
  have hlast : m.memory[4095]? = some 0xff := by
    have hg := (Font.install .blank).getElem_overlay_add gameStart tornGame 3583
      (by omega) (by decide)
    rw [getElem_tornGame] at hg
    rw [Vector.getElem?_eq_getElem (by decide), hm]
    exact congrArg some hg
  refine ⟨hr, 0, 0, 2, hdraw, ?_, 4095, 0xff, ?_, hlast, by decide⟩
  · rw [hrows, hi]
    decide
  · rw [hi]
    decide

end

/-- The second step of that game changes the screen, and the notice stays down. -/
theorem torn_sprite_unnoticed :
    ¬((start {} 0).after (fun _ => 0) [.loadGame tornGame, .step 0, .step 0]).Noticed := by
  have hcap : tornGame.length ≤ gameCapacity := length_tornGame.le
  let m : Machine := .booted {} 0 tornGame
  have hmemory : m.memory = (Font.install .blank).overlay gameStart tornGame := rfl
  have hload : (start {} 0).apply (fun _ => 0) (.loadGame tornGame) = ⟨m, .blank⟩ :=
    congrArg (Watch.mk · .blank) (Machine.booted_eq {} 0 (fun _ => 0) hcap)
  have hm : m.InBounds := (Machine.booted_reachable {} 0 tornGame hcap).inBounds
  have hm' : (m.step (fun _ => 0) 0).machine.InBounds := Machine.step_inBounds hm
  obtain ⟨delay, sound, lastTick, hstep⟩ := tornGame_first hmemory (fun _ => 0) 0 rfl
  rw [hstep] at hm'
  let w : Watch := ⟨{ m with counter := 514, index := 4095, delay, sound, lastTick }, .blank⟩
  have hfirst : (Watch.mk m .blank).apply (fun _ => 0) (.step 0) = w :=
    congrArg (Watch.mk · .blank) hstep
  have hkept : w.machine.memory = (Font.install .blank).overlay gameStart tornGame := rfl
  have htear : w.machine.Tears (.step 0) := tornGame_tears hkept 0 rfl rfl rfl rfl
  have hquiet : w.Noticed := fun hne => absurd rfl hne
  intro h
  rw [after, List.foldl_cons, hload, List.foldl_cons, hfirst] at h
  exact (noticed_apply_iff (fun _ => 0) hm' hquiet (.step 0)).1 h htear

end Watch

end Chip8
