import Chip8.Proofs.Machine.Failure
import Mathlib.Data.List.Infix

/-!
An index outside memory. It gets there by additions, and the flag then says so. A run that does
not load the index anew keeps it outside, where every access through it fails, as long as no
addition carries it past 16 bits. One that does puts the index back into memory and takes the flag
down, so the runs that stay outside are exactly those without such an addition.
-/
namespace Chip8

namespace Instruction

/-- The instruction replaces the index. -/
def LoadsIndex : Instruction → Prop
  | .setIndex _ | .indexGlyph _ => True
  | _ => False

/-- The instruction transfers bytes at the index. -/
def Accesses : Instruction → Prop
  | .storeDecimal _ | .store _ | .load _ => True
  | .draw _ _ height => 0 < height.val
  | _ => False

end Instruction

namespace Machine

/-- A request that a run may make: no reset, and of the steps only those that succeed and do not
replace the index. -/
def Continues (dice : Nat → Int) (m : Machine) : Operation → Prop
  | .reset _ => False
  | .step now => (m.step dice now).fault = none ∧ ∀ i, m.Next i → ¬i.LoadsIndex
  | _ => True

def Runs (dice : Nat → Int) (m : Machine) (history : List Operation) : Prop :=
  ∀ before operation, before ++ [operation] <+: history →
    (m.after dice before).Continues dice operation

/-- The request is an addition that carries the index past 16 bits. -/
def Wraps (m : Machine) : Operation → Prop
  | .step _ => ∃ x, m.Next (.addToIndex x) ∧ 65536 ≤ m.index + (m.register x).toNat
  | _ => False

variable {dice : Nat → Int} {m : Machine} {now : Float} {i : Instruction} {x : Nibble}
  {operation : Operation} {history : List Operation}

theorem step_index_of_next (hi : m.Next i) : (m.step dice now).machine.index = i.indexAfter m := by
  obtain ⟨delay, sound, lastTick, h⟩ := step_machine_of_next dice now hi
  rw [h, i.execute_index]
  cases i <;> rfl

theorem step_flag_of_next (hi : m.Next (.addToIndex x)) :
    (m.step dice now).machine.register flagRegister =
      flagByte (decide (4096 ≤ m.raisedIndex x)) := by
  obtain ⟨delay, sound, lastTick, h⟩ := step_machine_of_next dice now hi
  rw [h]
  exact register_setRegister_self _ _ _

theorem apply_index (hs : ∀ now, operation ≠ .step now) (hr : ∀ now, operation ≠ .reset now) :
    (m.apply dice operation).machine.index = m.index := by
  obtain ⟨_, _, _, _, _, _, _, h, -⟩ := m.apply_frame dice hs hr
  rw [h]

/-- Adding to an index outside memory leaves it there, or wraps and does not. -/
theorem raisedIndex_ge_iff (hm : m.InBounds) (hi : 4096 ≤ m.index) (x : Nibble) :
    4096 ≤ m.raisedIndex x ↔ ¬65536 ≤ m.index + (m.register x).toNat := by
  have h1 := hm.index_le
  have h2 := (m.register x).toNat_lt
  unfold raisedIndex
  omega

theorem wraps_step_iff (hnext : m.Next i) : m.Wraps (.step now) ↔
    ∃ x, i = .addToIndex x ∧ 65536 ≤ m.index + (m.register x).toNat := by
  constructor
  · rintro ⟨x, hx, h⟩
    exact ⟨x, next_unique hnext hx, h⟩
  · rintro ⟨x, rfl, h⟩
    exact ⟨x, hnext, h⟩

theorem indexAfter_ge_iff (hm : m.InBounds) (hi : 4096 ≤ m.index) (hnext : m.Next i)
    (hkeep : ¬i.LoadsIndex) : 4096 ≤ i.indexAfter m ↔ ¬m.Wraps (.step now) := by
  rw [wraps_step_iff hnext]
  cases i with
  | addToIndex x =>
    rw [Instruction.indexAfter, raisedIndex_ge_iff hm hi, not_iff_not]
    constructor
    · intro h
      exact ⟨x, rfl, h⟩
    · rintro ⟨x', hx, h⟩
      obtain rfl := Instruction.addToIndex.inj hx
      exact h
  | setIndex value => exact absurd trivial hkeep
  | indexGlyph x => exact absurd trivial hkeep
  | _ =>
    refine iff_of_true hi ?_
    rintro ⟨x, hx, -⟩
    cases hx

/-- A run that is outside memory stays there for one more request unless this one wraps. -/
theorem index_apply_iff (hm : m.InBounds) (hi : 4096 ≤ m.index)
    (hc : m.Continues dice operation) :
    4096 ≤ (m.apply dice operation).machine.index ↔ ¬m.Wraps operation := by
  cases operation with
  | reset now => exact hc.elim
  | step now =>
    by_cases hn : ∃ i, m.Next i
    · obtain ⟨i, hnext⟩ := hn
      rw [← indexAfter_ge_iff hm hi hnext (hc.2 i hnext), ← step_index_of_next hnext]
      rfl
    · push Not at hn
      obtain ⟨counter, delay, sound, lastTick, h⟩ := step_of_not_next dice now hn
      have hstep : (m.step dice now).machine.index = m.index := by rw [h]
      rw [show (m.apply dice (.step now)).machine.index = m.index from hstep]
      refine iff_of_true hi ?_
      rintro ⟨x, hx, -⟩
      exact hn _ hx
  | _ =>
    rw [apply_index (by simp) (by simp)]
    exact iff_of_true hi id

/-- Outside memory every access through the index fails, and names the index. -/
theorem step_fault_of_accesses (hm : m.InBounds) (hi : 4096 ≤ m.index) (hnext : m.Next i)
    (ha : i.Accesses) : (m.step dice now).fault = some (.outOfRange m.index) := by
  rw [step_fault_of_next hm hnext]
  have hblock : ∀ count, 0 < count →
      Memory.blockFault m.index count = some (.outOfRange m.index) := by
    intro count hcount
    refine Memory.blockFault_eq_some_iff.2 ⟨⟨hcount, by omega⟩, ?_⟩
    rw [Int.max_eq_left hi]
  cases i with
  | draw x y height => exact hblock _ (visibleRows_pos_iff.2 ha)
  | storeDecimal x => exact hblock 3 (by decide)
  | store x => exact hblock _ (Nat.succ_pos _)
  | load x => exact hblock _ (Nat.succ_pos _)
  | _ => exact ha.elim

theorem Runs.of_isPrefix {before : List Operation} (h : m.Runs dice history)
    (hp : before <+: history) : m.Runs dice before :=
  fun first operation hf => h first operation (hf.trans hp)

theorem index_after (hm : m.InBounds) (hi : 4096 ≤ m.index) (hrun : m.Runs dice history)
    (hw : ∀ before operation, before ++ [operation] <+: history →
      ¬(m.after dice before).Wraps operation) : 4096 ≤ (m.after dice history).index := by
  induction history using List.reverseRecOn with
  | nil => exact hi
  | append_singleton history operation ih =>
    have hp := List.prefix_append history [operation]
    have hbefore : 4096 ≤ (m.after dice history).index :=
      ih (hrun.of_isPrefix hp) fun first other hf => hw first other (hf.trans hp)
    have hlast := List.prefix_refl (history ++ [operation])
    rw [after_concat]
    exact (index_apply_iff (after_inBounds hm history) hbefore (hrun _ _ hlast)).2
      (hw _ _ hlast)

/-- From an index outside memory, a run keeps it outside at every moment, with the flag up after
every addition and every access refused, exactly when no addition on the way wraps. -/
theorem stays_outside_iff (hm : m.Reachable) (hi : 4096 ≤ m.index) (hrun : m.Runs dice history) :
    ((∀ before, before <+: history → 4096 ≤ (m.after dice before).index) ∧
      (∀ before now x, before ++ [.step now] <+: history →
        (m.after dice before).Next (.addToIndex x) →
          (m.after dice (before ++ [.step now])).register flagRegister = 1) ∧
      ∀ before now i, before <+: history → (m.after dice before).Next i → i.Accesses →
        ((m.after dice before).step dice now).fault =
          some (.outOfRange (m.after dice before).index)) ↔
      ∀ before operation, before ++ [operation] <+: history →
        ¬(m.after dice before).Wraps operation := by
  have hb (before : List Operation) : (m.after dice before).InBounds :=
    after_inBounds hm.inBounds before
  constructor
  · rintro ⟨hout, -, -⟩ before operation hp
    have hafter := hout _ hp
    rw [after_concat] at hafter
    have hbefore := hout before ((List.prefix_append before [operation]).trans hp)
    exact (index_apply_iff (hb before) hbefore (hrun _ _ hp)).1 hafter
  · intro hw
    have hout : ∀ before, before <+: history → 4096 ≤ (m.after dice before).index :=
      fun before hp => index_after hm.inBounds hi (hrun.of_isPrefix hp)
        fun first operation hf => hw first operation (hf.trans hp)
    refine ⟨hout, ?_, ?_⟩
    · intro before now x hp hx
      have hafter := hout _ hp
      rw [after_concat] at hafter ⊢
      have hflag : ((m.after dice before).apply dice (.step now)).machine.register flagRegister =
          flagByte (decide (4096 ≤ (m.after dice before).raisedIndex x)) := step_flag_of_next hx
      have hindex : ((m.after dice before).apply dice (.step now)).machine.index =
          (m.after dice before).raisedIndex x := step_index_of_next hx
      rw [hindex] at hafter
      rw [hflag, decide_eq_true hafter]
      rfl
    · intro before now i hp hnext ha
      exact step_fault_of_accesses (hb before) (hout before hp) hnext ha

/-- A game that sets the index to the last address of memory and then adds 255 to it for ever. -/
def raisingGame : List UInt8 := [0x60, 0xff, 0xaf, 0xff, 0xf0, 0x1e, 0x12, 0x04]

/-- The machine that has played this game for a number of rounds of its loop. -/
def raised (rounds : Nat) : Machine :=
  (fresh {} 0).after (fun _ => 0)
    (.loadGame raisingGame :: List.replicate (2 * rounds + 2) (.step 0))

theorem raised_reachable (rounds : Nat) : (raised rounds).Reachable := ⟨{}, 0, _, _, rfl⟩

theorem raised_eq (rounds : Nat) : raised rounds =
    (booted {} 0 raisingGame).after (fun _ => 0) (List.replicate (2 * rounds + 2) (.step 0)) := by
  have hload := booted_eq {} 0 (fun _ => 0) (show raisingGame.length ≤ gameCapacity by decide)
  rw [← hload]
  exact List.foldl_cons

theorem after_two_steps (dice : Nat → Int) (m : Machine) (now : Float) (count : Nat) :
    m.after dice (List.replicate (count + 2) (.step now)) =
      ((m.step dice now).machine.step dice now).machine.after dice
        (List.replicate count (.step now)) := by
  rw [List.replicate_succ, List.replicate_succ, after, List.foldl_cons, List.foldl_cons]
  rfl

structure Raising (m : Machine) (a : Int) : Prop where
  memory : m.memory = (Font.install .blank).overlay gameStart raisingGame
  counter : m.counter = 516
  summand : m.register 0 = 255
  index : m.index = a

namespace Raising

variable {a : Int}

theorem next (h : m.Raising a) : m.Next (.addToIndex 0) :=
  next_of_game 4 h.memory h.counter (by decide) (by decide) rfl

/-- The first two instructions lead into the loop. -/
theorem enter (hm : m.memory = (Font.install .blank).overlay gameStart raisingGame)
    (hc : m.counter = 512) : ((m.step dice now).machine.step dice now).machine.Raising 4095 := by
  have hset : m.Next (.set 0 255) := next_of_game 0 hm hc (by decide) (by decide) rfl
  obtain ⟨delay, sound, lastTick, hfirst⟩ := step_machine_of_next dice now hset
  have hmemory := congrArg Machine.memory hfirst
  have hcounter : (m.step dice now).machine.counter = 514 := by
    rw [hfirst]
    exact congrArg (· + 2) hc
  have hsummand : (m.step dice now).machine.register 0 = 255 := by
    rw [hfirst]
    exact register_setRegister_self _ _ _
  have hindex : (m.step dice now).machine.Next (.setIndex 4095) :=
    next_of_game 2 (hmemory.trans hm) hcounter (by decide) (by decide) rfl
  obtain ⟨delay', sound', lastTick', hsecond⟩ := step_machine_of_next dice now hindex
  rw [hsecond]
  exact ⟨hmemory.trans hm, congrArg (· + 2) hcounter, hsummand, rfl⟩

theorem raisedIndex_eq (h : m.Raising a) : m.raisedIndex 0 = (a + 255) % 65536 := by
  rw [raisedIndex, h.index, h.summand]
  rfl

/-- One round of the loop is an addition and a jump. -/
theorem round (h : m.Raising a) (dice : Nat → Int) (now : Float) :
    ((m.step dice now).machine.step dice now).machine.Raising ((a + 255) % 65536) := by
  obtain ⟨delay, sound, lastTick, hadd⟩ := step_machine_of_next dice now h.next
  have hmemory := congrArg Machine.memory hadd
  have hcounter : (m.step dice now).machine.counter = 518 := by
    rw [hadd]
    exact congrArg (· + 2) h.counter
  have hsummand : (m.step dice now).machine.register 0 = 255 := by
    rw [hadd]
    exact (register_setRegister_of_ne _ _ (by decide)).trans h.summand
  have hindex : (m.step dice now).machine.index = (a + 255) % 65536 := by
    rw [step_index_of_next h.next, Instruction.indexAfter, h.raisedIndex_eq]
  have hjump : (m.step dice now).machine.Next (.jump 516) :=
    next_of_game 6 (hmemory.trans h.memory) hcounter (by decide) (by decide) rfl
  obtain ⟨delay', sound', lastTick', hlast⟩ := step_machine_of_next dice now hjump
  rw [hlast]
  exact ⟨hmemory.trans h.memory, rfl, hsummand, hindex⟩

/-- As long as nothing wraps the rounds add up. -/
theorem rounds (h : m.Raising a) (ha : 0 ≤ a) (k : Nat) (hk : a + 255 * k < 65536) :
    (m.after dice (List.replicate (2 * k) (.step now))).Raising (a + 255 * k) := by
  induction k generalizing m a with
  | zero =>
    rw [show a + 255 * (0 : Nat) = a by omega]
    exact h
  | succ k ih =>
    have hround := h.round dice now
    rw [Int.emod_eq_of_lt (by omega) (by omega)] at hround
    have hrest := ih hround (by omega) (by omega)
    rw [show a + 255 * (k + 1 : Nat) = a + 255 + 255 * k by omega]
    exact hrest

theorem runs (h : m.Raising a) (hm : m.InBounds) : m.Runs dice [.step now] := by
  intro before operation hp
  obtain ⟨rfl, rfl⟩ := concat_prefix_singleton_iff.1 hp
  refine ⟨step_fault_of_next hm h.next, fun i hi => ?_⟩
  obtain rfl := next_unique h.next hi
  exact id

theorem not_wraps (h : m.Raising a) (ha : a + 255 < 65536) (dice : Nat → Int) (now : Float)
    (before : List Operation) (operation : Operation)
    (hp : before ++ [operation] <+: [.step now]) :
    ¬(m.after dice before).Wraps operation := by
  obtain ⟨rfl, rfl⟩ := concat_prefix_singleton_iff.1 hp
  rintro ⟨x, hx, hge⟩
  obtain rfl := Instruction.addToIndex.inj (next_unique h.next hx)
  have hge : 65536 ≤ m.index + (m.register 0).toNat := hge
  rw [h.index, h.summand] at hge
  exact absurd (show 65536 ≤ a + 255 from hge) (by omega)

theorem index_after (h : m.Raising a) :
    (m.after dice [.step now]).index = (a + 255) % 65536 :=
  (step_index_of_next h.next).trans h.raisedIndex_eq

theorem flag_after (h : m.Raising a) : (m.after dice [.step now]).register flagRegister =
    flagByte (decide (4096 ≤ (a + 255) % 65536)) := by
  rw [← h.raisedIndex_eq]
  exact step_flag_of_next h.next

end Raising

theorem raised_raising (rounds : Nat) (hr : 4095 + 255 * rounds < 65536) :
    (raised rounds).Raising (4095 + 255 * rounds) := by
  have hloop : (((booted {} 0 raisingGame).step (fun _ => 0) 0).machine.step
      (fun _ => 0) 0).machine.Raising 4095 := Raising.enter rfl rfl
  rw [raised_eq, after_two_steps]
  exact hloop.rounds (by omega) rounds (by omega)

theorem raised_stays_outside : (raised 1).Reachable ∧ 4096 ≤ (raised 1).index ∧
    (raised 1).Runs (fun _ => 0) [.step 0] ∧
    ((raised 1).after (fun _ => 0) [.step 0]).register flagRegister = 1 := by
  -- Stated of any machine, so that the run is not unfolded when terms are compared.
  have hadd : ∀ m : Machine, m.Reachable → m.Raising 4350 → m.Reachable ∧ 4096 ≤ m.index ∧
      m.Runs (fun _ => 0) [.step 0] ∧
      (m.after (fun _ => 0) [.step 0]).register flagRegister = 1 := by
    intro m hm h
    have hi : 4096 ≤ m.index := by
      rw [h.index]
      decide
    have hrun : m.Runs (fun _ => 0) [.step 0] := h.runs hm.inBounds
    have hw := h.not_wraps (by decide) (fun _ => 0) 0
    have hflag := ((stays_outside_iff hm hi hrun).2 hw).2.1 [] 0 0 (List.prefix_refl _) h.next
    exact ⟨hm, hi, hrun, hflag⟩
  exact hadd (raised 1) (raised_reachable 1) (raised_raising 1 (by omega))

/-- After 240 rounds an addition brings the index back into memory and takes the flag down. -/
theorem wrapped_index_in_memory : (raised 240).Reachable ∧ (raised 240).index = 65295 ∧
    (raised 240).Runs (fun _ => 0) [.step 0] ∧ (raised 240).Next (.addToIndex 0) ∧
    ((raised 240).after (fun _ => 0) [.step 0]).index = 14 ∧
    ((raised 240).after (fun _ => 0) [.step 0]).register flagRegister = 0 := by
  have h : (raised 240).Raising 65295 := raised_raising 240 (by omega)
  have hm := raised_reachable 240
  refine ⟨hm, h.index, h.runs hm.inBounds, h.next, ?_, ?_⟩
  · rw [h.index_after]
    decide
  · rw [h.flag_after]
    decide

end Machine

end Chip8
