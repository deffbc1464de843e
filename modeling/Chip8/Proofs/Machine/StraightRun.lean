import Chip8.Proofs.Machine.Footprint

/-!
Runs that go straight on end. As long as no word is executed that jumps, calls, returns or waits
for a key, every step raises the program counter, and at the end of memory the fetch fails. What is
in memory, and what the run writes there, has no part in this: the measure is the distance of the
counter to the end of memory.
-/
namespace Chip8

/-- The instruction does not go on behind itself: it jumps, calls, returns, or waits for a key. -/
def Instruction.Departs (m : Machine) : Instruction → Prop
  | .jump _ | .call _ | .ret | .jumpOffset _ => True
  | .awaitKey _ => m.key = none
  | _ => False

namespace Machine

/-- The step succeeds, and it executes nothing that departs. -/
def GoesOn (dice : Nat → Int) (m : Machine) (now : Float) : Prop :=
  (m.step dice now).fault = none ∧ ∀ i, m.Next i → ¬i.Departs m

/-- Every step of the run succeeds and executes nothing that departs. -/
def Straight (dice : Nat → Int) (m : Machine) (readings : List Float) : Prop :=
  ∀ before now, before ++ [now] <+: readings → (m.played dice before).GoesOn dice now

variable {dice : Nat → Int} {m : Machine} {now : Float} {i : Instruction} {readings : List Float}

theorem counterAfter_of_not_departs (h : ¬i.Departs m) :
    i.counterAfter m = m.counter ∨ i.counterAfter m = m.counter + 2 := by
  cases i with
  | jump | call | ret | jumpOffset => exact absurd trivial h
  | awaitKey x => exact Or.inl (if_neg h)
  | _ =>
    simp only [Instruction.counterAfter]
    split
    · exact Or.inr rfl
    · exact Or.inl rfl

/-- A step that succeeds has fetched its word from memory. -/
theorem word?_ne_none_of_succeeds (h : (m.step dice now).fault = none) : m.word? ≠ none := by
  intro hw
  obtain ⟨address, ho⟩ := exists_outOfRange_of_word?_eq_none hw
  rw [(step_of_opcode_eq_error dice now ho).2] at h
  cases h

theorem counter_le_of_succeeds (h : (m.step dice now).fault = none) : m.counter ≤ 4094 := by
  have hw := mt (m.word?_eq_none_iff).2 (word?_ne_none_of_succeeds h)
  omega

theorem GoesOn.counter_step (h : m.GoesOn dice now) :
    (m.step dice now).machine.counter = m.counter + 2 ∨
      (m.step dice now).machine.counter = m.counter + 4 := by
  rcases m.word?_cases with hw | ⟨w, hw, hu⟩ | ⟨i, hi⟩
  · exact absurd hw (word?_ne_none_of_succeeds h.1)
  · rw [(step_of_unknown dice now hw hu).1, poised_eq_ticked]
    exact Or.inl rfl
  · have hon : ¬i.Departs (m.ticked now (m.counter + 2)) := by
      have hstays := h.2 i hi
      cases i <;> exact hstays
    have hcounter := counterAfter_of_not_departs hon
    have hticked : (m.ticked now (m.counter + 2)).counter = m.counter + 2 := rfl
    rw [(step_of_next dice now hi).1, poised_eq_ticked, i.execute_counter]
    omega

theorem straight_nil (dice : Nat → Int) (m : Machine) : m.Straight dice [] :=
  forall_concat_prefix_nil

theorem straight_concat_iff : m.Straight dice (readings ++ [now]) ↔
    m.Straight dice readings ∧ (m.played dice readings).GoesOn dice now :=
  forall_concat_prefix_concat_iff

theorem Straight.counter_ge (h : m.Straight dice readings) :
    m.counter + 2 * readings.length ≤ (m.played dice readings).counter := by
  induction readings using List.reverseRecOn with
  | nil => exact Int.le_of_eq (Int.add_zero m.counter)
  | append_singleton readings now ih =>
    obtain ⟨hrun, hlast⟩ := straight_concat_iff.1 h
    have hbefore := ih hrun
    have hstep := hlast.counter_step
    rw [played_concat, List.length_append, List.length_singleton]
    omega

/-- The last step of a straight run has fetched inside memory, so the run was short. -/
theorem Straight.length_le (h : m.Straight dice readings) (hm : m.counter ≤ 4096) :
    (readings.length : Int) ≤ (4096 - m.counter) / 2 := by
  rcases List.eq_nil_or_concat readings with rfl | ⟨readings, now, rfl⟩
  · rw [List.length_nil]
    omega
  · rw [List.concat_eq_append] at h ⊢
    obtain ⟨hrun, hlast⟩ := straight_concat_iff.1 h
    have hbefore := hrun.counter_ge
    have hfetch := counter_le_of_succeeds hlast.1
    rw [List.length_append, List.length_singleton]
    omega

/-- A run that is not straight has a first step that does not go on. -/
theorem exists_first_of_not_straight (h : ¬m.Straight dice readings) :
    ∃ before now, before ++ [now] <+: readings ∧ m.Straight dice before ∧
      ¬(m.played dice before).GoesOn dice now := by
  induction readings using List.reverseRecOn with
  | nil => exact absurd (m.straight_nil dice) h
  | append_singleton readings now ih =>
    by_cases hrun : m.Straight dice readings
    · refine ⟨readings, now, List.prefix_refl _, hrun, fun hlast => ?_⟩
      exact h (straight_concat_iff.2 ⟨hrun, hlast⟩)
    · obtain ⟨before, first, hp, hbefore, hstop⟩ := ih hrun
      exact ⟨before, first, hp.trans (List.prefix_append readings [now]), hbefore, hstop⟩

theorem fails_or_departs_of_not_goesOn (h : ¬m.GoesOn dice now) :
    (∃ fault, (m.step dice now).fault = some fault ∧ fault.StopsEmulation) ∨
      ∃ i, m.Next i ∧ i.Departs m := by
  cases hf : (m.step dice now).fault with
  | some fault => exact Or.inl ⟨fault, rfl, stops_of_step hf⟩
  | none =>
    by_contra hn
    rw [not_or] at hn
    exact h ⟨hf, fun i hi hd => hn.2 ⟨i, hi, hd⟩⟩

/-- Each step of a straight run raises the counter by two or by four, so the run takes at most as
many steps as there are words up to the end of memory. A run of more steps goes straight on only up
to some step, and this one executes a word that departs, or a fault stops the emulation there. -/
theorem straight_run_ends (hm : m.counter ≤ 4096) (dice : Nat → Int) (readings : List Float) :
    (m.Straight dice readings →
      (∀ before now, before ++ [now] <+: readings →
        (m.played dice (before ++ [now])).counter = (m.played dice before).counter + 2 ∨
          (m.played dice (before ++ [now])).counter = (m.played dice before).counter + 4) ∧
      (readings.length : Int) ≤ (4096 - m.counter) / 2) ∧
    ((4096 - m.counter) / 2 < (readings.length : Int) →
      ∃ before now, before ++ [now] <+: readings ∧ m.Straight dice before ∧
        ((∃ fault, ((m.played dice before).step dice now).fault = some fault ∧
            fault.StopsEmulation) ∨
          ∃ i, (m.played dice before).Next i ∧ i.Departs (m.played dice before))) := by
  constructor
  · intro hrun
    refine ⟨fun before now hp => ?_, hrun.length_le hm⟩
    rw [played_concat]
    exact (hrun before now hp).counter_step
  · intro hlong
    have hnot : ¬m.Straight dice readings := fun hrun => by
      have hshort := hrun.length_le hm
      omega
    obtain ⟨before, now, hp, hbefore, hstop⟩ := exists_first_of_not_straight hnot
    exact ⟨before, now, hp, hbefore, fails_or_departs_of_not_goesOn hstop⟩

/-- One step at a register that is set goes straight on, and 1793 steps from there do not. -/
theorem straight_run_ends_set :
    let m := booted {} 0 [0x60, 0x07]
    (m.counter ≤ 4096 ∧ m.Straight (fun _ => 0) [1] ∧
      ((m.played (fun _ => 0) [1]).counter = 514 ∨ (m.played (fun _ => 0) [1]).counter = 516)) ∧
    ∃ before now, before ++ [now] <+: List.replicate 1793 1 ∧ m.Straight (fun _ => 0) before ∧
      ((∃ fault, ((m.played (fun _ => 0) before).step (fun _ => 0) now).fault = some fault ∧
          fault.StopsEmulation) ∨
        ∃ i, (m.played (fun _ => 0) before).Next i ∧
          i.Departs (m.played (fun _ => 0) before)) := by
  intro m
  have hm : m.counter ≤ 4096 := by decide
  have hset : m.Next (.set 0 7) := booted_next {} 0 (by decide) (by decide) rfl
  have hgoes : m.GoesOn (fun _ => 0) 1 := by
    refine ⟨(step_of_next _ 1 hset).2, fun i hi => ?_⟩
    obtain rfl := next_unique hset hi
    exact id
  have hrun : m.Straight (fun _ => 0) ([] ++ [1]) :=
    straight_concat_iff.2 ⟨m.straight_nil _, hgoes⟩
  have hsteps := ((straight_run_ends hm (fun _ => 0) [1]).1 hrun).1 [] 1 (List.prefix_refl _)
  have hlong := (straight_run_ends hm (fun _ => 0) (List.replicate 1793 1)).2
  rw [List.length_replicate] at hlong
  exact ⟨⟨hm, hrun, hsteps⟩, hlong (by decide)⟩

end Machine

end Chip8
