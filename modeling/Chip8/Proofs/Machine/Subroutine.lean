import Chip8.Proofs.Machine.Failure
import Mathlib.Data.List.Infix

/-!
Calls and returns nest. A call leaves the address behind it on top of the call stack, and what
happens to the stack from then on happens above that address, until a return takes it off. So the
first time that the stack is as high again as it was before the call, it is the same stack, and
the machine goes on behind the call.
-/
namespace Chip8.Machine

/-- At no moment of the history has the call stack the given height. -/
def Avoids (dice : Nat → Int) (m : Machine) (height : Nat) (history : List Operation) : Prop :=
  ∀ before, before <+: history → (m.after dice before).stack.length ≠ height

variable {dice : Nat → Int} {m : Machine} {now : Float} {i : Instruction} {a : Int}
  {below : List Int} {history : List Operation}

theorem step_stack_of_next (hi : m.Next i) :
    (m.step dice now).machine.stack = i.stackAfter { m with counter := m.counter + 2 } := by
  obtain ⟨delay, sound, lastTick, h⟩ := step_machine_of_next dice now hi
  rw [h, i.execute_stack]
  cases i <;> rfl

theorem step_call (dice : Nat → Int) (now : Float) {target : Fin 4096}
    (hi : m.Next (.call target)) (hroom : m.stack.length < stackCapacity) :
    ∃ delay sound lastTick, (m.step dice now).machine =
      { m with
        counter := target.val, stack := (m.counter + 2) :: m.stack, delay, sound, lastTick } := by
  obtain ⟨delay, sound, lastTick, h⟩ := step_machine_of_next dice now hi
  refine ⟨delay, sound, lastTick, ?_⟩
  simp only [h, Instruction.execute, if_neg (Nat.not_le.2 hroom)]

theorem step_ret (dice : Nat → Int) (now : Float) {top : Int} (hi : m.Next .ret)
    (hs : m.stack = top :: below) : ∃ delay sound lastTick,
      (m.step dice now).machine =
        { m with counter := top, stack := below, delay, sound, lastTick } := by
  obtain ⟨delay, sound, lastTick, h⟩ := step_machine_of_next dice now hi
  refine ⟨delay, sound, lastTick, ?_⟩
  simp only [h, Instruction.execute, hs]

/-- A return from the innermost call goes back behind it. Any other instruction leaves alone what
lies on the call stack below the newest address. -/
theorem step_above (h : a :: below <:+ m.stack) :
    a :: below <:+ (m.step dice now).machine.stack ∨
      (m.step dice now).machine.stack = below ∧ (m.step dice now).machine.counter = a := by
  by_cases hn : ∃ i, m.Next i
  · obtain ⟨i, hi⟩ := hn
    cases i with
    | ret =>
      obtain ⟨inner, hinner⟩ := h
      cases inner with
      | nil =>
        obtain ⟨delay, sound, lastTick, he⟩ := step_ret dice now hi hinner.symm
        rw [he]
        exact Or.inr ⟨rfl, rfl⟩
      | cons top rest =>
        obtain ⟨delay, sound, lastTick, he⟩ := step_ret dice now hi hinner.symm
        rw [he]
        exact Or.inl ⟨rest, rfl⟩
    | call target =>
      left
      rw [step_stack_of_next hi, Instruction.stackAfter]
      split
      · exact h
      · exact h.trans (List.suffix_cons _ _)
    | _ =>
      left
      rw [step_stack_of_next hi]
      exact h
  · push Not at hn
    obtain ⟨counter, delay, sound, lastTick, he⟩ := step_of_not_next dice now hn
    rw [he]
    exact Or.inl h

theorem apply_above (dice : Nat → Int) {operation : Operation}
    (hr : ∀ now, operation ≠ .reset now) (h : a :: below <:+ m.stack) :
    a :: below <:+ (m.apply dice operation).machine.stack ∨
      (m.apply dice operation).machine.stack = below ∧
        (m.apply dice operation).machine.counter = a := by
  by_cases hs : ∃ now, operation = .step now
  · obtain ⟨now, rfl⟩ := hs
    exact step_above h
  · push Not at hs
    obtain ⟨_, _, _, _, _, _, _, he, -⟩ := m.apply_frame dice hs hr
    rw [he]
    exact Or.inl h

theorem Avoids.of_isPrefix {height : Nat} {before : List Operation}
    (h : m.Avoids dice height history) (hp : before <+: history) :
    m.Avoids dice height before :=
  fun first hf => h first (hf.trans hp)

/-- Until the call stack is back at its old height, the return address stays on it. -/
theorem after_above (h : a :: below <:+ m.stack)
    (hr : ∀ now, .reset now ∉ history) (hav : m.Avoids dice below.length history) :
    a :: below <:+ (m.after dice history).stack := by
  induction history using List.reverseRecOn with
  | nil => exact h
  | append_singleton history operation ih =>
    have hp := List.prefix_append history [operation]
    have hbefore := ih (fun now hin => hr now (hp.subset hin)) (hav.of_isPrefix hp)
    have hlast : ∀ now, operation ≠ .reset now := by
      rintro now rfl
      exact hr now (List.mem_append_right _ List.mem_cons_self)
    have hheight := hav _ (List.prefix_refl _)
    rw [after_concat] at hheight ⊢
    rcases apply_above dice hlast hbefore with hin | ⟨hout, -⟩
    · exact hin
    · rw [hout] at hheight
      exact absurd rfl hheight

theorem after_back (h : a :: below <:+ m.stack) {operation : Operation}
    (hr : ∀ now, .reset now ∉ history ++ [operation]) (hav : m.Avoids dice below.length history)
    (hheight : (m.after dice (history ++ [operation])).stack.length = below.length) :
    (m.after dice (history ++ [operation])).stack = below ∧
      (m.after dice (history ++ [operation])).counter = a := by
  have hbefore := after_above h (fun now hin => hr now (List.mem_append_left _ hin)) hav
  have hlast : ∀ now, operation ≠ .reset now := by
    rintro now rfl
    exact hr now (List.mem_append_right _ List.mem_cons_self)
  rw [after_concat] at hheight ⊢
  rcases apply_above dice hlast hbefore with hin | hout
  · have hle := hin.length_le
    rw [List.length_cons] at hle
    omega
  · exact hout

/-- A call with room on the call stack succeeds and puts the address behind the call on it. Whatever
is asked of the machine then, short of a reset, that address stays on the stack above the old
entries until the stack has its old height again, and at that moment the stack is the old one and
the counter is that address. -/
theorem call_nests (hm : m.Reachable) {target : Fin 4096} (hcall : m.Next (.call target))
    (hroom : m.stack.length < stackCapacity) (dice : Nat → Int) (now : Float)
    (hr : ∀ now, .reset now ∉ history) :
    (m.step dice now).fault = none ∧
    (m.step dice now).machine.stack = (m.counter + 2) :: m.stack ∧
    ((m.step dice now).machine.Avoids dice m.stack.length history →
      (m.counter + 2) :: m.stack <:+ ((m.step dice now).machine.after dice history).stack) ∧
    ∀ before operation, history = before ++ [operation] →
      (m.step dice now).machine.Avoids dice m.stack.length before →
      ((m.step dice now).machine.after dice history).stack.length = m.stack.length →
        ((m.step dice now).machine.after dice history).stack = m.stack ∧
          ((m.step dice now).machine.after dice history).counter = m.counter + 2 := by
  have hstack : (m.step dice now).machine.stack = (m.counter + 2) :: m.stack := by
    obtain ⟨delay, sound, lastTick, he⟩ := step_call dice now hcall hroom
    rw [he]
  have habove : (m.counter + 2) :: m.stack <:+ (m.step dice now).machine.stack := by
    rw [hstack]
  refine ⟨?_, hstack, after_above habove hr, ?_⟩
  · rw [step_fault_of_next hm.inBounds hcall]
    exact if_neg (Nat.not_le.2 hroom)
  · rintro before operation rfl hav hheight
    exact after_back habove hr hav hheight

/-- A game that calls a subroutine, which calls another one. -/
def nestedGame : List UInt8 := [0x22, 0x04, 0x12, 0x02, 0x22, 0x08, 0x00, 0xee, 0x00, 0xee]

/-- Inside the first subroutine of that game, three steps call the second one and go back twice. -/
theorem nestedGame_heights (dice : Nat → Int) (now : Float)
    (hm : m.memory = (Font.install .blank).overlay gameStart nestedGame) (hc : m.counter = 0x204)
    (hs : m.stack = [0x202]) :
    m.Avoids dice 0 [.step now, .step now] ∧
      (m.after dice [.step now, .step now, .step now]).stack.length = 0 := by
  have hcall : m.Next (.call 0x208) := next_of_game 4 hm hc (by decide) (by decide) rfl
  have hroom : m.stack.length < stackCapacity := by
    rw [hs]
    decide
  obtain ⟨d₁, s₁, t₁, h₁⟩ := step_call dice now hcall hroom
  let m₁ : Machine :=
    { m with counter := 0x208, stack := [0x206, 0x202], delay := d₁, sound := s₁, lastTick := t₁ }
  have h₁ : (m.step dice now).machine = m₁ := by
    rw [h₁, hc, hs]
    rfl
  have hinner : m₁.Next .ret := next_of_game 8 hm rfl (by decide) (by decide) rfl
  obtain ⟨d₂, s₂, t₂, h₂⟩ := step_ret dice now hinner rfl
  have houter : (m₁.step dice now).machine.Next .ret := by
    rw [h₂]
    exact next_of_game 6 hm rfl (by decide) (by decide) rfl
  obtain ⟨d₃, s₃, t₃, h₃⟩ := step_ret dice now houter (congrArg Machine.stack h₂)
  have after₁ : (m.after dice [.step now]).stack = [0x206, 0x202] := congrArg Machine.stack h₁
  have after₂ : (m.after dice [.step now, .step now]).stack = [0x202] :=
    congrArg (fun n => (n.step dice now).machine.stack) h₁ |>.trans (congrArg Machine.stack h₂)
  have after₃ : (m.after dice [.step now, .step now, .step now]).stack = [] :=
    congrArg (fun n => ((n.step dice now).machine.step dice now).machine.stack) h₁ |>.trans
      (congrArg Machine.stack h₃)
  constructor
  · intro before hp
    rcases List.prefix_cons_iff.1 hp with rfl | ⟨rest, rfl, hrest⟩
    · exact ne_of_eq_of_ne (congrArg List.length hs) (by decide)
    rcases List.prefix_cons_iff.1 hrest with rfl | ⟨last, rfl, hlast⟩
    · exact ne_of_eq_of_ne (congrArg List.length after₁) (by decide)
    · obtain rfl := List.prefix_nil.1 hlast
      exact ne_of_eq_of_ne (congrArg List.length after₂) (by decide)
  · rw [after₃]
    rfl

theorem call_nests_twice : (booted {} 0 nestedGame).Reachable ∧
    (booted {} 0 nestedGame).Next (.call 0x204) ∧
    ((booted {} 0 nestedGame).step (fun _ => 0) 0).machine.stack = [0x202] ∧
    ((booted {} 0 nestedGame).step (fun _ => 0) 0).machine.Avoids (fun _ => 0) 0
      [.step 0, .step 0] ∧
    (((booted {} 0 nestedGame).step (fun _ => 0) 0).machine.after (fun _ => 0)
      [.step 0, .step 0, .step 0]).stack = [] ∧
    (((booted {} 0 nestedGame).step (fun _ => 0) 0).machine.after (fun _ => 0)
      [.step 0, .step 0, .step 0]).counter = 0x202 := by
  -- Stated of any machine, so that the run is not unfolded when terms are compared.
  have hrun : ∀ m : Machine, m.Reachable → m.Next (.call 0x204) → m.stack = [] →
      m.counter = 0x200 → m.memory = (Font.install .blank).overlay gameStart nestedGame →
      (m.step (fun _ => 0) 0).machine.stack = [0x202] ∧
        (m.step (fun _ => 0) 0).machine.Avoids (fun _ => 0) 0 [.step 0, .step 0] ∧
        ((m.step (fun _ => 0) 0).machine.after (fun _ => 0)
          [.step 0, .step 0, .step 0]).stack = [] ∧
        ((m.step (fun _ => 0) 0).machine.after (fun _ => 0)
          [.step 0, .step 0, .step 0]).counter = 0x202 := by
    intro m hm hcall hs hc hmem
    have hroom : m.stack.length < stackCapacity := by
      rw [hs]
      decide
    have hr : ∀ now, .reset now ∉ [Operation.step 0, .step 0, .step 0] := by simp
    obtain ⟨-, hstack, -, hnest⟩ := call_nests hm hcall hroom (fun _ => 0) 0 hr
    replace hnest := hnest [.step 0, .step 0] (.step 0) rfl
    rw [hs, hc] at hstack hnest
    obtain ⟨delay, sound, lastTick, h⟩ := step_call (fun _ => 0) 0 hcall hroom
    obtain ⟨hav, hheight⟩ := nestedGame_heights (fun _ => 0) 0
      ((congrArg Machine.memory h).trans hmem) (congrArg Machine.counter h) hstack
    exact ⟨hstack, hav, hnest hav hheight⟩
  have hm := booted_reachable {} 0 nestedGame (by decide)
  have hcall : (booted {} 0 nestedGame).Next (.call 0x204) :=
    next_of_game 0 rfl rfl (by decide) (by decide) rfl
  exact ⟨hm, hcall, hrun _ hm hcall rfl rfl rfl⟩

end Chip8.Machine
