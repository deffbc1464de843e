import Chip8.Proofs.Machine.Footprint

/-!
How the timers run. The clock readings of a history alone say when the timers tick; no game has a
part in it, and a step that fails ticks like any other. What a timer shows is the value last put
into it less the ticks of later requests, and never less than zero.
-/
namespace Chip8

/-- The two timers of a machine. -/
inductive Timer where
  | delay
  | sound
deriving DecidableEq

namespace Timer

def value : Timer → Machine → UInt8
  | .delay, m => m.delay
  | .sound, m => m.sound

/-- The instruction that puts register `x` into the timer. -/
def storing : Timer → Nibble → Instruction
  | .delay, x => .setDelay x
  | .sound, x => .setSound x

/-- The line that tells that the tone ends. -/
def expiry : Line := .debug "Sound timer expired, stopping sound."

/-- A clock reading at which timers tick that have last ticked at the reading `last`. -/
def Due (last now : Float) : Prop := ¬now - last < 1 / 60

instance (last now : Float) : Decidable (Due last now) :=
  inferInstanceAs (Decidable (¬now - last < 1 / 60))

/-- The reading from which the timers count after a request, if they have counted from `last`. -/
def referenceAfter (last : Float) : Operation → Float
  | .step now | .updateTimers now => if Due last now then now else last
  | .reset now => now
  | _ => last

/-- The reading from which the timers count after a history. -/
def reference (last : Float) (history : List Operation) : Float :=
  history.foldl referenceAfter last

def tickOf (last : Float) : Operation → Nat
  | .step now | .updateTimers now => if Due last now then 1 else 0
  | _ => 0

/-- The number of ticks in a history. -/
def tickCount (last : Float) : List Operation → Nat
  | [] => 0
  | operation :: rest => tickOf last operation + tickCount (referenceAfter last operation) rest

/-- The request puts a value into the timer, by an instruction or by a reset. -/
inductive Puts (t : Timer) (m : Machine) : Operation → UInt8 → Prop
  | store {x : Nibble} (now : Float) (h : m.Next (t.storing x)) :
    t.Puts m (.step now) (m.register x)
  | reset (now : Float) : t.Puts m (.reset now) 0

/-- No request of the history puts a value into the timer. -/
def Undisturbed (t : Timer) (dice : Nat → Int) (m : Machine) (history : List Operation) : Prop :=
  ∀ before operation value, before ++ [operation] <+: history →
    ¬t.Puts (m.after dice before) operation value

/-- In a history of the machine `m`, whose timers counted from `start`, the value last put into the
timer is `value`, and `count` ticks came with later requests. Without any such value it is zero. -/
inductive Since (t : Timer) (dice : Nat → Int) (m : Machine) (start : Float) :
    List Operation → UInt8 → Nat → Prop
  | start {history : List Operation} (h : t.Undisturbed dice m history) :
    t.Since dice m start history 0 (tickCount start history)
  | put {before later : List Operation} {operation : Operation} {value : UInt8}
    (hput : t.Puts (m.after dice before) operation value)
    (h : t.Undisturbed dice (m.after dice (before ++ [operation])) later) :
    t.Since dice m start (before ++ operation :: later) value
      (tickCount (reference start (before ++ [operation])) later)

end Timer

namespace Machine

/-- The machine after one tick, or none if none is due. -/
def tickedFrom (m : Machine) (last now : Float) : Machine :=
  if Timer.Due last now then
    { m with lastTick := now, delay := countDown m.delay, sound := countDown m.sound }
  else m

/-- What the timers of the machine show after the history, and what a step does to them then. -/
structure KeepsTime (dice : Nat → Int) (m : Machine) (start : Float) (history : List Operation) :
    Prop where
  since : ∀ t : Timer, ∃ value count, t.Since dice m start history value count
  value : ∀ (t : Timer) value count, t.Since dice m start history value count →
    (t.value (m.after dice history)).toNat = value.toNat - count
  bell : ∀ value count, Timer.sound.Since dice m start history value count →
    ((m.after dice history).bell = true ↔ count < value.toNat)
  /-- The tick comes before the cycle, so it takes place even if nothing can be fetched. -/
  step : ∀ now,
    let ticked := (m.after dice history).tickedFrom (Timer.reference start history) now
    ∃ lines, (m.after dice history).step dice now =
      { ticked.cycle dice with lines := lines ++ (ticked.cycle dice).lines }
  getDelay : ∀ now x, (m.after dice history).Next (.getDelay x) →
    ((m.after dice history).step dice now).machine.register x =
      ((m.after dice history).tickedFrom (Timer.reference start history) now).delay
  expiry : ∀ now, ((m.after dice history).step dice now).lines.count Timer.expiry =
    if Timer.Due (Timer.reference start history) now ∧ (m.after dice history).sound = 1 then 1
    else 0

variable {dice : Nat → Int} {m : Machine} {now : Float} {operation : Operation}
  {history : List Operation} {t : Timer}

theorem ticks_iff : m.ticks now = true ↔ Timer.Due m.lastTick now := by
  rw [ticks, Timer.Due, Bool.not_eq_true', decide_eq_false_iff_not]
  rfl

theorem updateTimers_eq_tickedFrom (m : Machine) (now : Float) :
    (m.updateTimers now).machine = m.tickedFrom m.lastTick now := by
  unfold updateTimers tickedFrom
  by_cases h : Timer.Due m.lastTick now
  · rw [if_pos (ticks_iff.2 h), if_pos h]
    rfl
  · rw [if_neg (mt ticks_iff.1 h), if_neg h]

theorem value_tickedFrom (t : Timer) (m : Machine) (last now : Float) :
    (t.value (m.tickedFrom last now)).toNat =
      (t.value m).toNat - if Timer.Due last now then 1 else 0 := by
  unfold tickedFrom
  by_cases h : Timer.Due last now
  · rw [if_pos h, if_pos h]
    cases t <;> exact toNat_countDown _
  · rw [if_neg h, if_neg h, Nat.sub_zero]

theorem lastTick_tickedFrom (m : Machine) (now : Float) :
    (m.tickedFrom m.lastTick now).lastTick =
      if Timer.Due m.lastTick now then now else m.lastTick := by
  unfold tickedFrom
  by_cases h : Timer.Due m.lastTick now
  · rw [if_pos h, if_pos h]
  · rw [if_neg h, if_neg h]

theorem apply_timers (dice : Nat → Int) (hs : ∀ now, operation ≠ .step now)
    (hu : ∀ now, operation ≠ .updateTimers now) (hr : ∀ now, operation ≠ .reset now) :
    (m.apply dice operation).machine.lastTick = m.lastTick ∧
      ∀ t : Timer, t.value (m.apply dice operation).machine = t.value m := by
  obtain ⟨_, _, _, _, h, -⟩ := m.apply_untimed dice hs hu hr
  rw [h]
  exact ⟨rfl, fun t => by cases t <;> rfl⟩

theorem lastTick_apply (hm : m.InBounds) (dice : Nat → Int) (operation : Operation) :
    (m.apply dice operation).machine.lastTick = Timer.referenceAfter m.lastTick operation := by
  cases operation with
  | step now =>
    have h := (step_confined_of_inBounds hm dice now).lastTick
    rw [updateTimers_eq_tickedFrom, lastTick_tickedFrom] at h
    exact h
  | updateTimers now =>
    have h := congrArg Machine.lastTick (m.updateTimers_eq_tickedFrom now)
    rw [lastTick_tickedFrom] at h
    exact h
  | reset now => rfl
  | _ => exact (apply_timers dice (by simp) (by simp) (by simp)).1

theorem value_of_puts {value : UInt8} (h : t.Puts m operation value) :
    t.value (m.apply dice operation).machine = value := by
  cases h with
  | store now hi =>
    obtain ⟨delay, sound, lastTick, he⟩ := step_machine_of_next dice now hi
    refine (congrArg t.value he).trans ?_
    cases t <;> rfl
  | reset now => cases t <;> rfl

/-- A step that puts nothing into a timer leaves in it what the tick before has left. -/
theorem value_step (hm : m.InBounds) (dice : Nat → Int)
    (h : ∀ value, ¬t.Puts m (.step now) value) :
    t.value (m.step dice now).machine = t.value (m.tickedFrom m.lastTick now) := by
  have hc := step_confined_of_inBounds hm dice now
  rw [← updateTimers_eq_tickedFrom]
  by_contra hne
  cases t with
  | delay =>
    obtain ⟨x, hx⟩ := hc.delay hne
    exact h _ (.store now hx)
  | sound =>
    obtain ⟨x, hx⟩ := hc.sound hne
    exact h _ (.store now hx)

theorem value_apply (hm : m.InBounds) (dice : Nat → Int)
    (h : ∀ value, ¬t.Puts m operation value) :
    (t.value (m.apply dice operation).machine).toNat =
      (t.value m).toNat - Timer.tickOf m.lastTick operation := by
  cases operation with
  | step now =>
    have hv := congrArg UInt8.toNat (value_step hm dice h)
    rw [value_tickedFrom] at hv
    exact hv
  | updateTimers now =>
    have hv := congrArg (fun n => (t.value n).toNat) (m.updateTimers_eq_tickedFrom now)
    simp only [value_tickedFrom] at hv
    exact hv
  | reset now => exact absurd (.reset now) (h 0)
  | _ => exact congrArg UInt8.toNat ((apply_timers dice (by simp) (by simp) (by simp)).2 t)

theorem lastTick_after (hm : m.InBounds) (dice : Nat → Int) (history : List Operation) :
    (m.after dice history).lastTick = Timer.reference m.lastTick history := by
  induction history generalizing m with
  | nil => rfl
  | cons operation rest ih =>
    have hb : (m.apply dice operation).machine.InBounds := apply_inBounds hm operation
    have h := ih hb
    rw [lastTick_apply hm] at h
    exact h

end Machine

namespace Timer

variable {dice : Nat → Int} {m : Machine} {operation : Operation} {rest : List Operation}
  {t : Timer} {start : Float}

theorem Undisturbed.head (h : t.Undisturbed dice m (operation :: rest)) (value : UInt8) :
    ¬t.Puts m operation value :=
  h [] operation value (List.prefix_append [operation] rest)

theorem Undisturbed.tail (h : t.Undisturbed dice m (operation :: rest)) :
    t.Undisturbed dice (m.apply dice operation).machine rest := by
  intro before last value hp
  exact h (operation :: before) last value (List.cons_prefix_cons.2 ⟨rfl, hp⟩)

/-- Where nothing is put into a timer, it shows what it has shown, less the ticks. -/
theorem Undisturbed.value_after (h : t.Undisturbed dice m rest) (hm : m.InBounds) :
    (t.value (m.after dice rest)).toNat = (t.value m).toNat - tickCount m.lastTick rest := by
  induction rest generalizing m with
  | nil => rfl
  | cons operation rest ih =>
    have hrest := ih h.tail (Machine.apply_inBounds hm operation)
    rw [Machine.value_apply hm dice h.head, Machine.lastTick_apply hm, Nat.sub_sub] at hrest
    exact hrest

theorem Undisturbed.concat (h : t.Undisturbed dice m rest)
    (hlast : ∀ value, ¬t.Puts (m.after dice rest) operation value) :
    t.Undisturbed dice m (rest ++ [operation]) := by
  intro before last value hp
  rcases concat_prefix_concat_iff.1 hp with ⟨rfl, rfl⟩ | hp
  · exact hlast value
  · exact h before last value hp

theorem undisturbed_nil (t : Timer) (dice : Nat → Int) (m : Machine) :
    t.Undisturbed dice m [] := by
  intro before operation value hp
  exact absurd hp not_concat_prefix_nil

theorem exists_since (t : Timer) (dice : Nat → Int) (m : Machine) (start : Float)
    (history : List Operation) : ∃ value count, t.Since dice m start history value count := by
  induction history using List.reverseRecOn with
  | nil => exact ⟨0, _, .start (t.undisturbed_nil dice m)⟩
  | append_singleton history operation ih =>
    by_cases hput : ∃ value, t.Puts (m.after dice history) operation value
    · obtain ⟨value, hput⟩ := hput
      exact ⟨value, _, .put hput (t.undisturbed_nil dice _)⟩
    · push Not at hput
      obtain ⟨value, count, h⟩ := ih
      cases h with
      | start h => exact ⟨0, _, .start (h.concat hput)⟩
      | put hold h =>
        rw [List.append_cons, Machine.after_append] at hput
        rw [List.append_assoc]
        exact ⟨value, _, .put hold (h.concat hput)⟩

/-- What a timer shows, given what was last put into it and the ticks since. -/
theorem Since.value_after {history : List Operation} {value : UInt8} {count : Nat}
    (h : t.Since dice m start history value count) (hm : m.InBounds) (hv : t.value m = 0)
    (hs : m.lastTick = start) :
    (t.value (m.after dice history)).toNat = value.toNat - count := by
  cases h with
  | start h =>
    rw [h.value_after hm, hv, hs]
  | put hput h =>
    rw [List.append_cons, Machine.after_append, h.value_after (Machine.after_inBounds hm _),
      Machine.lastTick_after hm, hs, Machine.after_concat, Machine.value_of_puts hput]

end Timer

namespace Machine

variable {dice : Nat → Int} {m : Machine} {now : Float} {x : Nibble}

theorem bell_iff (m : Machine) : m.bell = true ↔ 0 < m.sound.toNat := by
  rw [bell, bne_iff_ne, Ne, ← UInt8.toNat_inj]
  exact Nat.pos_iff_ne_zero.symm

/-- A step is a tick, if one is due, and then a cycle, whether this goes through or not. -/
theorem step_eq_cycle (dice : Nat → Int) (m : Machine) (now : Float) : ∃ lines,
    m.step dice now = { (m.tickedFrom m.lastTick now).cycle dice with
      lines := lines ++ ((m.tickedFrom m.lastTick now).cycle dice).lines } := by
  rw [← updateTimers_eq_tickedFrom]
  exact ⟨_, rfl⟩

theorem step_getDelay (dice : Nat → Int) (now : Float) (h : m.Next (.getDelay x)) :
    (m.step dice now).machine.register x = (m.tickedFrom m.lastTick now).delay := by
  rw [(step_of_next dice now h).1, ← updateTimers_eq_tickedFrom]
  exact register_setRegister_self _ _ _

theorem account_ne_expiry (opcode account : String) :
    Line.debug s!"Execute Opcode {opcode}: {account}" ≠ Timer.expiry := by
  intro h
  have hfirst := congrArg (fun line : Line => line.text.toList.head?) h
  simp only [Line.debug, Timer.expiry, toString, String.toList_append, List.append_assoc] at hfirst
  cases hfirst

theorem error_ne_expiry (text : String) : Line.error text ≠ Timer.expiry := by
  intro h
  cases congrArg Line.level h

/-- Instructions have nothing to say on the end of the tone. -/
theorem expiry_notMem_narrate (dice : Nat → Int) (m : Machine) (o : Opcode) (i : Instruction)
    (fault : Option Fault) : Timer.expiry ∉ i.narrate dice m o fault := by
  have haccount := account_ne_expiry o.text (i.describe dice m)
  have skipped : Line.debug "Instruction skipped." ≠ Timer.expiry := by decide
  have stayed : Line.debug "Instruction not skipped." ≠ Timer.expiry := by decide
  unfold Instruction.narrate
  cases fault with
  | some fault =>
    have hfault := error_ne_expiry fault.message
    simp only
    split <;> simp [haccount.symm, Fault.line, hfault.symm]
  | none =>
    simp only
    split <;> simp [haccount.symm, skipped.symm, stayed.symm]

theorem expiry_notMem_cycle (dice : Nat → Int) (m : Machine) :
    Timer.expiry ∉ (m.cycle dice).lines := by
  unfold cycle
  cases m.opcode with
  | error fault => simp [Outcome.refuse, Fault.line, (error_ne_expiry _).symm]
  | ok o =>
    simp only [perform]
    cases Instruction.ofOpcode? o with
    | none => simp [(error_ne_expiry _).symm]
    | some i => exact expiry_notMem_narrate dice _ o i _

theorem updateTimers_lines (m : Machine) (now : Float) : (m.updateTimers now).lines =
    if Timer.Due m.lastTick now ∧ m.sound = 1 then [Timer.expiry] else [] := by
  unfold updateTimers
  by_cases h : Timer.Due m.lastTick now
  · have hlines : (countDownSound { m with lastTick := now }.countDownDelay).lines =
        if m.sound = 1 then [Timer.expiry] else [] := rfl
    rw [if_pos (ticks_iff.2 h), hlines]
    simp only [h, true_and]
  · rw [if_neg (mt ticks_iff.1 h), if_neg fun hs => h hs.1]

theorem count_expiry_step (dice : Nat → Int) (m : Machine) (now : Float) :
    (m.step dice now).lines.count Timer.expiry =
      if Timer.Due m.lastTick now ∧ m.sound = 1 then 1 else 0 := by
  simp only [step, List.count_append]
  rw [List.count_eq_zero.2 (expiry_notMem_cycle dice _), Nat.add_zero, updateTimers_lines]
  split
  · exact List.count_singleton_self
  · rfl

/-- The timers of a machine, from when it is switched on through all its requests. -/
theorem after_keepsTime (settings : Settings) (start : Float) (dice : Nat → Int)
    (history : List Operation) : (fresh settings start).KeepsTime dice start history := by
  have hm := fresh_inBounds settings start
  have hlast : ((fresh settings start).after dice history).lastTick =
      Timer.reference start history := lastTick_after hm dice history
  have hvalue (t : Timer) (value : UInt8) (count : Nat)
      (h : t.Since dice (fresh settings start) start history value count) :
      (t.value ((fresh settings start).after dice history)).toNat = value.toNat - count :=
    h.value_after hm (by cases t <;> rfl) rfl
  exact {
    since := fun t => t.exists_since dice _ start history
    value := hvalue
    bell := by
      intro value count h
      have hsound : ((fresh settings start).after dice history).sound.toNat =
          value.toNat - count := hvalue .sound value count h
      rw [bell_iff, hsound, Nat.sub_pos_iff_lt]
    step := by
      intro now
      obtain ⟨lines, h⟩ := step_eq_cycle dice ((fresh settings start).after dice history) now
      rw [hlast] at h
      exact ⟨lines, h⟩
    getDelay := by
      intro now x h
      rw [step_getDelay dice now h, hlast]
    expiry := by
      intro now
      rw [count_expiry_step, hlast] }

end Machine

end Chip8
