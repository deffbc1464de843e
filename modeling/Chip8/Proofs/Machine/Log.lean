import Chip8.Proofs.Machine.Countdown

/-!
What the log says about a history. Of the lines at error level, each belongs to a fault that stops
the emulation or to a word that is no instruction, and each of these has one such line. An executed
word is accounted for in one line, which begins with the word itself.
-/
namespace Chip8

/-- The four hexadecimal digits of a word. -/
def Hexadecimal.word (w : Nat) : String :=
  String.ofList [Nat.digitChar (w / 4096 % 16), Nat.digitChar (w / 256 % 16),
    Nat.digitChar (w / 16 % 16), Nat.digitChar (w % 16)]

theorem Opcode.text_eq_word {o : Opcode} (h : o.rest = []) : o.text = Hexadecimal.word o.word := by
  obtain ⟨first, second, rest⟩ := o
  obtain rfl : rest = [] := h
  have h1 := first.toNat_lt
  have h2 := second.toNat_lt
  have hjoin : (Opcode.mk first second []).text =
      Hexadecimal.byte first ++ Hexadecimal.byte second := by
    simp [Opcode.text, Opcode.toBytes, Hexadecimal.bytes, String.join]
  rw [hjoin, Hexadecimal.byte, Hexadecimal.byte, ← String.ofList_append, Hexadecimal.word]
  simp only [Opcode.word, List.cons_append, List.nil_append]
  rw [show (256 * first.toNat + second.toNat) / 4096 % 16 = first.toNat / 16 by omega,
    show (256 * first.toNat + second.toNat) / 256 % 16 = first.toNat % 16 by omega,
    show (256 * first.toNat + second.toNat) / 16 % 16 = second.toNat / 16 by omega,
    show (256 * first.toNat + second.toNat) % 16 = second.toNat % 16 by omega]

example : Hexadecimal.word 0x5a1 = "05a1" := by decide

namespace Instruction

/-- A word that spells no instruction. -/
def Unknown (w : Nat) : Prop := ∀ i : Instruction, i.word ≠ w

theorem word_lt (i : Instruction) : i.word < 65536 := by
  have h1 := i.toOpcode.first.toNat_lt
  have h2 := i.toOpcode.second.toNat_lt
  rw [← word_toOpcode, Opcode.word]
  omega

/-- Reading the two bytes of a word tells whether it is unknown. -/
theorem unknown_iff {w : Nat} : Unknown w ↔
    (w < 65536 → ofOpcode? ⟨UInt8.ofNat (w / 256), UInt8.ofNat (w % 256), []⟩ = none) := by
  have hword : w < 65536 →
      (⟨UInt8.ofNat (w / 256), UInt8.ofNat (w % 256), []⟩ : Opcode).word = w := by
    intro hw
    simp only [Opcode.word, UInt8.toNat_ofNat']
    omega
  constructor
  · intro hu hw
    refine Option.eq_none_iff_forall_ne_some.2 fun i hi => hu i ?_
    rw [← hword hw]
    exact ((ofOpcode?_eq_some_iff_word rfl).1 hi).symm
  · intro hn i hi
    have hw : w < 65536 := hi ▸ i.word_lt
    have hsome := (ofOpcode?_eq_some_iff_word (i := i) rfl).2 ((hword hw).trans hi.symm)
    rw [hn hw] at hsome
    cases hsome

instance : DecidablePred Unknown := fun _ => decidable_of_iff' _ unknown_iff

end Instruction

namespace Line

/-- The line begins with the account of an executed word. -/
def AccountsFor (line : Line) (w : Nat) : Prop :=
  line.level = .debug ∧ s!"Execute Opcode {Hexadecimal.word w}:".toList <+: line.text.toList

/-- The line begins like the account of an executed word. -/
def IsAccount (line : Line) : Prop :=
  line.level = .debug ∧ "Execute Opcode ".toList <+: line.text.toList

instance : DecidablePred IsAccount := fun line =>
  inferInstanceAs (Decidable (line.level = .debug ∧ _ <+: _))

def errors (lines : List Line) : List Line := lines.filter (·.level = .error)

def accounts (lines : List Line) : List Line := lines.filter IsAccount

theorem errors_append (first second : List Line) :
    errors (first ++ second) = errors first ++ errors second :=
  List.filter_append first second

theorem accounts_append (first second : List Line) :
    accounts (first ++ second) = accounts first ++ accounts second :=
  List.filter_append first second

theorem isAccount_debug (opcode account : String) :
    (debug s!"Execute Opcode {opcode}: {account}").IsAccount := by
  refine ⟨rfl, opcode.toList ++ ": ".toList ++ account.toList, ?_⟩
  simp only [debug, toString, String.toList_append, List.append_assoc]

theorem accounts_error (text : String) : accounts [error text] = [] := by
  have h : ¬(error text).IsAccount := fun h => nomatch h.1
  exact List.filter_singleton.trans (congrArg (cond · [error text] []) (decide_eq_false h))

theorem accountsFor_debug (w : Nat) (account : String) :
    (debug s!"Execute Opcode {Hexadecimal.word w}: {account}").AccountsFor w := by
  refine ⟨rfl, " ".toList ++ account.toList, ?_⟩
  have hcolon : ": ".toList = ":".toList ++ " ".toList := rfl
  simp only [debug, toString, String.toList_append, List.append_assoc, hcolon]

end Line

namespace Instruction

variable {dice : Nat → Int} {m : Machine} {o : Opcode} {i : Instruction}

theorem narrate_fault (dice : Nat → Int) (m : Machine) (o : Opcode) (i : Instruction)
    (fault : Fault) : ∃ before,
    i.narrate dice m o (some fault) = before ++ [fault.line] ∧ Line.errors before = [] := by
  by_cases h : i.announced
  · refine ⟨[.debug s!"Execute Opcode {o.text}: {i.describe dice m}"], ?_, rfl⟩
    simp only [narrate, if_pos h, List.cons_append, List.nil_append]
  · exact ⟨[], if_neg h, rfl⟩

theorem errors_narrate_none : Line.errors (i.narrate dice m o none) = [] := by
  rw [narrate]
  split <;> rfl

theorem accounts_narrate_none : Line.accounts (i.narrate dice m o none) =
    [.debug s!"Execute Opcode {o.text}: {i.describe dice m}"] := by
  have haccount := Line.isAccount_debug o.text (i.describe dice m)
  have skipped : ¬(Line.debug "Instruction skipped.").IsAccount := by decide
  have stayed : ¬(Line.debug "Instruction not skipped.").IsAccount := by decide
  rw [narrate, Line.accounts]
  split <;> simp [haccount, skipped, stayed]

end Instruction

namespace Outcome

/-- The request stops the emulation. -/
def Stops (out : Outcome) : Prop := ∃ fault ∈ out.fault, fault.StopsEmulation

instance : DecidablePred Stops := fun out =>
  inferInstanceAs (Decidable (∃ fault ∈ out.fault, fault.StopsEmulation))

/-- The request logs its fault alone if it stops the emulation, and nothing at error level
otherwise. -/
def Plain (out : Outcome) : Prop :=
  (∃ fault, out.fault = some fault ∧ fault.StopsEmulation ∧ out.lines = [fault.line]) ∨
    ¬out.Stops ∧ Line.errors out.lines = []

theorem plain_refuse (m : Machine) {fault : Fault} (h : fault.StopsEmulation) :
    (refuse m fault).Plain :=
  Or.inl ⟨fault, rfl, h, rfl⟩

theorem plain_of_none {out : Outcome} (h : out.fault = none) (he : Line.errors out.lines = []) :
    out.Plain := by
  refine Or.inr ⟨?_, he⟩
  rintro ⟨fault, hf, -⟩
  cases h.symm.trans hf

theorem plain_of_some {out : Outcome} {fault : Fault} (h : out.fault = some fault)
    (hn : ¬fault.StopsEmulation) (he : Line.errors out.lines = []) : out.Plain := by
  refine Or.inr ⟨?_, he⟩
  rintro ⟨fault', hf, hs⟩
  obtain rfl := Option.some.inj (h.symm.trans hf)
  exact hn hs

end Outcome

/-- A request together with the machine that it meets. -/
structure Call where
  machine : Machine
  operation : Operation

namespace Call

def outcome (dice : Nat → Int) (c : Call) : Outcome := c.machine.apply dice c.operation

/-- The word that the request executes, if it is a step and finds one. -/
def word? (c : Call) : Option Nat :=
  match c.operation with
  | .step _ => c.machine.word?
  | _ => none

/-- The request executes a word that is no instruction. -/
def MeetsUnknown (c : Call) : Prop := ∃ w ∈ c.word?, Instruction.Unknown w

instance : DecidablePred MeetsUnknown := fun c =>
  inferInstanceAs (Decidable (∃ w ∈ c.word?, Instruction.Unknown w))

/-- What the log says about one request. -/
structure Told (dice : Nat → Int) (c : Call) : Prop where
  fault : ∀ fault, (c.outcome dice).fault = some fault → fault.StopsEmulation →
    ∃ before, (c.outcome dice).lines = before ++ [.error fault.message] ∧
      Line.errors before = []
  unknown : ∀ w, c.word? = some w → Instruction.Unknown w →
    Line.errors (c.outcome dice).lines =
      [.error s!"Unimplemented / Invalid Opcode: {Hexadecimal.word w}."] ∧
    Line.accounts (c.outcome dice).lines = []
  executed : ∀ i : Instruction, c.word? = some i.word → (c.outcome dice).fault = none →
    ∃ line, Line.accounts (c.outcome dice).lines = [line] ∧ line.AccountsFor i.word

end Call

namespace Machine

/-- The requests of a history, each with the machine that the one before left. -/
def calls (dice : Nat → Int) (m : Machine) : List Operation → List Call
  | [] => []
  | operation :: rest => ⟨m, operation⟩ :: calls dice (m.apply dice operation).machine rest

/-- All lines that a history logs. -/
def log (dice : Nat → Int) (m : Machine) (history : List Operation) : List Line :=
  (m.calls dice history).flatMap fun c => (c.outcome dice).lines

variable {dice : Nat → Int} {m : Machine} {now : Float} {operation : Operation} {fault : Fault}
  {i : Instruction}

theorem errors_updateTimers : Line.errors (m.updateTimers now).lines = [] := by
  rw [updateTimers_lines]
  split <;> rfl

theorem accounts_updateTimers : Line.accounts (m.updateTimers now).lines = [] := by
  have hexpiry : ¬Timer.expiry.IsAccount := by decide
  rw [updateTimers_lines, Line.accounts]
  split <;> simp [hexpiry]

theorem step_lines_of_opcode_eq_error (h : m.opcode = .error fault) :
    (m.step dice now).lines = (m.updateTimers now).lines ++ [fault.line] := by
  rw [← m.opcode_updateTimers now] at h
  simp only [step, cycle, h, Outcome.refuse]

theorem step_lines_of_unknown (dice : Nat → Int) (now : Float) {w : Nat} (h : m.word? = some w) (hw : Instruction.Unknown w) :
    (m.step dice now).lines = (m.updateTimers now).lines ++
      [.error s!"Unimplemented / Invalid Opcode: {Hexadecimal.word w}."] := by
  obtain ⟨o, ho, hr, rfl⟩ := opcode_of_word? h
  have hi : Instruction.ofOpcode? o = none := by
    by_contra hn
    obtain ⟨i, hi⟩ := Option.ne_none_iff_exists'.1 hn
    exact hw i ((Instruction.ofOpcode?_eq_some_iff_word hr).1 hi).symm
  rw [← m.opcode_updateTimers now] at ho
  simp only [step, cycle, ho, perform, hi, Opcode.text_eq_word hr]

theorem step_lines_of_next (h : m.Next i) : (m.step dice now).lines =
    (m.updateTimers now).lines ++
      i.narrate dice (m.poised now) i.toOpcode (m.step dice now).fault := by
  obtain ⟨o, ho, hr, hw⟩ := opcode_of_word? h
  have hi := (Instruction.ofOpcode?_eq_some_iff_word hr).2 hw
  obtain rfl := (Instruction.ofOpcode?_eq_some_iff hr).1 hi
  rw [← m.opcode_updateTimers now] at ho
  simp only [step, cycle, ho, perform, hi, poised]

/-- A step that fails says so in its last line. -/
theorem step_lines_of_fault (h : (m.step dice now).fault = some fault) :
    ∃ before, (m.step dice now).lines = before ++ [fault.line] ∧ Line.errors before = [] := by
  rcases m.word?_cases with hw | ⟨w, hw, hu⟩ | ⟨i, hi⟩
  · obtain ⟨address, ho⟩ := exists_outOfRange_of_word?_eq_none hw
    rw [(step_of_opcode_eq_error dice now ho).2] at h
    obtain rfl := Option.some.inj h
    exact ⟨_, step_lines_of_opcode_eq_error ho, errors_updateTimers⟩
  · rw [(step_of_unknown dice now hw hu).2] at h
    cases h
  · obtain ⟨before, hn, he⟩ := i.narrate_fault dice (m.poised now) i.toOpcode fault
    refine ⟨(m.updateTimers now).lines ++ before, ?_, ?_⟩
    · rw [step_lines_of_next hi, h, hn, List.append_assoc]
    · rw [Line.errors_append, errors_updateTimers, he, List.nil_append]

theorem errors_step_of_next (hi : m.Next i) (h : (m.step dice now).fault = none) :
    Line.errors (m.step dice now).lines = [] := by
  rw [step_lines_of_next hi, h, Line.errors_append, errors_updateTimers,
    Instruction.errors_narrate_none, List.nil_append]

theorem accounts_step_of_next (hi : m.Next i) (h : (m.step dice now).fault = none) :
    ∃ line, Line.accounts (m.step dice now).lines = [line] ∧ line.AccountsFor i.word := by
  refine ⟨_, ?_, Line.accountsFor_debug i.word (i.describe dice (m.poised now))⟩
  rw [step_lines_of_next hi, h, Line.accounts_append, accounts_updateTimers,
    Instruction.accounts_narrate_none, Opcode.text_eq_word i.rest_toOpcode,
    Instruction.word_toOpcode, List.nil_append]

/-- A request other than a step logs a fault that stops the emulation, or nothing at error level. -/
theorem apply_plain (dice : Nat → Int) (m : Machine) (hs : ∀ now, operation ≠ .step now) :
    (m.apply dice operation).Plain := by
  cases operation with
  | loadGame game =>
    rw [apply, loadGame]
    split
    · exact Outcome.plain_refuse m trivial
    · exact Outcome.plain_of_none rfl rfl
  | reset now | loadFont | takeRedraw => exact Outcome.plain_of_none rfl rfl
  | hold key =>
    have hlatch (key : Option Nibble) :
        Line.errors (if key = m.key then [] else
          [.debug s!"Key State Changed.  Key: {keyName key}."]) = [] := by
      split <;> rfl
    cases key with
    | none => exact Outcome.plain_of_none rfl (hlatch none)
    | some key =>
      simp only [apply, hold]
      split
      · exact Outcome.plain_of_none rfl (hlatch _)
      · exact Outcome.plain_of_some rfl id rfl
  | updateTimers now =>
    have hfault : (m.updateTimers now).fault = none := by
      rw [updateTimers]
      split <;> rfl
    exact Outcome.plain_of_none hfault errors_updateTimers
  | read address =>
    rw [apply, read]
    cases hr : m.memory.read address with
    | ok value => exact Outcome.plain_of_none rfl rfl
    | error fault =>
      obtain ⟨-, rfl⟩ := Memory.read_eq_error_iff.1 hr
      exact Outcome.plain_refuse m trivial
  | write address value =>
    rw [apply, write]
    by_cases h : Memory.InRange address
    · obtain ⟨n, hn⟩ := m.memory.write_of_inRange (UInt8.ofNat value.toNat) h
      simp only [hn]
      split
      · exact Outcome.plain_of_none rfl rfl
      · exact Outcome.plain_of_some rfl id rfl
    · rw [m.memory.write_of_not_inRange _ h]
      exact Outcome.plain_refuse m trivial
  | step now => exact absurd rfl (hs now)

end Machine

namespace Call

variable {dice : Nat → Int} {c : Call}

theorem told (dice : Nat → Int) (c : Call) : c.Told dice where
  fault fault hf hs := by
    obtain ⟨m, operation⟩ := c
    by_cases hstep : ∃ now, operation = .step now
    · obtain ⟨now, rfl⟩ := hstep
      exact Machine.step_lines_of_fault hf
    · rcases m.apply_plain dice (fun now h => hstep ⟨now, h⟩) with
        ⟨fault', hf', -, hlines⟩ | ⟨hn, -⟩
      · obtain rfl := Option.some.inj (hf.symm.trans hf')
        exact ⟨[], hlines, rfl⟩
      · exact absurd ⟨fault, hf, hs⟩ hn
  unknown w hw hu := by
    obtain ⟨m, operation⟩ := c
    cases operation with
    | step now =>
      have hlines := m.step_lines_of_unknown dice now hw hu
      refine ⟨(congrArg Line.errors hlines).trans ?_, (congrArg Line.accounts hlines).trans ?_⟩
      · rw [Line.errors_append, Machine.errors_updateTimers]
        rfl
      · rw [Line.accounts_append, Machine.accounts_updateTimers, Line.accounts_error]
        rfl
    | _ => cases hw
  executed i hi hf := by
    obtain ⟨m, operation⟩ := c
    cases operation with
    | step now => exact Machine.accounts_step_of_next hi hf
    | _ => cases hi

theorem not_stops_of_meetsUnknown (h : c.MeetsUnknown) : ¬(c.outcome dice).Stops := by
  obtain ⟨w, hw, hu⟩ := h
  obtain ⟨m, operation⟩ := c
  cases operation with
  | step now =>
    rintro ⟨fault, hf, -⟩
    cases (Machine.step_of_unknown dice now hw hu).2.symm.trans hf
  | _ => cases hw

theorem errors_eq_nil (hs : ¬(c.outcome dice).Stops) (hu : ¬c.MeetsUnknown) :
    Line.errors (c.outcome dice).lines = [] := by
  obtain ⟨m, operation⟩ := c
  by_cases hstep : ∃ now, operation = .step now
  · obtain ⟨now, rfl⟩ := hstep
    have hf : (m.step dice now).fault = none :=
      Option.eq_none_iff_forall_ne_some.2 fun fault hf => hs ⟨fault, hf, Machine.stops_of_step hf⟩
    rcases m.word?_cases with hw | ⟨w, hw, hw'⟩ | ⟨i, hi⟩
    · obtain ⟨address, ho⟩ := Machine.exists_outOfRange_of_word?_eq_none hw
      rw [(Machine.step_of_opcode_eq_error dice now ho).2] at hf
      cases hf
    · exact absurd ⟨w, hw, hw'⟩ hu
    · exact Machine.errors_step_of_next hi hf
  · rcases m.apply_plain dice (fun now h => hstep ⟨now, h⟩) with
      ⟨fault, hf, hstops, -⟩ | ⟨-, he⟩
    · exact absurd ⟨fault, hf, hstops⟩ hs
    · exact he

theorem length_errors (dice : Nat → Int) (c : Call) :
    (Line.errors (c.outcome dice).lines).length =
      (if (c.outcome dice).Stops then 1 else 0) + if c.MeetsUnknown then 1 else 0 := by
  by_cases hu : c.MeetsUnknown
  · have hs : ¬(c.outcome dice).Stops := not_stops_of_meetsUnknown hu
    rw [if_neg hs, if_pos hu]
    obtain ⟨w, hw, hu⟩ := hu
    exact congrArg List.length ((c.told dice).unknown w hw hu).1
  · by_cases hs : (c.outcome dice).Stops
    · rw [if_pos hs, if_neg hu]
      obtain ⟨fault, hf, hs⟩ := hs
      obtain ⟨before, hlines, hbefore⟩ := (c.told dice).fault fault hf hs
      rw [hlines, Line.errors_append, hbefore]
      rfl
    · rw [if_neg hs, if_neg hu, errors_eq_nil hs hu]
      rfl

end Call

/-- Every line at error level is the last of a request that stops the emulation, with the message
of its fault, or names an unknown word that was executed. An executed instruction is accounted for
in one line, and an unknown word in none. -/
theorem Machine.log_accounts (dice : Nat → Int) (m : Machine) (history : List Operation) :
    (Line.errors (m.log dice history)).length =
      (m.calls dice history).countP (fun c => (c.outcome dice).Stops) +
        (m.calls dice history).countP (fun c => c.MeetsUnknown) ∧
    ∀ c ∈ m.calls dice history, c.Told dice := by
  refine ⟨?_, fun c _ => c.told dice⟩
  rw [log]
  induction m.calls dice history with
  | nil => rfl
  | cons c rest ih =>
    rw [List.flatMap_cons, Line.errors_append, List.length_append, ih, c.length_errors,
      List.countP_cons, List.countP_cons]
    simp only [decide_eq_true_eq]
    omega

end Chip8
