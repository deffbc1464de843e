import Chip8.Keypad
import Mathlib.Data.List.Induction
import Mathlib.Data.List.Nodup

/-!
The held key in closed form. A keypad that has begun with no key down holds the key that went
down last among all events, unless that key has been let go since.
-/
namespace Chip8.Keypad

def afterAll (k : Keypad) (events : List Event) : Keypad := events.foldl after k

/-- Of all keys of the keypad this one went down last, and it has not been let go since. -/
def HeldBy (key : Nibble) (events : List Event) : Prop :=
  ∃ before code later, events = before ++ .keyDown code :: later ∧ key? code = some key ∧
    (∀ other, .keyDown other ∈ later → key? other = none) ∧
    ∀ other, .keyUp other ∈ later → key? other ≠ some key

/-- The event leaves a held key alone: it is no press of the keypad and no release of that key. -/
def Spares (key : Nibble) (e : Event) : Prop :=
  (∀ code, e = .keyDown code → key? code = none) ∧ ∀ code, e = .keyUp code → key? code ≠ some key

variable {k : Keypad} {key : Nibble} {events : List Event} {e : Event}

theorem afterAll_append (k : Keypad) (first second : List Event) :
    k.afterAll (first ++ second) = (k.afterAll first).afterAll second :=
  List.foldl_append

theorem afterAll_cons (k : Keypad) (e : Event) (events : List Event) :
    k.afterAll (e :: events) = (k.after e).afterAll events := rfl

theorem after_of_change?_eq_none (h : change? e = none) : k.after e = k := by
  rw [after, h, Option.elim_none]

theorem key_after_keyDown {code : Int} (h : key? code = some key) :
    (k.after (.keyDown code)).key = some key := by
  rw [after, change?, h]
  rfl

theorem key_after_keyUp {code : Int} {other : Nibble} (h : key? code = some other) :
    (k.after (.keyUp code)).key = if k.key = some other then none else k.key := by
  rw [after, change?, h]
  simp only [Option.map_some, Option.elim_some, apply, Bool.false_eq_true, if_false]
  split <;> rfl

/-- A key is held after an event that pressed it, or that spared it when it was held already. -/
theorem key_after_iff : (k.after e).key = some key ↔
    (∃ code, e = .keyDown code ∧ key? code = some key) ∨ k.key = some key ∧ Spares key e := by
  cases e with
  | keyDown code =>
    cases h : key? code with
    | none =>
      rw [after_of_change?_eq_none (by rw [change?, h, Option.map_none])]
      simp [Spares, h]
    | some other =>
      rw [key_after_keyDown h]
      simp [Spares, h]
  | keyUp code =>
    cases h : key? code with
    | none =>
      rw [after_of_change?_eq_none (by rw [change?, h, Option.map_none])]
      simp [Spares, h]
    | some other =>
      rw [key_after_keyUp h]
      by_cases ho : k.key = some other
      · rw [if_pos ho]
        simp [Spares, h, ho]
      · rw [if_neg ho]
        have hne : k.key = some key → other ≠ key := by
          rintro hk rfl
          exact ho hk
        simpa [Spares, h] using hne
  | quit | other =>
    rw [after_of_change?_eq_none rfl]
    simp [Spares]

theorem heldBy_concat_iff : HeldBy key (events ++ [e]) ↔
    (∃ code, e = .keyDown code ∧ key? code = some key) ∨ HeldBy key events ∧ Spares key e := by
  constructor
  · rintro ⟨before, code, later, hsplit, hcode, hdown, hup⟩
    -- The press of the key is the new event itself, or the new event lies behind it.
    rcases List.eq_nil_or_concat later with rfl | ⟨later, last, rfl⟩
    · obtain ⟨-, he⟩ := List.append_inj' hsplit rfl
      exact Or.inl ⟨code, List.singleton_inj.1 he, hcode⟩
    · rw [List.concat_eq_append, ← List.cons_append, ← List.append_assoc] at hsplit
      rw [List.concat_eq_append] at hdown hup
      obtain ⟨hevents, he⟩ := List.append_inj' hsplit rfl
      obtain rfl := List.singleton_inj.1 he
      refine Or.inr ⟨⟨before, code, later, hevents, hcode, ?_, ?_⟩, ?_, ?_⟩
      · exact fun other ho => hdown other (List.mem_append_left _ ho)
      · exact fun other ho => hup other (List.mem_append_left _ ho)
      · rintro other rfl
        exact hdown other (List.mem_append_right _ List.mem_cons_self)
      · rintro other rfl
        exact hup other (List.mem_append_right _ List.mem_cons_self)
  · rintro (⟨code, rfl, hcode⟩ | ⟨⟨before, code, later, rfl, hcode, hdown, hup⟩, hspare⟩)
    · exact ⟨events, code, [], rfl, hcode, by simp, by simp⟩
    · refine ⟨before, code, later ++ [e], by simp, hcode, ?_, ?_⟩
      · intro other ho
        rcases List.mem_append.1 ho with ho | ho
        · exact hdown other ho
        · exact hspare.1 other (List.mem_singleton.1 ho).symm
      · intro other ho
        rcases List.mem_append.1 ho with ho | ho
        · exact hup other ho
        · exact hspare.2 other (List.mem_singleton.1 ho).symm

/-- The history of a keypad in closed form. -/
theorem key_afterAll_iff (events : List Event) (key : Nibble) :
    (({} : Keypad).afterAll events).key = some key ↔ HeldBy key events := by
  induction events using List.reverseRecOn with
  | nil =>
    refine iff_of_false (fun h => ?_) (fun h => ?_)
    · cases h
    · obtain ⟨before, code, later, h, -⟩ := h
      exact absurd h.symm (List.append_ne_nil_of_right_ne_nil before (List.cons_ne_nil _ _))
  | append_singleton events e ih =>
    rw [afterAll_append, heldBy_concat_iff, ← ih]
    exact key_after_iff

/-- The key codes of the keypad, row by row of the keyboard, and the keys that they stand for. -/
def keyCodes : List (Int × Nibble) :=
  [(49, 1), (50, 2), (51, 3), (52, 12), (113, 4), (119, 5), (101, 6), (114, 13),
   (97, 7), (115, 8), (100, 9), (102, 14), (122, 10), (120, 0), (99, 11), (118, 15)]

theorem layout_map_eq_keyCodes :
    layout.map (fun entry => ((entry.1.toNat : Int), entry.2)) = keyCodes := by decide

/-- No key code stands for two keys. -/
theorem key?_eq_some_iff {code : Int} : key? code = some key ↔ (code, key) ∈ keyCodes := by
  have hdistinct : (layout.map fun entry => (entry.1.toNat : Int)).Nodup := by decide
  rw [← layout_map_eq_keyCodes, List.mem_map, key?, Option.map_eq_some_iff]
  constructor
  · rintro ⟨entry, hfound, rfl⟩
    have hcode := List.find?_some hfound
    exact ⟨entry, List.mem_of_find?_eq_some hfound, congrArg (·, entry.2) (of_decide_eq_true hcode)⟩
  · rintro ⟨entry, hin, hentry⟩
    obtain ⟨rfl, rfl⟩ := Prod.mk.inj hentry
    have hsome : (layout.find? fun e => (e.1.toNat : Int) = entry.1.toNat).isSome :=
      List.find?_isSome.2 ⟨entry, hin, decide_eq_true rfl⟩
    obtain ⟨found, hfound⟩ := Option.isSome_iff_exists.1 hsome
    have hcode := List.find?_some hfound
    have hsame := List.inj_on_of_nodup_map hdistinct (List.mem_of_find?_eq_some hfound) hin
      (of_decide_eq_true hcode)
    exact ⟨found, hfound, congrArg Prod.snd hsame⟩

theorem isSome_key?_iff {code : Int} :
    (key? code).isSome ↔ ∃ entry ∈ layout, code = entry.1.toNat := by
  rw [key?, Option.isSome_map, List.find?_isSome]
  simp only [decide_eq_true_eq, eq_comm (a := code)]

/-- The events that concern the keypad are those of the sixteen keys in its layout. -/
theorem isSome_change?_iff (e : Event) : (change? e).isSome ↔
    ∃ entry ∈ layout, e = .keyDown entry.1.toNat ∨ e = .keyUp entry.1.toNat := by
  cases e with
  | keyDown code | keyUp code =>
    rw [change?, Option.isSome_map, isSome_key?_iff]
    simp
  | quit | other => simp [change?]

end Chip8.Keypad
