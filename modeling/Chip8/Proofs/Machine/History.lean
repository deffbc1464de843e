import Chip8.Machine.Step

/-!
Histories from their end. A machine after a history is what the last request has made of the
machine before it, and a moment of a history is its last one or lies before that.
-/
namespace Chip8

section
variable {α : Type} {before list : List α} {a last : α} {P : List α → α → Prop}

theorem not_concat_prefix_nil : ¬before ++ [a] <+: [] :=
  fun h => List.concat_ne_nil a before (List.prefix_nil.1 h)

theorem concat_prefix_concat_iff :
    before ++ [a] <+: list ++ [last] ↔ before = list ∧ a = last ∨ before ++ [a] <+: list := by
  rw [List.prefix_concat_iff]
  refine or_congr_left ⟨fun h => ?_, fun h => by rw [h.1, h.2]⟩
  obtain ⟨rfl, hlast⟩ := List.append_inj' h rfl
  exact ⟨rfl, List.singleton_inj.1 hlast⟩

theorem concat_prefix_singleton_iff : before ++ [a] <+: [last] ↔ before = [] ∧ a = last := by
  rw [← List.nil_append [last], concat_prefix_concat_iff]
  exact or_iff_left not_concat_prefix_nil

theorem forall_concat_prefix_nil (before : List α) (a : α) (h : before ++ [a] <+: []) :
    P before a :=
  absurd h not_concat_prefix_nil

/-- What holds at every moment holds at all before the last one, and at that. -/
theorem forall_concat_prefix_concat_iff :
    (∀ before a, before ++ [a] <+: list ++ [last] → P before a) ↔
      (∀ before a, before ++ [a] <+: list → P before a) ∧ P list last := by
  constructor
  · intro h
    refine ⟨fun before a hp => ?_, h list last (List.prefix_refl _)⟩
    exact h before a (hp.trans (List.prefix_append list [last]))
  · rintro ⟨hbefore, hlast⟩ before a hp
    rcases concat_prefix_concat_iff.1 hp with ⟨rfl, rfl⟩ | hp
    · exact hlast
    · exact hbefore before a hp

end

namespace Machine

theorem after_append (dice : Nat → Int) (m : Machine) (first second : List Operation) :
    m.after dice (first ++ second) = (m.after dice first).after dice second :=
  List.foldl_append

theorem after_concat (dice : Nat → Int) (m : Machine) (history : List Operation)
    (operation : Operation) : m.after dice (history ++ [operation]) =
      ((m.after dice history).apply dice operation).machine :=
  m.after_append dice history [operation]

end Machine

end Chip8
