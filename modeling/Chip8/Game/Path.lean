/-!
Paths in normal form. Empty parts and single dots are dropped when a path is read, double dots
are kept. Two slashes in front are a root of their own; any other number of them is one. The
last part is the name, which splits into a stem and a suffix at its last dot, unless that dot is
the first or the last character.
-/
namespace Chip8

structure Path where
  /-- The slashes in front, at most two. -/
  root : Nat
  parts : List String
deriving DecidableEq, Repr

namespace Path

/-- The pieces of a text between its slashes, empty ones included. -/
def pieces : List Char → List (List Char)
  | [] => [[]]
  | c :: rest =>
    if c = '/' then [] :: pieces rest
    else
      match pieces rest with
      | [] => [[c]]
      | piece :: more => (c :: piece) :: more

def ofString (text : String) : Path :=
  let slashes := (text.toList.takeWhile (· == '/')).length
  { root := if slashes ≤ 2 then slashes else 1
    parts := ((pieces text.toList).filter fun piece => piece ≠ [] ∧ piece ≠ ['.']).map
      String.ofList }

/-- The text of a path; a path without root and parts is a dot. -/
def text (p : Path) : String :=
  let written := String.ofList (List.replicate p.root '/') ++ "/".intercalate p.parts
  if p.root = 0 ∧ p.parts = [] then "." else written

/-- The path with more parts below it. -/
def join (p : Path) (parts : List String) : Path := { p with parts := p.parts ++ parts }

/-- The last part; empty where there is none. -/
def name (p : Path) : String := p.parts.getLastD ""

/-- A name cut before its last dot. A dot in the first or the last place cuts nothing off. -/
def cut (name : List Char) : List Char × List Char :=
  let ending := (name.reverse.takeWhile (· != '.')).reverse
  let before := (name.reverse.dropWhile (· != '.')).drop 1
  if before = [] ∨ ending = [] then (name, []) else (before.reverse, '.' :: ending)

def stem (p : Path) : String := String.ofList (cut p.name.toList).1

/-- The ending of the name from its last dot on. -/
def suffix (p : Path) : List Char := (cut p.name.toList).2

theorem cut_append (name : List Char) : (cut name).1 ++ (cut name).2 = name := by
  by_cases h : (name.reverse.dropWhile (· != '.')).drop 1 = [] ∨
      (name.reverse.takeWhile (· != '.')).reverse = []
  · simp only [cut, if_pos h, List.append_nil]
  · simp only [cut, if_neg h]
    cases hrest : name.reverse.dropWhile (· != '.') with
    | nil => simp [hrest] at h
    | cons c before =>
      have hc : c = '.' := by
        have := List.head?_dropWhile_not (· != '.') name.reverse
        simpa [hrest] using this
      have hall := List.takeWhile_append_dropWhile (p := (· != '.')) (l := name.reverse)
      rw [hrest, hc] at hall
      have hname := congrArg List.reverse hall
      simpa using hname

end Path

end Chip8
