import Chip8.Proofs.Session.Load
import Mathlib.Data.String.Basic

/-!
Which files are read as games, and what is told of the others. A name is cut at its last dot, which
comes to this: it ends like that of a game, with something in front of the ending. The checks of a
file are independent of each other, and several may fail at once; the outcome is the first that
there is reason for.
-/
namespace Chip8

theorem eq_dot_of_toLower {c : Char} (h : c.toLower = '.') : c = '.' := by
  unfold Char.toLower at h
  split at h
  · rename_i hc
    have hlow := UInt32.le_iff_toNat_le.1 hc.1
    have hhigh := UInt32.le_iff_toNat_le.1 hc.2
    have hsum := congrArg UInt32.toNat (congrArg Char.val h)
    simp at hlow hhigh hsum
    omega
  · exact h

namespace Path

variable {name stem letters : List Char}

/-- The last dot is the one with no other behind it. -/
theorem cut_append_dot (hs : stem ≠ []) (hl : letters ≠ []) (hdot : '.' ∉ letters) :
    cut (stem ++ '.' :: letters) = (stem, '.' :: letters) := by
  have hreverse : (stem ++ '.' :: letters).reverse = letters.reverse ++ '.' :: stem.reverse := by
    rw [List.reverse_append, List.reverse_cons, List.append_assoc, List.singleton_append]
  have hpos : ∀ c ∈ letters.reverse, (c != '.') = true := by
    intro c hc
    exact bne_iff_ne.2 fun heq => hdot (heq ▸ List.mem_reverse.1 hc)
  simp only [cut, hreverse, List.takeWhile_append_of_pos hpos, List.dropWhile_append_of_pos hpos]
  simp [hs, hl]

/-- What is cut off has something in front of it. -/
theorem stem_ne_nil_of_cut (h : (cut name).2 ≠ []) : (cut name).1 ≠ [] := by
  unfold cut at h ⊢
  dsimp only at h ⊢
  split at h
  · exact absurd rfl h
  · rename_i hn
    rw [if_neg hn]
    exact List.reverse_ne_nil_iff.2 fun hb => hn (Or.inl hb)

end Path

namespace Cartridge

def endings : List (List Char) := [".ch8".toList, ".chip8".toList]

/-- The name ends like that of a game, in capitals or not, and has something in front of that. -/
def EndsLikeGame (name : List Char) : Prop :=
  ∃ stem ending, name = stem ++ ending ∧ stem ≠ [] ∧ ending.map Char.toLower ∈ endings

variable {files : FileSystem} {path : Path} {name ending : List Char}

theorem isGame_iff_suffix : IsGame path ↔ path.suffix.map Char.toLower ∈ endings := by
  simp only [IsGame, suffixes, endings, List.mem_cons, List.not_mem_nil, or_false,
    ← String.toList_inj, String.toList_ofList]

/-- An ending of a game is its only dot and the letters behind it. -/
theorem exists_letters (h : ending.map Char.toLower ∈ endings) :
    ∃ letters, ending = '.' :: letters ∧ letters ≠ [] ∧ '.' ∉ letters := by
  have hshape : ∀ e ∈ endings, e.head? = some '.' ∧ e.tail ≠ [] ∧ '.' ∉ e.tail := by decide
  obtain ⟨hhead, htail, hdot⟩ := hshape _ h
  cases ending with
  | nil => cases hhead
  | cons c letters =>
    refine ⟨letters, ?_, fun hn => htail (by rw [hn]; rfl), fun hm => hdot ?_⟩
    · rw [eq_dot_of_toLower (Option.some.inj hhead)]
    · exact List.mem_map.2 ⟨'.', hm, by decide⟩

/-- Cutting at the last dot finds the endings of games, and no others. -/
theorem isGame_iff : IsGame path ↔ EndsLikeGame path.name.toList := by
  rw [isGame_iff_suffix]
  constructor
  · intro h
    obtain ⟨letters, hsuffix, -⟩ := exists_letters h
    have hne : (Path.cut path.name.toList).2 ≠ [] := by
      rw [show (Path.cut path.name.toList).2 = _ from hsuffix]
      exact List.cons_ne_nil _ _
    exact ⟨_, path.suffix, (Path.cut_append _).symm, Path.stem_ne_nil_of_cut hne, h⟩
  · rintro ⟨stem, ending, hname, hstem, hlower⟩
    obtain ⟨letters, rfl, hne, hdot⟩ := exists_letters hlower
    rwa [Path.suffix, hname, Path.cut_append_dot hstem hne hdot]

/-- No ending of a game ends in another one, so an ending alone is no name of a game. -/
theorem not_endsLikeGame_of_bare (h : name.map Char.toLower ∈ endings) : ¬EndsLikeGame name := by
  rintro ⟨stem, ending, rfl, hstem, hlower⟩
  have hapart : ∀ whole ∈ endings, ∀ part ∈ endings, part <:+ whole → part = whole := by decide
  rw [List.map_append] at h
  have hsame := congrArg List.length (hapart _ h _ hlower (List.suffix_append _ _))
  rw [List.length_append, List.length_map, List.length_map] at hsame
  exact hstem (List.length_eq_zero_iff.1 (by omega))

theorem not_endsLikeGame_of_dot (name : List Char) : ¬EndsLikeGame (name ++ ['.']) := by
  rintro ⟨stem, ending, hname, -, hlower⟩
  obtain ⟨letters, rfl, hne, hdot⟩ := exists_letters hlower
  rw [← List.dropLast_concat_getLast hne, ← List.cons_append, ← List.append_assoc] at hname
  obtain ⟨-, hlast⟩ := List.append_inj' hname rfl
  exact hdot (List.singleton_inj.1 hlast ▸ List.getLast_mem hne)

/-- There is reason for an outcome other than a game, be it the first reason or not. -/
def Fails (files : FileSystem) (path : Path) : Reading → Prop
  | .game _ => False
  | .lookFailed e => files path = .failed e
  | .rejected .missing => files path = .missing
  | .rejected .notFile => ∀ f, files path ≠ .file f
  | .rejected .notGame => ¬EndsLikeGame path.name.toList
  | .rejected (.tooLarge size) => 3584 < size ∧ ∃ f, files path = .file f ∧ f.size = size
  | .openFailed e => ∃ f, files path = .file f ∧ f.content = .error e

end Cartridge

/-- The place of an outcome in the order in which a path is looked up, checked and opened. -/
def Reading.place : Reading → Nat
  | .lookFailed _ => 0
  | .rejected .missing => 1
  | .rejected .notFile => 2
  | .rejected .notGame => 3
  | .rejected (.tooLarge _) => 4
  | .openFailed _ => 5
  | .game _ => 6

namespace Cartridge

variable {files : FileSystem} {path : Path} {outcome other : Reading} {f : StoredFile}

/-- There is reason for the outcome, and none for those in front of it. -/
structure FailsFirst (files : FileSystem) (path : Path) (outcome : Reading) : Prop where
  fails : Fails files path outcome
  first : ∀ earlier : Reading, earlier.place < outcome.place → ¬Fails files path earlier

theorem Fails.unique (h : Fails files path outcome) (h' : Fails files path other)
    (hplace : outcome.place = other.place) : outcome = other := by
  have hfile {f g : StoredFile} (hf : files path = .file f) (hg : files path = .file g) : f = g :=
    Lookup.file.inj (hf.symm.trans hg)
  rcases outcome with _ | (_ | _ | _ | _) | _ | _ <;>
    rcases other with _ | (_ | _ | _ | _) | _ | _ <;> try cases hplace
  case lookFailed.lookFailed => exact congrArg _ (Lookup.failed.inj (h.symm.trans h'))
  case openFailed.openFailed =>
    obtain ⟨f, hf, he⟩ := h
    obtain ⟨g, hg, he'⟩ := h'
    obtain rfl := hfile hf hg
    exact congrArg _ (Except.error.inj (he.symm.trans he'))
  case rejected.tooLarge.rejected.tooLarge =>
    obtain ⟨-, f, hf, rfl⟩ := h
    obtain ⟨-, g, hg, rfl⟩ := h'
    rw [hfile hf hg]
  case game.game => exact h.elim
  all_goals rfl

/-- Where a game is not read, there is reason for what is told instead. -/
theorem fails_read (hn : ∀ content, read files path ≠ .game content) :
    Fails files path (read files path) := by
  cases hl : files path with
  | failed e =>
    rw [read, hl]
    exact hl
  | missing =>
    rw [read, hl]
    exact hl
  | folder =>
    rw [read, hl]
    exact fun f hf => Lookup.noConfusion (hl.symm.trans hf)
  | file f =>
    rw [read_of_file hl] at hn ⊢
    split
    · rename_i hg
      exact mt isGame_iff.2 hg
    · split
      · rename_i hlarge
        exact ⟨hlarge, f, hl, rfl⟩
      · rename_i hg hfits
        rw [if_neg hg, if_neg hfits] at hn
        cases hcontent : f.content with
        | error e => exact ⟨f, hl, hcontent⟩
        | ok content =>
          rw [hcontent] at hn
          exact absurd rfl (hn content)

/-- Nothing is told that comes behind an outcome there is reason for. -/
theorem place_read_le (h : Fails files path outcome) :
    (read files path).place ≤ outcome.place := by
  rcases outcome with _ | (_ | _ | _ | _) | _ | _
  case game => exact h.elim
  case lookFailed | rejected.missing =>
    have hl : files path = _ := h
    simp [read, hl]
  case rejected.notFile =>
    cases hl : files path with
    | file f => exact absurd hl (h f)
    | failed | missing | folder => simp [read, hl, Reading.place]
  case rejected.notGame =>
    cases hl : files path with
    | file f =>
      rw [read_of_file hl, if_pos (mt isGame_iff.1 h)]
    | failed | missing | folder => simp [read, hl, Reading.place]
  case rejected.tooLarge =>
    obtain ⟨hlarge, f, hl, rfl⟩ := h
    have hsize : f.size > gameCapacity := hlarge
    rw [read_of_file hl, if_pos hsize]
    split <;> simp [Reading.place]
  case openFailed =>
    obtain ⟨f, hl, hcontent⟩ := h
    rw [read_of_file hl, hcontent]
    split
    · simp [Reading.place]
    · split <;> simp [Reading.place]

theorem place_lt_game (hn : ∀ content, outcome ≠ .game content) : outcome.place < 6 := by
  rcases outcome with content | (_ | _ | _ | _) | _ | _
  case game => exact absurd rfl (hn content)
  all_goals simp [Reading.place]

/-- Any outcome but a game is told exactly if it is the first there is reason for. -/
theorem read_eq_iff (hn : ∀ content, outcome ≠ .game content) :
    read files path = outcome ↔ FailsFirst files path outcome := by
  constructor
  · rintro rfl
    exact ⟨fails_read hn, fun earlier hlt h => absurd (place_read_le h) (Nat.not_le.2 hlt)⟩
  · intro hfirst
    have hle := place_read_le hfirst.fails
    have hread : Fails files path (read files path) := by
      refine fails_read fun content h => ?_
      rw [h] at hle
      exact absurd (place_lt_game hn) (Nat.not_lt.2 hle)
    have hge : outcome.place ≤ (read files path).place :=
      Nat.not_lt.1 fun hlt => hfirst.first _ hlt hread
    exact hread.unique hfirst.fails (Nat.le_antisymm hle hge)

/-- A file is read as a game, and then as a whole, exactly if it can be opened and read, its name
ends like that of a game and its size is small enough; so a machine takes every game that is read.
Any other outcome is the first that there is reason for: the look-up fails, one of the four checks
does, or the file cannot be read. It is the last part of a path that has to end like a game, and
neither an ending alone nor a dot behind it will do. -/
theorem read_exact (files : FileSystem) (path : Path) :
    (∀ content, read files path = .game content ↔ ∃ f, files path = .file f ∧
      f.content = .ok content ∧ EndsLikeGame path.name.toList ∧ f.size ≤ 3584) ∧
    (∀ outcome : Reading, (∀ content, outcome ≠ .game content) →
      (read files path = outcome ↔ FailsFirst files path outcome)) ∧
    (∀ content (m : Machine), read files path = .game content →
      (m.loadGame content).fault = none) ∧
    ∀ root parents (name : String) content,
      read files ⟨root, parents ++ [name]⟩ = .game content → EndsLikeGame name.toList ∧
        name.toList.map Char.toLower ∉ endings ∧ name.toList.getLast? ≠ some '.' := by
  refine ⟨fun content => ?_, fun outcome hn => read_eq_iff hn, fun content m h => ?_,
    fun root parents name content h => ?_⟩
  · rw [read_eq_game_iff, isGame_iff]
    constructor
    · rintro ⟨⟨f, hf, hcontent⟩, hends, hsize⟩
      exact ⟨f, hf, hcontent, hends, f.steady _ hcontent ▸ hsize⟩
    · rintro ⟨f, hf, hcontent, hends, hsize⟩
      exact ⟨⟨f, hf, hcontent⟩, hends, (f.steady _ hcontent).symm ▸ hsize⟩
  · exact (Machine.loadGame_of_le (read_eq_game_iff.1 h).2.2).1
  · obtain ⟨-, hgame, -⟩ := read_eq_game_iff.1 h
    have hends : EndsLikeGame name.toList := by
      have hlast := isGame_iff.1 hgame
      rwa [Path.name, List.getLastD_concat] at hlast
    refine ⟨hends, fun hbare => not_endsLikeGame_of_bare hbare hends, fun hdot => ?_⟩
    obtain ⟨front, hfront⟩ := List.getLast?_eq_some_iff.1 hdot
    exact not_endsLikeGame_of_dot front (hfront ▸ hends)

end Cartridge

/-- The look-up of a name that is too long fails, whatever the tree holds. -/
theorem FileTree.lookup_of_long_name (t : FileTree) {name : String} (hnull : '\x00' ∉ name.toList)
    (hlong : longestPart < name.utf8ByteSize) :
    t.lookup ⟨0, [name]⟩ = .failed (.nameTooLong ⟨0, [name]⟩) := by
  have hnone : ([name].any fun part => part.toList.contains '\x00') = false := by
    simpa using hnull
  have hfolder : t.entry? [] = some .folder := if_pos rfl
  have hdown : name ≠ ".." := by
    rintro rfl
    exact absurd hlong (by decide)
  rw [lookup, hnone, if_neg Bool.false_ne_true]
  split
  · rfl
  · rw [if_pos rfl, walk, if_neg (not_not_intro hfolder), if_neg hdown, if_pos hlong]

/-- There is nothing in an empty tree, but a name that is too long to be looked up in it is not
rejected for that. -/
theorem Cartridge.overlong_name_not_rejected :
    let name := List.replicate 300 'n' ++ ".ch8".toList
    let path := Path.ofString (String.ofList name)
    read (FileTree.lookup []) path = .lookFailed (.nameTooLong path) ∧
      ∀ why, read (FileTree.lookup []) path ≠ .rejected why := by
  intro name path
  have hpath : path = ⟨0, [String.ofList name]⟩ := by
    have hpieces : Path.pieces name = [name] := by decide +kernel
    simp only [path, Path.ofString, String.toList_ofList, hpieces]
    rfl
  have hnull : '\x00' ∉ (String.ofList name).toList := by
    rw [String.toList_ofList]
    decide +kernel
  have hlong : FileTree.longestPart < (String.ofList name).utf8ByteSize := by
    rw [String.utf8ByteSize_ofList]
    decide +kernel
  have hlookup : FileTree.lookup [] path = .failed (.nameTooLong path) :=
    hpath ▸ FileTree.lookup_of_long_name [] hnull hlong
  have hread : read (FileTree.lookup []) path = .lookFailed (.nameTooLong path) := by
    rw [read, hlookup]
  refine ⟨hread, fun why h => ?_⟩
  rw [hread] at h
  cases h

end Chip8
