import Chip8.Session.Load
import Chip8.Session.Journal

/-!
Loads that go through and loads that do not. A load goes through when there is a path to load from
and the file there reads as a game, and any other load leaves the session as it was but for the log
and the dialogs. The size of a game is checked when it is read, so the machine, by then reset,
never refuses it.
-/
namespace Chip8

namespace Cartridge

variable {files : FileSystem} {path : Path} {game : List UInt8} {e : SystemError}

theorem read_of_file {f : StoredFile} (h : files path = .file f) : read files path =
    if ¬IsGame path then .rejected .notGame
    else if f.size > gameCapacity then .rejected (.tooLarge f.size)
    else
      match f.content with
      | .error e => .openFailed e
      | .ok content => .game content := by
  unfold read
  exact h ▸ rfl

/-- The size of a file that is read is the length of its content. -/
theorem read_eq_game_iff : read files path = .game game ↔
    files.Holds path game ∧ IsGame path ∧ game.length ≤ gameCapacity := by
  constructor
  · intro h
    cases hl : files path with
    | file f =>
      rw [read_of_file hl] at h
      split at h
      · cases h
      · rename_i hg
        split at h
        · cases h
        · rename_i hsize
          split at h
          · cases h
          · rename_i content hcontent
            cases h
            refine ⟨⟨f, hl, hcontent⟩, Decidable.of_not_not hg, ?_⟩
            rw [f.steady _ hcontent]
            omega
    | missing | folder | failed =>
      rw [read, hl] at h
      cases h
  · rintro ⟨⟨f, hl, hcontent⟩, hg, hsize⟩
    rw [f.steady _ hcontent] at hsize
    rw [read_of_file hl, if_neg (not_not_intro hg), if_neg (Nat.not_lt.2 hsize), hcontent]

end Cartridge

namespace Machine

variable {m : Machine} {game : List UInt8}

theorem loadGame_of_le (h : game.length ≤ gameCapacity) : (m.loadGame game).fault = none ∧
    (m.loadGame game).machine =
      { m with memory := m.memory.overlay gameStart game, counter := gameStart } := by
  rw [loadGame, if_neg (Nat.not_lt.2 h)]
  exact ⟨rfl, rfl⟩

theorem loadGame_of_gt (h : gameCapacity < game.length) :
    (m.loadGame game).fault = some (.gameTooLarge game.length) ∧
      (m.loadGame game).machine = m := by
  rw [loadGame, if_pos h]
  exact ⟨rfl, rfl⟩

end Machine

/-- An effect that is neither seen on the display nor heard. -/
def Effect.Quiet : Effect → Prop
  | .log _ | .dialog _ => True
  | .present _ | .audio _ => False

namespace Journal

variable {j : Journal} {effects : List Effect}

theorem presentations_record_quiet (h : ∀ e ∈ effects, e.Quiet) :
    (j.record effects).presentations = j.presentations := by
  rw [presentations_record, List.append_right_eq_self, presentations, List.filterMap_eq_nil_iff]
  intro e he
  have hq := h e (by simpa [record] using he)
  cases e with
  | present p => exact hq.elim
  | _ => rfl

theorem audio_record_quiet (h : ∀ e ∈ effects, e.Quiet) :
    (j.record effects).audio = j.audio := by
  rw [audio_record, List.append_right_eq_self, audio, List.filterMap_eq_nil_iff]
  intro e he
  have hq := h e (by simpa [record] using he)
  cases e with
  | audio call => exact hq.elim
  | _ => rfl

end Journal

namespace Session

/-- Between `s` and `t` nothing has happened but logging and talking to the user. -/
structure Unmoved (s t : Session) : Prop where
  eq : t = { s with picks := t.picks, journal := t.journal }
  presentations : t.journal.presentations = s.journal.presentations
  audio : t.journal.audio = s.journal.audio

variable {w : World} {s t u : Session}

theorem Unmoved.trans (h : s.Unmoved t) (h' : t.Unmoved u) : s.Unmoved u where
  eq := by
    rw [h'.eq, h.eq]
  presentations := h'.presentations.trans h.presentations
  audio := h'.audio.trans h.audio

theorem unmoved_record (s : Session) {effects : List Effect} (h : ∀ e ∈ effects, e.Quiet) :
    s.Unmoved (s.record effects) where
  eq := rfl
  presentations := Journal.presentations_record_quiet h
  audio := Journal.audio_record_quiet h

theorem unmoved_log (s : Session) (lines : List Line) : s.Unmoved (s.log lines) := by
  refine s.unmoved_record fun e he => ?_
  obtain ⟨line, -, rfl⟩ := List.mem_map.1 he
  trivial

theorem unmoved_dialog (s : Session) (dialog : Dialog) : s.Unmoved (s.record [.dialog dialog]) := by
  refine s.unmoved_record fun e he => ?_
  obtain rfl := List.mem_singleton.1 he
  trivial

theorem unmoved_reject (s : Session) (message : String) : s.Unmoved (s.reject message) := by
  have hlog := s.unmoved_log [.error message]
  simp only [reject]
  split
  · exact hlog.trans (unmoved_dialog _ _)
  · exact hlog

/-- The session that has asked for a game if no path is given. -/
def asked (w : World) (s : Session) : Option Path → Session
  | some _ => s
  | none => (s.pick w).2

/-- The path to load from: the one given or the one that the user picks. -/
def source (s : Session) : Option Path → Option Path
  | some path => some path
  | none => Picker.choice s.picks.head?.join

theorem unmoved_asked (w : World) (s : Session) (path : Option Path) :
    s.Unmoved (s.asked w path) := by
  cases path with
  | some path => exact ⟨rfl, rfl, rfl⟩
  | none =>
    have hq := ({ s with picks := s.picks.tail } : Session).unmoved_dialog
      (Picker.question (Picker.gamesPattern w.folder))
    exact ⟨rfl, hq.presentations, hq.audio⟩

theorem load_of_source_none {path : Option Path} (h : s.source path = none) :
    s.load w path = ((s.asked w path).record [.dialog Picker.notice], .ok false) := by
  cases path with
  | some path => cases h
  | none =>
    have h : Picker.choice s.picks.head?.join = none := h
    simp only [load, asked, pick, h]

theorem load_of_source_some {path : Option Path} {p : Path} (h : s.source path = some p) :
    s.load w path = (s.asked w path).loadFrom w p := by
  cases path with
  | some path =>
    obtain rfl := Option.some.inj h
    rfl
  | none =>
    have h : Picker.choice s.picks.head?.join = some p := h
    simp only [load, asked, pick, h]

/-- A game that was read fits, so putting it into the machine goes through. -/
theorem insert_ok (s : Session) (path : Path) {game : List UInt8}
    (h : game.length ≤ gameCapacity) : (s.insert path game).2 = .ok true := by
  simp only [insert, (Machine.loadGame_of_le h).1]

/-- A load goes through, or it moves nothing and has no game to read. -/
theorem load_cases (w : World) (s : Session) (path : Option Path) :
    (∃ p game, s.source path = some p ∧ Cartridge.read w.files p = .game game ∧
      s.load w path = ((s.asked w path).log [Cartridge.announcement p]).insert p game) ∨
    (¬∃ p game, s.source path = some p ∧ Cartridge.read w.files p = .game game) ∧
      s.Unmoved (s.load w path).1 ∧
      ((s.load w path).2 = .ok false ∨ ∃ e, (s.load w path).2 = .error (.system e)) := by
  have hasked := s.unmoved_asked w path
  cases hp : s.source path with
  | none =>
    rw [load_of_source_none hp]
    refine Or.inr ⟨fun h => ?_, hasked.trans (unmoved_dialog _ _), Or.inl rfl⟩
    obtain ⟨p, game, hn, -⟩ := h
    cases hn
  | some p =>
    rw [load_of_source_some hp, loadFrom]
    cases hr : Cartridge.read w.files p with
    | game game => exact Or.inl ⟨p, game, rfl, hr, rfl⟩
    | rejected why =>
      refine Or.inr ⟨fun h => ?_, hasked.trans (unmoved_reject _ _), Or.inl rfl⟩
      obtain ⟨q, game, hq, hg⟩ := h
      rw [← Option.some.inj hq, hr] at hg
      cases hg
    | lookFailed e =>
      refine Or.inr ⟨fun h => ?_, hasked, Or.inr ⟨e, rfl⟩⟩
      obtain ⟨q, game, hq, hg⟩ := h
      rw [← Option.some.inj hq, hr] at hg
      cases hg
    | openFailed e =>
      refine Or.inr ⟨fun h => ?_, hasked.trans (unmoved_log _ _), Or.inr ⟨e, rfl⟩⟩
      obtain ⟨q, game, hq, hg⟩ := h
      rw [← Option.some.inj hq, hr] at hg
      cases hg

theorem load_eq_true_iff {path : Option Path} : (s.load w path).2 = .ok true ↔
    ∃ p game, s.source path = some p ∧ Cartridge.read w.files p = .game game := by
  rcases s.load_cases w path with ⟨p, game, hp, hr, hl⟩ | ⟨hn, -, he⟩
  · refine iff_of_true ?_ ⟨p, game, hp, hr⟩
    rw [hl]
    exact insert_ok _ p (Cartridge.read_eq_game_iff.1 hr).2.2
  · refine iff_of_false (fun h => ?_) hn
    rw [h] at he
    rcases he with he | ⟨e, he⟩ <;> cases he

theorem load_ne_fault {path : Option Path} (fault : Fault) :
    (s.load w path).2 ≠ .error (.fault fault) := by
  intro h
  rcases s.load_cases w path with ⟨p, game, hp, hr, -⟩ | ⟨-, -, he⟩
  · rw [load_eq_true_iff.2 ⟨p, game, hp, hr⟩] at h
    cases h
  · rw [h] at he
    rcases he with he | ⟨e, he⟩ <;> cases he

theorem load_unmoved {path : Option Path} (h : (s.load w path).2 ≠ .ok true) :
    s.Unmoved (s.load w path).1 := by
  rcases s.load_cases w path with ⟨p, game, hp, hr, -⟩ | ⟨-, hm, -⟩
  · exact absurd (load_eq_true_iff.2 ⟨p, game, hp, hr⟩) h
  · exact hm

/-- A load moves nothing, but perhaps it puts a game that fits into the machine at the end. -/
theorem load_eq_insert_or_unmoved (w : World) (s : Session) (path : Option Path) :
    (∃ t p game, s.Unmoved t ∧ game.length ≤ gameCapacity ∧ s.load w path = t.insert p game) ∨
      (s.load w path).2 ≠ .ok true ∧ s.Unmoved (s.load w path).1 := by
  rcases s.load_cases w path with ⟨p, game, -, hr, hl⟩ | ⟨hn, hm, -⟩
  · have hasked := (s.unmoved_asked w path).trans (unmoved_log _ [Cartridge.announcement p])
    exact Or.inl ⟨_, p, game, hasked, (Cartridge.read_eq_game_iff.1 hr).2.2, hl⟩
  · exact Or.inr ⟨mt load_eq_true_iff.1 hn, hm⟩

/-- A load never ends in a fault of the machine. It goes through exactly when there is a path and
the file there reads as a game, and otherwise nothing but the log and the dialogs has changed. A
machine that is given a game too large refuses it and stays as it is. -/
theorem load_atomic (w : World) (s : Session) (path : Option Path) :
    (∀ fault, (s.load w path).2 ≠ .error (.fault fault)) ∧
    ((s.load w path).2 = .ok true ↔
      ∃ p game, s.source path = some p ∧ Cartridge.read w.files p = .game game) ∧
    ((s.load w path).2 ≠ .ok true → s.Unmoved (s.load w path).1) ∧
    ∀ (m : Machine) (game : List UInt8), gameCapacity < game.length →
      (m.loadGame game).fault = some (.gameTooLarge game.length) ∧
        (m.loadGame game).machine = m :=
  ⟨load_ne_fault, load_eq_true_iff, load_unmoved, fun _ _ => Machine.loadGame_of_gt⟩

end Session

end Chip8
