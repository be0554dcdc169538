import LineShell.Proofs.Appending
import LineShell.Proofs.Lines
import LineShell.Session
import Mathlib.Data.List.DropRight

/-!
History across sessions. A ledger keeps the books that a history and its file are compared with: the
lines that all saves appended, and the lines that wait for the next one.
-/

namespace LineShell

namespace Text

theorem trimChars_eq (cs : List Char) :
    trimChars cs = (cs.dropWhile isSpace).rdropWhile isSpace := rfl

theorem dropWhile_trimChars (cs : List Char) :
    (trimChars cs).dropWhile isSpace = trimChars cs := by
  rw [List.dropWhile_eq_self_iff]
  intro nonempty
  -- The first character is the first one that the front was trimmed to.
  have kept : trimChars cs <+: cs.dropWhile isSpace := List.rdropWhile_prefix _ _
  have first := kept.getElem nonempty
  rw [first]
  exact List.dropWhile_get_zero_not _ _ _

theorem trim_trim (s : String) : trim (trim s) = trim s := by
  have same : trimChars (trimChars s.toList) = trimChars s.toList := by
    rw [trimChars_eq (trimChars _), dropWhile_trimChars, trimChars_eq, List.rdropWhile_idempotent]
  rw [trim, trim, String.toList_ofList, same]

theorem mem_trim {s : String} {c : Char} (member : c ∈ (trim s).toList) : c ∈ s.toList := by
  rw [trim, String.toList_ofList, trimChars_eq] at member
  exact (List.dropWhile_sublist _).mem ((List.rdropWhile_prefix _ _).mem member)

theorem getLast?_trim (s : String) : (trim s).toList.getLast? ≠ some '\r' := by
  rw [trim, String.toList_ofList, trimChars_eq]
  intro last
  have nonempty : (s.toList.dropWhile isSpace).rdropWhile isSpace ≠ [] := by
    intro empty
    simp [empty] at last
  have solid := List.rdropWhile_last_not isSpace _ nonempty
  rw [List.getLast?_eq_some_getLast nonempty, Option.some.injEq] at last
  rw [last] at solid
  exact solid (by decide)

end Text

namespace History

variable {σ : Type}

/-- Appends the new entries to a file; without any the file is not touched. -/
def save (host : Host σ) (path : String) (h : History) (world : σ) :
    Except IoError (History × σ) :=
  match h.pendingText? with
  | none => .ok (h.markSaved, world)
  | some text => (host.appendFile world path text).map fun world => (h.markSaved, world)

/-- What can be done with a history that is kept in a file. A load starts a new session. -/
inductive Use where
  | load (limit : Nat)
  | add (line : String)
  | up
  | down
  | toEnd
  | save

def use (host : Host σ) (path : String) :
    History × σ → Use → Except IoError (History × σ)
  | (_, world), .load limit => (ofFile limit (host.readFile world path)).map fun h => (h, world)
  | (h, world), .add line => .ok (h.add line, world)
  | (h, world), .up => .ok (h.up, world)
  | (h, world), .down => .ok (h.down, world)
  | (h, world), .toEnd => .ok (h.toEnd, world)
  | (h, world), .save => h.save host path world

theorem load_inv {host : Host σ} {path : String} {limit : Nat} {h : History} {world : σ}
    {after : History × σ} (ok : use host path (h, world) (.load limit) = .ok after) :
    ofFile limit (host.readFile world path) = .ok after.1 ∧ after.2 = world := by
  cases loaded : ofFile limit (host.readFile world path) with
  | error e =>
    simp only [use, loaded] at ok
    cases ok
  | ok h' =>
    simp only [use, loaded] at ok
    cases ok
    exact ⟨rfl, rfl⟩

theorem save_cases {host : Host σ} {path : String} {h : History} {world : σ}
    {after : History × σ} (ok : h.save host path world = .ok after) :
    after.1 = h.markSaved ∧
      (h.pendingText? = none ∧ after.2 = world ∨
        ∃ text, h.pendingText? = some text ∧ host.appendFile world path text = .ok after.2) := by
  unfold save at ok
  cases waiting : h.pendingText? with
  | none =>
    rw [waiting] at ok
    cases ok
    exact ⟨rfl, .inl ⟨rfl, rfl⟩⟩
  | some text =>
    rw [waiting] at ok
    cases appended : host.appendFile world path text with
    | error e =>
      simp only [appended] at ok
      cases ok
    | ok world' =>
      simp only [appended] at ok
      cases ok
      exact ⟨rfl, .inr ⟨text, rfl, appended⟩⟩

/- An interactive session begins with such a load and ends with such a save. -/
theorem loadHistory_of_use {host : Host σ} {path : String} {limit : Nat} {s : Shell σ}
    {h : History} {after : History × σ}
    (ok : use host path (h, s.world) (.load limit) = .ok after) :
    s.loadHistory host limit (some path) = (after.1, s) := by
  simp only [Shell.loadHistory, (load_inv ok).1]

theorem saveHistory_of_use {host : Host σ} {path : String} {s : Shell σ} {h : History}
    {after : History × σ} (ok : use host path (h, s.world) .save = .ok after) :
    s.saveHistory host h (some path) = { s with world := after.2 } := by
  obtain ⟨-, ⟨none, same⟩ | ⟨text, waiting, appended⟩⟩ := save_cases ok
  · simp only [Shell.saveHistory, none, same]
  · simp only [Shell.saveHistory, waiting, appended]

end History

open History (Use)

/-- The newest lines within a limit; a limit of zero is none. -/
def newest (limit : Nat) (lines : List String) : List String :=
  if limit = 0 then lines else lines.rtake limit

theorem cut_eq_newest (limit : Nat) (lines : List String) :
    History.cut limit lines = newest limit lines := rfl

theorem length_newest (limit : Nat) (lines : List String) :
    (newest limit lines).length = if limit = 0 then lines.length else min limit lines.length := by
  unfold newest
  split
  · rfl
  · rw [List.rtake, List.length_drop]
    omega

theorem newest_eq_nil (limit : Nat) (lines : List String) :
    newest limit lines = [] ↔ lines = [] := by
  rw [← List.length_eq_zero_iff, length_newest, ← List.length_eq_zero_iff]
  split
  · rfl
  · omega

theorem newest_append_left (limit : Nat) (xs ys : List String) :
    newest limit (newest limit xs ++ ys) = newest limit (xs ++ ys) := by
  unfold newest
  split
  · rfl
  · simp only [List.rtake_eq_reverse_take_reverse, List.reverse_append, List.reverse_reverse,
      List.take_append, List.take_take]
    rw [Nat.min_eq_left (Nat.sub_le limit _)]

theorem newest_append_right (limit : Nat) (xs ys : List String) :
    newest limit (xs ++ newest limit ys) = newest limit (xs ++ ys) := by
  unfold newest
  split
  · rfl
  · simp only [List.rtake_eq_reverse_take_reverse, List.reverse_append, List.reverse_reverse,
      List.take_append, List.take_take, List.length_take, List.length_reverse, Nat.min_self]
    rw [show limit - min limit ys.length = limit - ys.length by omega]

theorem newest_suffix (limit : Nat) (lines : List String) : newest limit lines <:+ lines := by
  unfold newest
  split
  · exact List.suffix_rfl
  · exact List.drop_suffix _ _

theorem newest_suffix_append (limit : Nat) (xs ys : List String) :
    newest limit ys <:+ newest limit (xs ++ ys) := by
  refine List.suffix_of_suffix_length_le ((newest_suffix limit ys).trans (List.suffix_append xs ys))
    (newest_suffix limit (xs ++ ys)) ?_
  rw [length_newest, length_newest, List.length_append]
  split <;> omega

/-- The text of a file: each line with a newline behind it. -/
def Ledger.text (lines : List String) : String :=
  String.join (lines.map (· ++ "\n"))

namespace History

/-- The lines that are recorded of those that come in: trimmed, and only if they are not blank. -/
def recorded (lines : List String) : List String :=
  (lines.map Text.trim).filter (· ≠ "")

theorem recorded_append (xs ys : List String) :
    recorded (xs ++ ys) = recorded xs ++ recorded ys := by
  simp [recorded]

theorem recorded_blank {line : String} (blank : Text.trim line = "") : recorded [line] = [] := by
  simp [recorded, blank]

theorem recorded_solid {line : String} (solid : Text.trim line ≠ "") :
    recorded [line] = [Text.trim line] := by
  simp [recorded, solid]

/- Loading pushes the lines one by one and cuts after each; only the last cut shows. -/
theorem ofText_eq (limit : Nat) (text : String) :
    ofText limit text = ⟨newest limit (recorded (Text.lines text)), 0, limit, 0⟩ := by
  have pushed : ∀ ys xs : List String,
      ys.foldl (fun h line => (h.push? line).getD h) ⟨newest limit xs, 0, limit, 0⟩ =
        (⟨newest limit (xs ++ recorded ys), 0, limit, 0⟩ : History) := by
    intro ys
    induction ys with
    | nil =>
      intro xs
      rw [recorded, List.map_nil, List.filter_nil, List.append_nil]
      rfl
    | cons line ys ih =>
      intro xs
      have step : ((⟨newest limit xs, 0, limit, 0⟩ : History).push? line).getD
          ⟨newest limit xs, 0, limit, 0⟩ = ⟨newest limit (xs ++ recorded [line]), 0, limit, 0⟩ := by
        by_cases blank : Text.trim line = ""
        · simp [push?, blank, recorded]
        · simp only [push?, if_neg blank, cut_eq_newest, newest_append_left, recorded_solid blank,
            Nat.zero_min, Option.getD_some]
      rw [List.foldl_cons, step, ih, List.append_assoc, ← recorded_append, List.singleton_append]
  have start : empty limit = ⟨newest limit [], 0, limit, 0⟩ := by simp [empty, newest]
  rw [ofText, start, pushed, List.nil_append]

/-- A history that had the lines `old` when it was loaded or saved last, and since then `added`. -/
structure Holds (limit : Nat) (old added : List String) (h : History) : Prop where
  limited : h.limit = limit
  entries : h.entries = newest limit (old ++ added)
  unsaved : h.unsaved = (newest limit added).length

namespace Holds

variable {limit : Nat} {old added : List String} {h : History}

/- Browsing moves the place and nothing else. -/
theorem browse (holds : Holds limit old added h) (place : Nat) :
    Holds limit old added { h with place := place } :=
  ⟨holds.limited, holds.entries, holds.unsaved⟩

theorem add (holds : Holds limit old added h) (line : String) :
    Holds limit old (added ++ recorded [line]) (h.add line) := by
  simp only [History.add, push?]
  by_cases blank : Text.trim line = ""
  · rw [if_pos blank, recorded_blank blank, List.append_nil]
    exact holds.browse _
  rw [if_neg blank, recorded_solid blank]
  have entries : cut h.limit (h.entries ++ [Text.trim line]) =
      newest limit (old ++ (added ++ [Text.trim line])) := by
    rw [holds.limited, holds.entries, cut_eq_newest, newest_append_left, List.append_assoc]
  refine ⟨holds.limited, entries, ?_⟩
  -- The count cannot pass the number of entries, and neither can the lines that are due.
  change min (h.unsaved + 1) (cut h.limit (h.entries ++ [Text.trim line])).length =
    (newest limit (added ++ [Text.trim line])).length
  rw [entries, holds.unsaved]
  simp only [length_newest, List.length_append, List.length_singleton]
  split <;> omega

theorem markSaved (holds : Holds limit old added h) :
    Holds limit (old ++ added) [] h.markSaved := by
  refine ⟨holds.limited, ?_, ?_⟩
  · rw [List.append_nil]
    exact holds.entries
  · simp [History.markSaved, newest]

theorem unsavedLines (holds : Holds limit old added h) :
    h.unsavedLines = newest limit added := by
  have behind := List.suffix_iff_eq_drop.mp (newest_suffix_append limit old added)
  rw [History.unsavedLines, holds.entries, holds.unsaved]
  exact behind.symm

theorem pendingText? (holds : Holds limit old added h) :
    h.pendingText? = if added = [] then none else some (Ledger.text (newest limit added)) := by
  have count : h.unsaved = 0 ↔ added = [] := by
    rw [holds.unsaved, List.length_eq_zero_iff, newest_eq_nil]
  simp only [History.pendingText?, holds.unsavedLines, count]
  rfl

end Holds

end History

/-- `saved` is what all saves appended, `added` what was recorded since the last save of the session
or since its load. -/
structure Ledger where
  limit : Nat
  saved : List String
  added : List String

namespace Ledger

variable {σ : Type}

def empty : Ledger := ⟨0, [], []⟩

/-- The lines that the next save appends. -/
def due (l : Ledger) : List String :=
  newest l.limit l.added

def next (l : Ledger) : Use → Ledger
  | .load limit => { l with limit := limit, added := [] }
  | .add line =>
    if Text.trim line = "" then l else { l with added := l.added ++ [Text.trim line] }
  | .save => { l with saved := l.saved ++ l.due, added := [] }
  | .up | .down | .toEnd => l

/-- What reading the file gives: it is missing as long as nothing was saved. -/
def file (l : Ledger) : Except IoError ByteArray :=
  if l.saved = [] then .error .notFound else .ok (text l.saved).toUTF8

/-- A line as it is recorded: trimmed, not blank and without newlines. -/
def Recorded (line : String) : Prop :=
  Text.trim line = line ∧ line ≠ "" ∧ '\n' ∉ line.toList

theorem lines_text {lines : List String} (recorded : ∀ line ∈ lines, Recorded line) :
    Text.lines (text lines) = lines := by
  have split : Text.splitLines '\n' '\r' (text lines).toList = lines.map String.toList := by
    induction lines with
    | nil => rfl
    | cons line rest ih =>
      obtain ⟨trimmed, -, plain⟩ := recorded line List.mem_cons_self
      have solid := Text.getLast?_trim line
      rw [trimmed] at solid
      have tail := ih fun l member => recorded l (List.mem_cons_of_mem line member)
      have first : (text (line :: rest)).toList = line.toList ++ '\n' :: (text rest).toList := by
        simp [text]
      rw [first, Text.splitLines_line plain solid, tail]
      rfl
  rw [Text.lines, split, List.map_map]
  simp

theorem text_append (xs ys : List String) : text (xs ++ ys) = text xs ++ text ys := by
  simp [text]

theorem recorded_eq {lines : List String} (all : ∀ line ∈ lines, Recorded line) :
    History.recorded lines = lines := by
  have trimmed : lines.map Text.trim = lines :=
    (List.map_congr_left fun line member => (all line member).1).trans (List.map_id lines)
  rw [History.recorded, trimmed, List.filter_eq_self]
  intro line member
  exact decide_eq_true (all line member).2.1

theorem ofText_text (limit : Nat) {lines : List String}
    (recorded : ∀ line ∈ lines, Recorded line) :
    History.ofText limit (text lines) = ⟨newest limit lines, 0, limit, 0⟩ := by
  rw [History.ofText_eq, lines_text recorded, recorded_eq recorded]

theorem ofFile_file (limit : Nat) {l : Ledger} (recorded : ∀ line ∈ l.saved, Recorded line) :
    History.ofFile limit l.file = .ok ⟨newest limit l.saved, 0, limit, 0⟩ := by
  unfold file
  split
  · rename_i none
    simp [History.ofFile, History.empty, none, newest]
  · simp only [History.ofFile, Text.fromUTF8?_toUTF8, ofText_text limit recorded]

/-- The books are right: the history shows the newest of all lines, knows how many of them a save
appends, and the file holds what was saved. -/
structure Agrees (l : Ledger) (host : Host σ) (path : String) (h : History) (world : σ) : Prop where
  limit : h.limit = l.limit
  entries : h.entries = newest l.limit (l.saved ++ l.added)
  unsaved : h.unsaved = l.due.length
  recorded : ∀ line ∈ l.saved ++ l.added, Recorded line
  file : host.readFile world path = l.file

variable {host : Host σ} {path : String} {l : Ledger} {h : History} {world : σ}

theorem due_eq_nil : l.due = [] ↔ l.added = [] :=
  newest_eq_nil l.limit l.added

theorem Agrees.holds (agrees : l.Agrees host path h world) :
    History.Holds l.limit l.saved l.added h :=
  ⟨agrees.limit, agrees.entries, agrees.unsaved⟩

theorem Agrees.pendingText? (agrees : l.Agrees host path h world) :
    h.pendingText? = if l.added = [] then none else some (text l.due) :=
  agrees.holds.pendingText?

/- Browsing moves the place and nothing else. -/
theorem Agrees.browse (agrees : l.Agrees host path h world) (place : Nat) :
    l.Agrees host path { h with place := place } world :=
  ⟨agrees.limit, agrees.entries, agrees.unsaved, agrees.recorded, agrees.file⟩

theorem Agrees.add (agrees : l.Agrees host path h world) {line : String}
    (plain : '\n' ∉ line.toList) : (l.next (.add line)).Agrees host path (h.add line) world := by
  have held := agrees.holds.add line
  simp only [next]
  by_cases blank : Text.trim line = ""
  · rw [if_pos blank]
    rw [History.recorded_blank blank, List.append_nil] at held
    exact ⟨held.limited, held.entries, held.unsaved, agrees.recorded, agrees.file⟩
  rw [if_neg blank]
  rw [History.recorded_solid blank] at held
  have kept : Recorded (Text.trim line) :=
    ⟨Text.trim_trim line, blank, fun member => plain (Text.mem_trim member)⟩
  refine ⟨held.limited, held.entries, held.unsaved, ?_, agrees.file⟩
  intro other member
  rw [← List.append_assoc, List.mem_append, List.mem_singleton] at member
  obtain old | rfl := member
  · exact agrees.recorded other old
  · exact kept

theorem Agrees.load (agrees : l.Agrees host path h world) {limit : Nat} {h' : History}
    (ok : History.ofFile limit (host.readFile world path) = .ok h') :
    (l.next (.load limit)).Agrees host path h' world := by
  have saved : ∀ line ∈ l.saved, Recorded line :=
    fun line member => agrees.recorded line (List.mem_append_left _ member)
  rw [agrees.file, ofFile_file limit saved] at ok
  cases ok
  refine ⟨rfl, ?_, ?_, ?_, agrees.file⟩
  · simp [next]
  · simp [next, due, newest]
  · simpa [next] using saved

/- Everything that a save can do. -/
theorem Agrees.save_cases (files : host.Appends path) (agrees : l.Agrees host path h world)
    {after : History × σ} (ok : h.save host path world = .ok after) :
    after.1 = h.markSaved ∧
      (l.added = [] ∧ after.2 = world ∨
        l.added ≠ [] ∧ host.readFile after.2 path =
          .ok ((text l.saved).toUTF8 ++ (text l.due).toUTF8)) := by
  obtain ⟨marked, wrote⟩ := History.save_cases ok
  refine ⟨marked, ?_⟩
  rw [agrees.pendingText?] at wrote
  obtain ⟨none, same⟩ | ⟨lines, waiting, appended⟩ := wrote
  · by_cases nothing : l.added = []
    · exact .inl ⟨nothing, same⟩
    · rw [if_neg nothing] at none
      cases none
  · by_cases nothing : l.added = []
    · rw [if_pos nothing] at waiting
      cases waiting
    rw [if_neg nothing, Option.some.injEq] at waiting
    subst waiting
    refine .inr ⟨nothing, ?_⟩
    have before := agrees.file
    unfold Ledger.file at before
    split at before
    · rename_i unsaved
      rw [files.created appended before, unsaved]
      simp [text]
    · exact files.grown appended before

theorem Agrees.save (files : host.Appends path) (agrees : l.Agrees host path h world)
    {after : History × σ} (ok : h.save host path world = .ok after) :
    (l.next .save).Agrees host path after.1 after.2 := by
  obtain ⟨marked, wrote⟩ := agrees.save_cases files ok
  rw [marked]
  refine ⟨agrees.limit, ?_, ?_, ?_, ?_⟩
  · change h.entries = newest l.limit (l.saved ++ l.due ++ [])
    rw [agrees.entries, List.append_nil, due, newest_append_right]
  · simp [History.markSaved, next, due, newest]
  · intro line member
    change line ∈ l.saved ++ l.due ++ [] at member
    rw [List.append_nil, List.mem_append] at member
    have part := (newest_suffix l.limit l.added).subset
    exact agrees.recorded line (List.mem_append.mpr (member.imp_right fun waits => part waits))
  · obtain ⟨none, same⟩ | ⟨some, grown⟩ := wrote
    · rw [same, agrees.file]
      simp [Ledger.file, next, due_eq_nil.mpr none]
    · rw [grown]
      simp [Ledger.file, next, due_eq_nil, some, text_append]

theorem Agrees.step (files : host.Appends path) (agrees : l.Agrees host path h world) {u : Use}
    (plain : ∀ line, u = .add line → '\n' ∉ line.toList) {after : History × σ}
    (ok : History.use host path (h, world) u = .ok after) :
    (l.next u).Agrees host path after.1 after.2 := by
  cases u with
  | load limit =>
    obtain ⟨loaded, same⟩ := History.load_inv ok
    rw [same]
    exact agrees.load loaded
  | add line =>
    have added := agrees.add (plain line rfl)
    simp only [History.use, Except.ok.injEq] at ok
    subst ok
    simpa only using added
  | up =>
    cases ok
    exact agrees.browse _
  | down =>
    cases ok
    simp only [next, History.down]
    split
    · exact agrees.browse _
    · exact agrees
  | toEnd =>
    cases ok
    exact agrees.browse _
  | save => exact agrees.save files ok

theorem Agrees.run (files : host.Appends path) (agrees : l.Agrees host path h world)
    {uses : List Use} (plain : ∀ line, .add line ∈ uses → '\n' ∉ line.toList)
    {after : History × σ} (ok : uses.foldlM (History.use host path) (h, world) = .ok after) :
    (uses.foldl next l).Agrees host path after.1 after.2 := by
  induction uses generalizing l h world with
  | nil =>
    cases ok
    exact agrees
  | cons u uses ih =>
    rw [List.foldlM_cons] at ok
    cases first : History.use host path (h, world) u with
    | error e =>
      rw [first] at ok
      cases ok
    | ok middle =>
      rw [first] at ok
      have one := agrees.step files (fun line same => plain line (same ▸ List.mem_cons_self)) first
      exact ih one (fun line member => plain line (List.mem_cons_of_mem u member)) ok

theorem text_terminated {lines : List String} (some : lines ≠ []) :
    ∃ body, text lines = body ++ "\n" := by
  refine ⟨text lines.dropLast ++ lines.getLast some, ?_⟩
  have last : text [lines.getLast some] = lines.getLast some ++ "\n" := by simp [text]
  rw [String.append_assoc, ← last, ← text_append, List.dropLast_append_getLast]

end Ledger

/-- A history that is kept in a file over any number of sessions, each of them begun by a load. The
file holds what the saves appended, a line for each entry, and ends with a newline. A save appends
the recorded lines since the last one, the newest within the limit of the session, and nothing if
there are none. Whatever limit the file is loaded with, the newest of the saved lines come back. -/
theorem history_survives_sessions {σ : Type} {host : Host σ} {path : String}
    (files : host.Appends path) {world : σ} (missing : host.readFile world path = .error .notFound)
    (h : History) (limit : Nat) {uses : List Use}
    (plain : ∀ line, .add line ∈ uses → '\n' ∉ line.toList) {h' : History} {world' : σ}
    (ran : (Use.load limit :: uses).foldlM (History.use host path) (h, world) = .ok (h', world')) :
    let l := (Use.load limit :: uses).foldl Ledger.next Ledger.empty
    host.readFile world' path = l.file ∧
      (∀ bytes, host.readFile world' path = .ok bytes →
        ∃ body : String, bytes = (body ++ "\n").toUTF8) ∧
      (∀ h'' world'', h'.save host path world' = .ok (h'', world'') →
        if l.added = [] then world'' = world'
        else host.readFile world'' path =
          .ok ((Ledger.text l.saved).toUTF8 ++ (Ledger.text l.due).toUTF8)) ∧
      ∀ m, ∃ loaded, History.ofFile m (host.readFile world' path) = .ok loaded ∧
        loaded.entries = newest m l.saved := by
  intro l
  have start : (Ledger.empty.next (.load limit)).Agrees host path (History.empty limit) world := by
    refine ⟨rfl, ?_, ?_, ?_, missing⟩
    · simp [Ledger.empty, Ledger.next, History.empty, newest]
    · simp [Ledger.empty, Ledger.next, Ledger.due, History.empty, newest]
    · simp [Ledger.empty, Ledger.next]
  simp only [List.foldlM_cons, History.use, missing, History.ofFile] at ran
  have agrees : l.Agrees host path h' world' := start.run files plain ran
  have saved : ∀ line ∈ l.saved, Ledger.Recorded line :=
    fun line member => agrees.recorded line (List.mem_append_left _ member)
  refine ⟨agrees.file, ?_, ?_, ?_⟩
  · intro bytes read
    rw [agrees.file, Ledger.file] at read
    split at read
    · cases read
    · rename_i some
      obtain ⟨body, terminated⟩ := Ledger.text_terminated some
      rw [terminated, Except.ok.injEq] at read
      exact ⟨body, read.symm⟩
  · intro h'' world'' ok
    obtain ⟨-, ⟨none, same⟩ | ⟨some, grown⟩⟩ := agrees.save_cases files ok
    · rw [if_pos none]
      exact same
    · rw [if_neg some]
      exact grown
  · intro m
    exact ⟨_, by rw [agrees.file, Ledger.ofFile_file m saved], rfl⟩

def sampleMachine : Machine where
  tree := ⟨[(["home"], .directory .directory)]⟩
  dir := ⟨["home"], 0⟩
  transcript := []
  limit := ⟨none, false⟩
  hostName := ""
  home := ""

theorem locate_sampleMachine (aim : FileTree.Aim) :
    sampleMachine.tree.locate aim sampleMachine.dir "log" = .ok (.vacant ["home", "log"]) := by
  have names : Path.ofString "log" = ["log"] := by decide
  have allowed : sampleMachine.tree.allows sampleMachine.dir Permissions.canRun = true := by decide
  have free : sampleMachine.tree.find? (sampleMachine.dir.path ++ ["log"]) = none := rfl
  simp [FileTree.locate, FileTree.walkPath, names, FileTree.walk, allowed, free]
  rfl

theorem history_survives_sessions_sample :
    ∃ h world, [Use.load 1, .add "a", .add " b ", .up, .save, .load 0, .add "c"].foldlM
        (History.use Machine.host "log") (History.empty 0, sampleMachine) = .ok (h, world) ∧
      Machine.host.readFile world "log" = .ok "b\n".toUTF8 := by
  have missing : Machine.host.readFile sampleMachine "log" = .error .notFound := by
    simp [Machine.host, FileTree.read, locate_sampleMachine]
  obtain ⟨world, saved⟩ :
      ∃ world, Machine.host.appendFile sampleMachine "log" "b\n" = .ok world := by
    have allowed : sampleMachine.tree.allows ⟨["home"], 0⟩ Permissions.canWrite = true := by decide
    simp [Machine.host, FileTree.append, locate_sampleMachine, allowed, Except.map]
  have kept := (Machine.host_appends "log").created saved missing
  have ran : [Use.load 1, .add "a", .add " b ", .up, .save, .load 0, .add "c"].foldlM
      (History.use Machine.host "log") (History.empty 0, sampleMachine) =
        .ok (⟨["b", "c"], 2, 0, 1⟩, world) := by
    have pending : (((History.empty 1).add "a").add " b ").up.pendingText? = some "b\n" := by decide
    have loaded : History.ofText 0 "b\n" = ⟨["b"], 0, 0, 0⟩ := by decide
    have added : (⟨["b"], 0, 0, 0⟩ : History).add "c" = ⟨["b", "c"], 2, 0, 1⟩ := by decide
    simp only [List.foldlM_cons, List.foldlM_nil, History.use, missing, History.ofFile, Except.map,
      bind, Except.bind, History.save, pending, saved, kept, Text.fromUTF8?_toUTF8, loaded, added]
    rfl
  refine ⟨_, _, ran, ?_⟩
  have plain : ∀ line, Use.add line ∈ [Use.add "a", .add " b ", .up, .save, .load 0, .add "c"] →
      '\n' ∉ line.toList := by
    simp
  rw [(history_survives_sessions (Machine.host_appends "log") missing _ 1 plain ran).1]
  rfl

end LineShell
