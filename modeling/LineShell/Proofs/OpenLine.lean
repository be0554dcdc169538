import LineShell.Proofs.Ledger
import LineShell.Proofs.Places

/-!
History files whose last line is open. A save appends to the file, so its first new entry goes on
where the file ends. A last line that has no newline behind it is safe only if it is blank.
-/

namespace LineShell

namespace Text

/-- The end of a text, behind its last newline. -/
def openLine (s : String) : String :=
  String.ofList (lastLine s.toList)

/-- The lines of a text that have their newlines. -/
def closedLines (s : String) : List String :=
  lines (String.ofList (s.toList.rdropWhile (· ≠ '\n')))

theorem newline_not_mem_openLine (s : String) : '\n' ∉ (openLine s).toList := by
  rw [openLine, String.toList_ofList]
  exact newline_not_mem_rtakeWhile s.toList

/- What is appended to a text goes on in its open line. -/
theorem lines_append (s t : String) :
    lines (s ++ t) = closedLines s ++ lines (openLine s ++ t) := by
  have whole : s.toList.rdropWhile (· ≠ '\n') ++ lastLine s.toList = s.toList :=
    List.rdropWhile_append_rtakeWhile
  have split : splitLines '\n' '\r' (s.toList ++ t.toList) =
      splitLines '\n' '\r' (s.toList.rdropWhile (· ≠ '\n')) ++
        splitLines '\n' '\r' (lastLine s.toList ++ t.toList) := by
    obtain none | ⟨front, ends⟩ := rdropWhile_newline s.toList
    · rw [none, List.nil_append] at whole
      rw [none, whole]
      rfl
    · rw [ends, List.append_assoc, List.singleton_append] at whole
      rw [ends, ← splitLines_behind, ← List.cons_append, ← List.append_assoc, whole]
  simp only [lines, closedLines, openLine, String.toList_append, String.toList_ofList, split,
    List.map_append]

theorem trim_eq_empty_iff (s : String) : trim s = "" ↔ ∀ c ∈ s.toList, isSpace c = true := by
  rw [trim, String.ofList_eq_empty_iff, trimChars_eq, List.rdropWhile_eq_nil_iff]
  constructor
  · intro spaces c member
    rw [← List.takeWhile_append_dropWhile (p := isSpace) (l := s.toList), List.mem_append] at member
    exact member.elim List.mem_takeWhile_imp (spaces c)
  · intro spaces c member
    exact spaces c ((List.dropWhile_sublist isSpace).mem member)

/- Blanks in front of a trimmed line are trimmed off. -/
theorem trim_append_of_blank {blank line : String} (spaces : trim blank = "")
    (trimmed : trim line = line) : trim (blank ++ line) = line := by
  have skip : (blank.toList ++ line.toList).dropWhile isSpace = line.toList.dropWhile isSpace :=
    List.dropWhile_append_of_pos ((trim_eq_empty_iff blank).mp spaces)
  have same : trim (blank ++ line) = trim line := by
    rw [trim, trimChars_eq, String.toList_append, skip, ← trimChars_eq, ← trim]
  rw [same, trimmed]

end Text

namespace History

open Text (openLine closedLines)

variable {σ : Type} {host : Host σ} {path : String}

/- A text without newlines is one line, which counts only if it is not blank. -/
theorem recorded_lines_single {line : String} (plain : '\n' ∉ line.toList) :
    recorded (Text.lines line) = recorded [line] := by
  by_cases empty : line = ""
  · subst empty
    decide
  · have nonempty : line.toList ≠ [] := fun none => empty (String.toList_eq_nil_iff.mp none)
    rw [Text.lines, Text.splitLines_single nonempty plain]
    simp

theorem recorded_lines (content : String) :
    recorded (Text.lines content) =
      recorded (closedLines content) ++ recorded [openLine content] := by
  have cut := Text.lines_append content ""
  rw [String.append_empty, String.append_empty] at cut
  rw [cut, recorded_append, recorded_lines_single (Text.newline_not_mem_openLine content)]

/- The first line that is appended ends the open line, and the others follow. -/
theorem recorded_lines_append (content : String) {first : String} {more : List String}
    (clean : ∀ line ∈ first :: more, Ledger.Recorded line) :
    recorded (Text.lines (content ++ Ledger.text (first :: more))) =
      recorded (closedLines content) ++ Text.trim (openLine content ++ first) :: more := by
  obtain ⟨trimmed, shown, plain⟩ := clean first List.mem_cons_self
  have others : ∀ line ∈ more, Ledger.Recorded line :=
    fun line member => clean line (List.mem_cons_of_mem first member)
  have joined : '\n' ∉ (openLine content ++ first).toList := by
    rw [String.toList_append, List.mem_append]
    exact not_or_intro (Text.newline_not_mem_openLine content) plain
  have solid : Text.trim (openLine content ++ first) ≠ "" := by
    rw [Ne, Text.trim_eq_empty_iff, String.toList_append]
    intro blank
    apply shown
    rw [← trimmed, Text.trim_eq_empty_iff]
    exact fun c member => blank c (List.mem_append_right _ member)
  have unreturned : (openLine content ++ first).toList.getLast? ≠ some '\r' := by
    have last := Text.getLast?_trim first
    have some : first.toList ≠ [] := fun none => shown (String.toList_eq_nil_iff.mp none)
    rw [trimmed] at last
    rwa [String.toList_append, List.getLast?_append_of_ne_nil _ some]
  have lines : Text.lines (openLine content ++ Ledger.text (first :: more)) =
      (openLine content ++ first) :: Text.lines (Ledger.text more) := by
    have text : (openLine content ++ Ledger.text (first :: more)).toList =
        (openLine content ++ first).toList ++ '\n' :: (Ledger.text more).toList := by
      simp [Ledger.text]
    rw [Text.lines, text, Text.splitLines_line joined unreturned, List.map_cons,
      String.ofList_toList, ← Text.lines]
  rw [Text.lines_append, lines, recorded_append, Ledger.lines_text others,
    ← List.singleton_append, recorded_append, recorded_solid solid, Ledger.recorded_eq others]
  rfl

theorem recorded_clean {lines : List String} (plain : ∀ line ∈ lines, '\n' ∉ line.toList) :
    ∀ line ∈ recorded lines, Ledger.Recorded line := by
  intro line member
  rw [recorded, List.mem_filter, List.mem_map] at member
  obtain ⟨⟨source, mem, rfl⟩, shown⟩ := member
  exact ⟨Text.trim_trim source, of_decide_eq_true shown,
    fun newline => plain source mem (Text.mem_trim newline)⟩

theorem Holds.addAll {limit : Nat} {old added : List String} {h : History}
    (holds : Holds limit old added h) (lines : List String) :
    Holds limit old (added ++ recorded lines) (lines.foldl History.add h) := by
  induction lines generalizing added h with
  | nil => simpa [recorded] using holds
  | cons line lines ih =>
    have next := ih (holds.add line)
    rwa [List.append_assoc, ← recorded_append, List.singleton_append] at next

theorem use_addAll (lines : List String) (uses : List Use) (h : History) (world : σ) :
    (lines.map Use.add ++ uses).foldlM (use host path) (h, world) =
      uses.foldlM (use host path) (lines.foldl add h, world) := by
  induction lines generalizing h with
  | nil => rfl
  | cons line lines ih => exact ih (h.add line)

theorem ofFile_toUTF8 (limit : Nat) (text : String) :
    ofFile limit (.ok text.toUTF8) = .ok (ofText limit text) := by
  simp only [ofFile, Text.fromUTF8?_toUTF8]

theorem use_session (limit : Nat) (lines : List String) (h : History) {world : σ} {content : String}
    (stands : host.readFile world path = .ok content.toUTF8) :
    (Use.load limit :: (lines.map Use.add ++ [.save])).foldlM (use host path) (h, world) =
      (lines.foldl add (ofText limit content)).save host path world := by
  have loaded : use host path (h, world) (.load limit) = .ok (ofText limit content, world) := by
    simp only [use, stands, ofFile_toUTF8]
    rfl
  rw [List.foldlM_cons, loaded]
  refine (use_addAll lines [.save] _ world).trans ?_
  rw [List.foldlM_cons]
  exact bind_pure _

theorem holds_ofText (limit : Nat) (text : String) :
    Holds limit (recorded (Text.lines text)) [] (ofText limit text) := by
  rw [ofText_eq]
  exact ⟨rfl, by rw [List.append_nil], by simp [newest]⟩

/- A save puts the lines that are due behind the file. -/
theorem Holds.save {limit : Nat} {old added : List String} {h : History} {world : σ}
    {content : String} {after : History × σ} (holds : Holds limit old added h)
    (files : host.Appends path) (stands : host.readFile world path = .ok content.toUTF8)
    (ok : h.save host path world = .ok after) :
    host.readFile after.2 path = .ok (content ++ Ledger.text (newest limit added)).toUTF8 := by
  obtain ⟨-, wrote⟩ := save_cases ok
  rw [holds.pendingText?] at wrote
  obtain ⟨none, same⟩ | ⟨text, waiting, appended⟩ := wrote
  · have nothing : added = [] := by
      by_contra some
      rw [if_neg some] at none
      cases none
    have due : newest limit added = [] := (newest_eq_nil limit added).mpr nothing
    rw [same, stands, due]
    simp [Ledger.text]
  · split at waiting
    · cases waiting
    cases waiting
    rw [files.grown appended stands]
    simp

/- What a file loads to when lines have been appended to it. -/
theorem entries_append (content : String) {due : List String}
    (clean : ∀ line ∈ due, Ledger.Recorded line) :
    (ofText 0 (content ++ Ledger.text due)).entries =
      if due = [] ∨ Text.trim (openLine content) = "" then (ofText 0 content).entries ++ due
      else
        (ofText 0 content).entries.dropLast ++
          Text.trim (openLine content ++ due.headD "") :: due.tail := by
  simp only [ofText_eq, newest, if_true]
  cases due with
  | nil => simp [Ledger.text]
  | cons first more =>
    have old := recorded_lines content
    rw [recorded_lines_append content clean]
    by_cases blank : Text.trim (openLine content) = ""
    · have trimmed := (clean first List.mem_cons_self).1
      rw [recorded_blank blank, List.append_nil] at old
      rw [if_pos (.inr blank), Text.trim_append_of_blank blank trimmed, old]
    · rw [recorded_solid blank] at old
      rw [if_neg (not_or_intro (List.cons_ne_nil first more) blank), old,
        List.dropLast_append_of_ne_nil (List.cons_ne_nil _ _)]
      simp

end History

open History (Use)

/-- A history that is loaded from a file, takes lines and is saved. The file keeps what it had, with
the lines that are due behind it, and it loads again. If no line is due, or the last line of the
file was empty or blank, the entries of the file are the old ones and then the lines that were due.
Otherwise the last of the old entries goes on in the first new one. -/
theorem history_saved_behind {σ : Type} {host : Host σ} {path : String}
    (files : host.Appends path) {world : σ} {content : String}
    (stands : host.readFile world path = .ok content.toUTF8) (h : History) (limit : Nat)
    {lines : List String} (plain : ∀ line ∈ lines, '\n' ∉ line.toList) {h' : History} {world' : σ}
    (ran : (Use.load limit :: (lines.map Use.add ++ [.save])).foldlM (History.use host path)
      (h, world) = .ok (h', world')) :
    let old := (History.ofText 0 content).entries
    let due := newest limit (History.recorded lines)
    host.readFile world' path = .ok (content ++ Ledger.text due).toUTF8 ∧
      ∃ loaded, History.ofFile 0 (host.readFile world' path) = .ok loaded ∧
        loaded.entries =
          if due = [] ∨ Text.trim (Text.openLine content) = "" then old ++ due
          else
            old.dropLast ++ Text.trim (Text.openLine content ++ due.headD "") :: due.tail := by
  intro old due
  have held := (History.holds_ofText limit content).addAll lines
  rw [List.nil_append] at held
  rw [History.use_session limit lines h stands] at ran
  have file := held.save files stands ran
  have clean : ∀ line ∈ due, Ledger.Recorded line :=
    fun line member => History.recorded_clean plain line ((newest_suffix limit _).mem member)
  refine ⟨file, _, ?_, History.entries_append content clean⟩
  rw [file, History.ofFile_toUTF8]

/-- A machine with a history file. -/
def keptMachine (content : String) : Machine :=
  { sampleMachine with
    tree := ⟨[(["home"], .directory .directory),
      (["home", "log"], .file ⟨.data content.toUTF8, .personal⟩)]⟩ }

theorem locate_keptMachine (content : String) (aim : FileTree.Aim) :
    (keptMachine content).tree.locate aim (keptMachine content).dir "log" =
      .ok (.file ["home", "log"] ⟨.data content.toUTF8, .personal⟩) := by
  have names : Path.ofString "log" = ["log"] := by decide
  have allowed : (keptMachine content).tree.allows (keptMachine content).dir Permissions.canRun =
      true := rfl
  have found : (keptMachine content).tree.find? ((keptMachine content).dir.path ++ ["log"]) =
      some (.file ⟨.data content.toUTF8, .personal⟩) := rfl
  simp [FileTree.locate, FileTree.walkPath, names, FileTree.walk, allowed, found]
  rfl

theorem readFile_keptMachine (content : String) :
    Machine.host.readFile (keptMachine content) "log" = .ok content.toUTF8 := by
  have readable : Permissions.personal.canRead = true := by decide
  simp [Machine.host, FileTree.read, locate_keptMachine, readable, File.bytes]

theorem save_keptMachine (content : String) (h : History) :
    ∃ h' world', h.save Machine.host "log" (keptMachine content) = .ok (h', world') := by
  have writable : Permissions.personal.canWrite = true := by decide
  unfold History.save
  cases h.pendingText? with
  | none => exact ⟨_, _, rfl⟩
  | some text =>
    simp [Machine.host, FileTree.append, locate_keptMachine, writable, Except.map]

/- A blank last line without a newline does no harm. -/
theorem history_saved_behind_blank :
    ∃ h world, [Use.load 1, .add "a", .add " b ", .save].foldlM (History.use Machine.host "log")
        (History.empty 0, keptMachine "old\n\t") = .ok (h, world) ∧
      ∃ loaded, History.ofFile 0 (Machine.host.readFile world "log") = .ok loaded ∧
        loaded.entries = ["old", "b"] := by
  have stands := readFile_keptMachine "old\n\t"
  obtain ⟨h, world, saved⟩ := save_keptMachine "old\n\t"
    (["a", " b "].foldl History.add (History.ofText 1 "old\n\t"))
  have ran := (History.use_session 1 ["a", " b "] (History.empty 0) stands).trans saved
  have plain : ∀ line ∈ ["a", " b "], '\n' ∉ line.toList := by decide
  obtain ⟨-, loaded, file, entries⟩ :=
    history_saved_behind (Machine.host_appends "log") stands _ 1 plain ran
  exact ⟨h, world, ran, loaded, file, entries.trans (by decide)⟩

/- An entry without a newline behind it is joined with the first new one. -/
theorem save_joins_open_line :
    ∃ h world, [Use.load 0, .add "new", .save].foldlM (History.use Machine.host "log")
        (History.empty 0, keptMachine "old") = .ok (h, world) ∧
      (History.ofText 0 "old").entries = ["old"] ∧
      ∃ loaded, History.ofFile 0 (Machine.host.readFile world "log") = .ok loaded ∧
        loaded.entries = ["oldnew"] := by
  have stands := readFile_keptMachine "old"
  obtain ⟨h, world, saved⟩ := save_keptMachine "old"
    (["new"].foldl History.add (History.ofText 0 "old"))
  have ran := (History.use_session 0 ["new"] (History.empty 0) stands).trans saved
  have file := ((History.holds_ofText 0 "old").addAll ["new"]).save (Machine.host_appends "log")
    stands saved
  have loaded := (congrArg (History.ofFile 0) file).trans (History.ofFile_toUTF8 0 _)
  exact ⟨h, world, ran, by decide, _, loaded, by decide⟩

end LineShell
