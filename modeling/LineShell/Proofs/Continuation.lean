import LineShell.Proofs.Editing
import LineShell.Proofs.Joining

/-!
Rows joined by semicolons. In the joined text each row is read as it is read alone, so the input has
the statements of its rows in order. A comment is different: it runs to the end of the joined text,
and the rows behind it are part of it.
-/

namespace LineShell

open Grammar Token

/-- Whether the text behind the last token of a row is a comment. -/
def endsInComment (row : String) : Bool :=
  ((scan Editor.inputName row).map Segment.gap).getLast?.any fun gap => gap.toList.contains '#'

/-- How many of the rows are read: a comment in one of them hides those behind it. -/
def heard (rows : List String) : Nat :=
  (rows.takeWhile fun row => !endsInComment row).length + 1

/- A gap at the end is blank, or a comment that goes on over whatever follows in its line. -/
theorem Gap.blank_or_open {gap : List Char} (h : Gap gap []) :
    ('#' ∉ gap ∧ ∀ c ∈ gap, isBlank c = true) ∨
      '#' ∈ gap ∧ ∀ more, '\n' ∉ more → Gap (gap ++ more) [] := by
  cases h with
  | blanks blanks =>
    refine .inl ⟨?_, blanks⟩
    intro hash
    cases blanks '#' hash
  | @comment bs text _ blanks line _ =>
    refine .inr ⟨by simp, ?_⟩
    intro more same
    have longer := @Gap.comment bs (text ++ more) [] blanks (by simp [line, same]) (by simp)
    simpa using longer

theorem Gap.cons_blank {gap rest : List Char} {b : Char} (blank : isBlank b = true)
    (h : Gap gap rest) : Gap (b :: gap) rest := by
  cases h with
  | blanks blanks => exact .blanks (by simpa [blank] using blanks)
  | @comment bs text _ blanks line stops =>
    exact @Gap.comment (b :: bs) text rest (by simpa [blank] using blanks) line stops

/- A blank in front of a source belongs to its first gap. -/
theorem Token.Scans.blank {path : String} {before a : List Char} {segments : List Segment} {b : Char}
    (blank : isBlank b = true) (h : Scans path (before ++ [b]) a segments) :
    ∃ segments', Scans path before (b :: a) segments' ∧
      segments'.map Segment.token = segments.map Segment.token := by
  generalize start : before ++ [b] = behind at h
  cases h with
  | @finish _ gap shape =>
    subst start
    exact ⟨_, .finish (shape.cons_blank blank), by simp⟩
  | @token _ gap cs c segments shape visible plain more =>
    subst start
    have wider := @Scans.token path before (b :: gap) cs c segments (shape.cons_blank blank)
      visible plain (by simpa using more)
    exact ⟨_, wider, by simp⟩

theorem Token.Yields.blank {path : String} {before a : List Char} {segments : List Segment}
    {xs : List Statement} {b : Char} (blank : isBlank b = true)
    (h : Yields path (before ++ [b]) a segments xs) :
    ∃ segments', Yields path before (b :: a) segments' xs := by
  obtain ⟨segments', scans, same⟩ := h.scans.blank blank
  refine ⟨segments', scans, ?_, fun zs => by rw [same, h.read]⟩
  intro s member
  have token : s.token ∈ segments.map Segment.token := same ▸ List.mem_map_of_mem member
  obtain ⟨s', there, eq⟩ := List.mem_map.mp token
  exact eq ▸ h.sound s' there

/-- Behind a semicolon scanning starts anew, unless a comment is open. -/
theorem Token.Scans.semicolon {path : String} {before a : List Char} {segments : List Segment}
    (h : Scans path before a segments) (sound : ∀ s ∈ segments, s.token.IsSound)
    (more : List Char) :
    ∃ body gap, segments = body ++ [⟨String.ofList gap, ending path (before ++ a)⟩] ∧
      ('#' ∉ gap ∧ (∀ tail, Scans path (before ++ a ++ [';']) more tail →
          Scans path before (a ++ ';' :: more)
            (body ++ ⟨String.ofList gap, starting path (before ++ a) ';' more⟩ :: tail)) ∨
        '#' ∈ gap ∧ ('\n' ∉ more → Scans path before (a ++ ';' :: more)
          (body ++ [⟨String.ofList (gap ++ ';' :: more),
            ending path (before ++ (a ++ ';' :: more))⟩]))) := by
  obtain ⟨front, gap, body, whole, shape, segs, go⟩ := h.resume sound (d := ';') rfl more
  refine ⟨body, gap, segs, ?_⟩
  rcases shape.blank_or_open with ⟨plain, blanks⟩ | ⟨hash, opened⟩
  · refine .inl ⟨plain, ?_⟩
    intro tail behind
    have place : before ++ front ++ gap = before ++ a := by simp [whole]
    have last := @Scans.token path (before ++ front) gap more ';' tail (.blanks blanks) rfl
      (by decide) (by rw [place]; exact behind)
    rw [place] at last
    exact go _ last
  · refine .inr ⟨hash, ?_⟩
    intro line
    have last := @Scans.finish path (before ++ front) (gap ++ ';' :: more)
      (opened _ (by simpa using line))
    have place : before ++ front ++ (gap ++ ';' :: more) = before ++ (a ++ ';' :: more) := by
      simp [whole]
    rw [place] at last
    exact go _ last

theorem mem_joined {rows : List String} {c : Char}
    (member : c ∈ [';', ' '].intercalate (rows.map String.toList)) :
    (c = ';' ∨ c = ' ') ∨ ∃ row ∈ rows, c ∈ row.toList := by
  induction rows with
  | nil => simp at member
  | cons row rows ih =>
    cases rows with
    | nil => exact .inr ⟨row, List.mem_cons_self, by simpa using member⟩
    | cons next rows =>
      rw [List.map_cons, List.map_cons, List.intercalate_cons_cons] at member
      rcases List.mem_append.mp member with member | member
      · rcases List.mem_append.mp member with member | member
        · exact .inr ⟨row, List.mem_cons_self, member⟩
        · exact .inl (by simpa using member)
      · rcases ih member with separator | ⟨r, there, member⟩
        · exact .inl separator
        · exact .inr ⟨r, List.mem_cons_of_mem row there, member⟩

theorem endsInComment_eq {row : String} {body : List Segment} {gap : List Char} {t : Token}
    (gaps : (body ++ [(⟨String.ofList gap, t⟩ : Segment)]).map Segment.gap =
      (scan Editor.inputName row).map Segment.gap) :
    endsInComment row = gap.contains '#' := by
  rw [endsInComment, ← gaps]
  simp

/-- The rows that are heard scan and parse as they do alone. -/
theorem yields_joined {rows : List String} {xss : List (List Statement)} (nonempty : rows ≠ [])
    (parsed : rows.map (Statement.parse Editor.inputName) = xss.map .ok)
    (inside : ∀ row ∈ rows, '\n' ∉ row.toList) (path : String) (before : List Char) :
    ∃ segments xs,
      Yields path before ([';', ' '].intercalate (rows.map String.toList)) segments xs ∧
      xs.map Statement.unplaced = (xss.take (heard rows)).flatten.map Statement.unplaced := by
  induction rows generalizing xss before with
  | nil => exact absurd rfl nonempty
  | cons row rows ih =>
    obtain ⟨ys, yss, rfl, own, others⟩ := List.map_eq_cons_iff.mp parsed.symm
    have own := own.symm
    rw [← String.ofList_toList (s := row)] at own
    obtain ⟨segments, xs, run, sound, gaps, alike, program⟩ := scans_of_parse own path before
    cases rows with
    | nil =>
      obtain ⟨body, gap, rfl⟩ := run.split
      have first : ∀ s ∈ body, s.token.IsSound := fun s member => sound s (by simp [member])
      refine ⟨_, xs, by simpa using Yields.last run first (program body gap rfl), ?_⟩
      have none : yss = [] := by simpa using others
      rw [none, alike]
      simp [heard]
    | cons next rows =>
      have line : '\n' ∉ [';', ' '].intercalate ((next :: rows).map String.toList) := by
        intro member
        obtain ⟨r, there, member⟩ := (mem_joined member).resolve_left (by decide)
        exact inside r (List.mem_cons_of_mem row there) member
      have text : [';', ' '].intercalate ((row :: next :: rows).map String.toList) =
          row.toList ++ ';' :: ' ' :: [';', ' '].intercalate ((next :: rows).map String.toList) := by
        simp
      rw [text]
      obtain ⟨body, gap, rfl, cases⟩ := run.semicolon sound
        (' ' :: [';', ' '].intercalate ((next :: rows).map String.toList))
      have first : ∀ s ∈ body, s.token.IsSound := fun s member => sound s (by simp [member])
      have read := program body _ rfl
      rw [String.ofList_toList] at gaps
      have comment := endsInComment_eq gaps
      rcases cases with ⟨plain, go⟩ | ⟨hash, go⟩
      · -- The next row is read behind the semicolon and a blank.
        obtain ⟨tail, xs', later, alike'⟩ := ih (List.cons_ne_nil _ _) others.symm
          (fun r member => inside r (List.mem_cons_of_mem row member))
          (before ++ row.toList ++ [';'] ++ [' '])
        obtain ⟨tail', behind⟩ := later.blank (by decide)
        refine ⟨_, xs ++ xs', .separated (go tail' behind.scans) rfl first read behind, ?_⟩
        have further : heard (row :: next :: rows) = heard (next :: rows) + 1 := by
          simp [heard, comment, plain]
        rw [further, List.take_succ_cons, List.flatten_cons, List.map_append, List.map_append,
          alike, alike']
      · -- The comment takes in all rows behind this one.
        refine ⟨_, xs, .last (go (by simpa using line)) first read, ?_⟩
        have only : heard (row :: next :: rows) = 1 := by
          simp [heard, comment, hash]
        rw [only, alike]
        simp

theorem parse_joined {rows : List String} {xss : List (List Statement)} (nonempty : rows ≠ [])
    (parsed : rows.map (Statement.parse Editor.inputName) = xss.map .ok)
    (inside : ∀ row ∈ rows, '\n' ∉ row.toList) :
    ∃ zs, Statement.parse Editor.inputName (String.intercalate "; " rows) = .ok zs ∧
      zs.map Statement.unplaced = (xss.take (heard rows)).flatten.map Statement.unplaced := by
  obtain ⟨segments, xs, yields, alike⟩ := yields_joined nonempty parsed inside Editor.inputName []
  have text : (String.intercalate "; " rows).toList =
      [';', ' '].intercalate (rows.map String.toList) := String.toList_intercalate
  rw [← text] at yields
  exact ⟨xs, yields.parse, alike⟩

theorem take_heard {rows : List String} {xss : List (List Statement)}
    (parsed : rows.map (Statement.parse Editor.inputName) = xss.map .ok)
    (quiet : ∀ row ∈ rows.dropLast, endsInComment row = false) : xss.take (heard rows) = xss := by
  have lengths : rows.length = xss.length := by simpa using congrArg List.length parsed
  apply List.take_of_length_le
  rw [← lengths, heard]
  by_cases none : rows = []
  · simp [none]
  · have shorter : rows.dropLast.length = rows.length - 1 := List.length_dropLast
    have all : ∀ row ∈ rows.dropLast, (!endsInComment row) = true := by simpa using quiet
    rw [← List.dropLast_append_getLast none, List.takeWhile_append_of_pos all]
    simp only [List.length_append, List.length_singleton]
    omega

/-- The events of typing a text, and of typing rows that go on with a backslash at their ends. -/
def typing (text : String) : List Event :=
  text.toList.map fun c => .key (.char (UInt8.ofNat c.toNat))

def typingRows : List String → List Event
  | [] => []
  | [row] => typing row ++ [.key .enter]
  | row :: rows => typing row ++ [.key (.char 92), .key .enter] ++ typingRows rows

def IsPrintable (text : String) : Prop :=
  ∀ c ∈ text.toList, ' ' ≤ c ∧ c ≤ '~'

instance (text : String) : Decidable (IsPrintable text) :=
  decidable_of_iff (text.toList.all (fun c => decide (' ' ≤ c ∧ c ≤ '~')) = true)
    (by simp only [List.all_eq_true, decide_eq_true_eq, IsPrintable])

namespace Sheet

variable {entries : List String} {atEnd : IoError}

theorem press_printable (s : Sheet) {c : Char} (printable : ' ' ≤ c ∧ c ≤ '~') :
    s.press entries (.char (UInt8.ofNat c.toNat)) = .on { s with left := c :: s.left } := by
  have low : 0x20 ≤ c.toNat := printable.1
  have high : c.toNat ≤ 0x7e := printable.2
  have byte : (UInt8.ofNat c.toNat).toNat = c.toNat := by
    rw [UInt8.toNat_ofNat']
    omega
  have inside : 0x20 ≤ UInt8.ofNat c.toNat ∧ UInt8.ofNat c.toNat ≤ 0x7e := by
    rw [UInt8.le_iff_toNat_le, UInt8.le_iff_toNat_le, byte]
    exact ⟨low, high⟩
  have other : UInt8.ofNat c.toNat ≠ 4 := by
    intro four
    have same := congrArg UInt8.toNat four
    rw [byte] at same
    have : c.toNat = 4 := same
    omega
  rw [press, if_neg fun h => other h.1, if_pos inside, byte, Char.ofNat_toNat]

theorem run_typing (s : Sheet) {text : String} (printable : IsPrintable text) (rest : List Event) :
    s.run entries atEnd (typing text ++ rest) =
      { s with left := text.toList.reverse ++ s.left }.run entries atEnd rest := by
  unfold typing
  unfold IsPrintable at printable
  generalize text.toList = cs at printable
  induction cs generalizing s with
  | nil => rfl
  | cons c cs ih =>
    have first := printable c List.mem_cons_self
    rw [List.map_cons, List.cons_append, run, receive, press_printable s first]
    simp only
    rw [ih _ fun d member => printable d (List.mem_cons_of_mem c member)]
    simp

theorem run_typingRows (s : Sheet) (empty : s.left = [] ∧ s.right = []) {rows : List String}
    (nonempty : rows ≠ []) (printable : ∀ row ∈ rows, IsPrintable row)
    (ends : ∀ row ∈ rows.getLast?, row.toList.getLast? ≠ some '\\') (rest : List Event) :
    (s.run entries atEnd (typingRows rows ++ rest)).result =
      .ok (String.intercalate "; " (s.rows ++ rows)) := by
  induction rows generalizing s with
  | nil => exact absurd rfl nonempty
  | cons row rows ih =>
    have first := printable row List.mem_cons_self
    cases rows with
    | nil =>
      have last : row.toList.getLast? ≠ some '\\' := ends row rfl
      rw [typingRows, List.append_assoc, run_typing s first, List.singleton_append, run, receive,
        press]
      simp [text, empty, last]
    | cons next rows =>
      have backslash : ' ' ≤ '\\' ∧ '\\' ≤ '~' := by decide
      have typed : ∀ s : Sheet, s.receive entries (.key (.char 92)) =
          .on { s with left := '\\' :: s.left } := fun s => @press_printable entries s '\\' backslash
      have events : typingRows (row :: next :: rows) = typing row ++
          [.key (.char 92), .key .enter] ++ typingRows (next :: rows) := rfl
      rw [events, List.append_assoc, List.append_assoc, run_typing s first, List.cons_append,
        run, typed]
      simp only
      rw [List.singleton_append, run, receive, press]
      simp only [text, empty, List.append_nil, List.reverse_cons, List.reverse_reverse,
        List.getLast?_concat, if_true, List.dropLast_concat, String.ofList_toList]
      rw [ih ⟨_, [], [], _⟩ ⟨rfl, rfl⟩ (List.cons_ne_nil _ _)
        (fun r member => printable r (List.mem_cons_of_mem row member)) ends]
      simp

end Sheet

/-- Rows typed one after the other come back joined, and the joined text has the statements of the
rows up to the first that ends in a comment: of all of them, if none but the last does. -/
theorem Editor.readLine_continued (e : Editor) (t : Terminal) (prompt : String)
    (highlighter : Option Highlighter) (rows : List String) (xss : List (List Statement))
    (more : List Event) (nonempty : rows ≠ []) (printable : ∀ row ∈ rows, IsPrintable row)
    (ends : ∀ row ∈ rows.getLast?, row.toList.getLast? ≠ some '\\')
    (parsed : rows.map (Statement.parse inputName) = xss.map .ok)
    (typed : t.events = typingRows rows ++ more) (h : e.Undisturbed t prompt highlighter) :
    ∃ input zs, (e.readLine t prompt highlighter).1 = .ok input ∧
      input = String.intercalate "; " rows ∧ Statement.parse inputName input = .ok zs ∧
      zs.map Statement.unplaced = (xss.take (heard rows)).flatten.map Statement.unplaced ∧
      ((∀ row ∈ rows.dropLast, endsInComment row = false) →
        zs.map Statement.unplaced = xss.flatten.map Statement.unplaced) := by
  have inside : ∀ row ∈ rows, '\n' ∉ row.toList := by
    intro row member newline
    exact absurd (printable row member '\n' newline).1 (by decide)
  obtain ⟨zs, whole, alike⟩ := parse_joined nonempty parsed inside
  have result := (readLine_eq_typed h).1
  rw [Editor.typed, typed, Sheet.run_typingRows _ ⟨rfl, rfl⟩ nonempty printable ends] at result
  refine ⟨_, zs, result, rfl, whole, alike, ?_⟩
  intro quiet
  rw [alike, take_heard parsed quiet]

/- A row that keeps a backslash of its own, an empty row, and a comment in the last. -/
theorem Editor.readLine_continued_quiet :
    let rows := ["echo a\\", "", "exit 3 # b"]
    let xss : List (List Statement) :=
      [[.action ⟨"stdin", 1, 1⟩ (.echo "a\\ ")], [], [.action ⟨"stdin", 1, 1⟩ (.exit (some 3))]]
    let e := Editor.new (.empty 0) {}
    let t : Terminal :=
      { columns := 3, events := typingRows rows, display := ⟨.empty, none⟩, mode := 0, faults := {},
        calls := [], atEnd := .endOfInput "" }
    (∀ row ∈ rows, IsPrintable row) ∧ (∀ row ∈ rows.dropLast, endsInComment row = false) ∧
      rows.map (Statement.parse inputName) = xss.map .ok ∧ e.Undisturbed t "$ " none ∧
      ∃ input zs, (e.readLine t "$ " none).1 = .ok input ∧
        Statement.parse inputName input = .ok zs ∧
        zs.map Statement.unplaced = xss.flatten.map Statement.unplaced := by
  intro rows xss e t
  have printable : ∀ row ∈ rows, IsPrintable row := by decide +kernel
  have quiet : ∀ row ∈ rows.dropLast, endsInComment row = false := by decide +kernel
  have parsed : rows.map (Statement.parse inputName) = xss.map .ok := by decide +kernel
  have free : e.Undisturbed t "$ " none := ⟨rfl, rfl, by rintro room ⟨⟩⟩
  obtain ⟨input, zs, result, _, whole, _, alike⟩ := readLine_continued e t "$ " none rows xss []
    (by decide) printable (by decide +kernel) parsed (List.append_nil _).symm free
  exact ⟨printable, quiet, parsed, free, input, zs, result, whole, alike quiet⟩

/- A comment in the first of two rows: the statement of the second is lost. -/
theorem Editor.comment_hides_row :
    let rows := ["echo a # note", "echo b"]
    let xss : List (List Statement) :=
      [[.action ⟨"stdin", 1, 1⟩ (.echo "a ")], [.action ⟨"stdin", 1, 1⟩ (.echo "b ")]]
    (∀ row ∈ rows, IsPrintable row) ∧
      (∀ row ∈ rows.getLast?, row.toList.getLast? ≠ some '\\') ∧
      rows.map (Statement.parse inputName) = xss.map .ok ∧
      ¬ ∃ zs, Statement.parse inputName (String.intercalate "; " rows) = .ok zs ∧
        zs.map Statement.unplaced = xss.flatten.map Statement.unplaced := by
  intro rows xss
  have joined : Statement.parse inputName (String.intercalate "; " rows) =
      .ok [.action ⟨"stdin", 1, 1⟩ (.echo "a ")] := by
    decide +kernel
  refine ⟨by decide +kernel, by decide +kernel, by decide +kernel, ?_⟩
  rintro ⟨zs, parsed, alike⟩
  rw [joined] at parsed
  cases parsed
  exact absurd (congrArg List.length alike) (by decide)

end LineShell
