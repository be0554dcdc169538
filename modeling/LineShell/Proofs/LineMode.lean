import LineShell.Machine
import LineShell.Proofs.Finality
import LineShell.Proofs.Joining
import LineShell.Proofs.Lines
import LineShell.Session

/-!
A script and its lines. If every line of a text parses on its own, running the text at once and
running it line by line are the same: same statuses, same variables, same state of the host. A
failure stops the script in some line, and the lines up to that one fail in the same way.
-/

namespace LineShell

open Grammar

/-- All actions of a statement stand in one row. -/
def Statement.InRow (row : Nat) : Statement → Prop
  | .action position _ => position.row = row
  | .chain _ _ left right => left.InRow row ∧ right.InRow row

namespace Grammar

variable {row : Nat}

theorem Derives.inRow {symbol : Symbol} {ts : List Token} {x : Statement}
    (h : Derives symbol ts x) (tokens : ∀ t ∈ ts, t.position.row = row) : x.InRow row := by
  induction h with
  | action _ => exact tokens _ List.mem_cons_self
  | group _ _ _ ih =>
    apply ih
    intro t member
    exact tokens t (by simp [member])
  | factor _ ih => exact ih tokens
  | chain _ _ _ left right =>
    constructor
    · apply left
      intro t member
      exact tokens t (List.mem_append_left _ member)
    · apply right
      intro t member
      exact tokens t (List.mem_append_right _ (List.mem_cons_of_mem _ member))

theorem More.inRow {ts : List Token} {xs : List Statement} (h : More ts xs)
    (tokens : ∀ t ∈ ts, t.position.row = row) : ∀ x ∈ xs, x.InRow row := by
  induction h with
  | nil => simp
  | @cons seps ts us x xs _ _ first _ ih =>
    intro y member
    rcases List.mem_cons.mp member with rfl | member
    · exact first.inRow fun t ht => tokens t (by simp [ht])
    · exact ih (fun t ht => tokens t (by simp [ht])) y member

theorem Program.inRow {ts : List Token} {xs : List Statement} (h : Program ts xs)
    (tokens : ∀ t ∈ ts, t.position.row = row) : ∀ x ∈ xs, x.InRow row := by
  cases h with
  | empty _ => simp
  | statements _ first more _ =>
    intro y member
    rcases List.mem_cons.mp member with rfl | member
    · exact first.inRow fun t ht => tokens t (by simp [ht])
    · exact more.inRow (fun t ht => tokens t (by simp [ht])) y member

end Grammar

theorem Cursor.row_passAll (k : Cursor) {cs : List Char} (line : '\n' ∉ cs) :
    (k.passAll cs).row = k.row := by
  rw [k.passAll_line line]

namespace Token.Scans

variable {path : String} {before a : List Char} {segments : List Segment}

/- The tokens of a line stand in its row. -/
theorem row (h : Scans path before a segments) (line : '\n' ∉ a) :
    ∀ s ∈ segments, s.token.position.row = (Cursor.start.passAll before).row := by
  induction h with
  | @finish before gap _ =>
    intro s member
    rw [List.mem_singleton.mp member]
    simp only [ending, Cursor.position, Cursor.passAll_append]
    exact Cursor.row_passAll _ line
  | @token before gap cs c segments _ _ _ _ ih =>
    have inGap : '\n' ∉ gap := fun member => line (List.mem_append_left _ member)
    have inRest : '\n' ∉ c :: cs := fun member => line (List.mem_append_right _ member)
    have other : c ≠ '\n' := by
      rintro rfl
      exact inRest List.mem_cons_self
    rw [← Lexeme.ofSource_append] at inRest
    have inRaw : '\n' ∉ (Lexeme.ofSource c cs).raw :=
      fun member => inRest (List.mem_append_left _ member)
    intro s member
    rcases List.mem_cons.mp member with rfl | member
    · simp only [starting, Cursor.position, Option.some.injEq, if_neg other,
        Cursor.passAll_append]
      exact Cursor.row_passAll _ inGap
    · rw [ih (fun later => inRest (List.mem_append_right _ later)) s member,
        Cursor.passAll_append, Cursor.passAll_append, Cursor.row_passAll _ inRaw,
        Cursor.row_passAll _ inGap]

theorem inRow {body tail : List Segment} (h : Scans path before a (body ++ tail))
    (line : '\n' ∉ a) {xs : List Statement}
    (program : Grammar.Program (body.map Segment.token) xs) :
    ∀ x ∈ xs, x.InRow (Cursor.start.passAll before).row := by
  apply program.inRow
  intro t member
  obtain ⟨s, there, rfl⟩ := List.mem_map.mp member
  exact h.row line s (List.mem_append_left tail there)

/-- A line of sound tokens is complete at its end, comments included. -/
theorem newline (h : Scans path before a segments) (sound : ∀ s ∈ segments, s.token.IsSound)
    {ending' : List Char} (ends : ending' = [] ∨ ending' = ['\r']) {rest : List Char}
    {tail : List Segment} (behind : Scans path (before ++ a ++ ending' ++ ['\n']) rest tail) :
    ∃ body gap gap', segments = body ++ [⟨gap, ending path (before ++ a)⟩] ∧
      Scans path before (a ++ (ending' ++ '\n' :: rest))
        (body ++ ⟨gap', starting path (before ++ a ++ ending') '\n' rest⟩ :: tail) := by
  have start : ∃ d more, ending' ++ '\n' :: rest = d :: more ∧ isDelimiter d = true := by
    rcases ends with rfl | rfl
    · exact ⟨_, _, rfl, rfl⟩
    · exact ⟨_, _, rfl, rfl⟩
  obtain ⟨d, more, split, delimiter⟩ := start
  obtain ⟨front, gap, body, whole, shape, segs, go⟩ := h.resume sound delimiter more
  refine ⟨body, _, String.ofList (gap ++ ending'), segs, ?_⟩
  have wider : Gap (gap ++ ending') ('\n' :: rest) := by
    have blank : ∀ c ∈ ending', isBlank c = true := by
      rcases ends with rfl | rfl
      · simp
      · simp [isBlank]
    have line : '\n' ∉ ending' := by
      rcases ends with rfl | rfl <;> simp
    cases shape with
    | blanks blanks =>
      apply Gap.blanks
      intro c member
      rcases List.mem_append.mp member with member | member
      · exact blanks c member
      · exact blank c member
    | @comment bs text _ blanks inside _ =>
      have longer := @Gap.comment bs (text ++ ending') ('\n' :: rest) blanks
        (by simp [inside, line]) (by simp)
      simpa using longer
  have place : before ++ front ++ (gap ++ ending') = before ++ a ++ ending' := by
    simp [whole]
  have last := @Scans.token path (before ++ front) (gap ++ ending') rest '\n' tail wider rfl
    (by decide) (by rw [place]; exact behind)
  rw [place] at last
  rw [split]
  apply go
  rw [← split]
  simpa using last

end Token.Scans

/-- The lines of a text with the statements that a larger source has for them, row by row. -/
inductive Rows : Nat → List (List Char) → List (List Statement) → Prop where
  | nil {row : Nat} : Rows row [] []
  | cons {row : Nat} {line : List Char} {lines : List (List Char)} {xs ys : List Statement}
      {xss : List (List Statement)} :
      Statement.parse Editor.inputName (String.ofList line) = .ok ys →
      xs.map Statement.unplaced = ys.map Statement.unplaced → (∀ x ∈ xs, x.InRow row) →
      Rows (row + 1) lines xss → Rows row (line :: lines) (xs :: xss)

theorem Cursor.row_next (before : List Char) {line ending : List Char} (inside : '\n' ∉ line)
    (ends : ending = [] ∨ ending = ['\r']) :
    (Cursor.start.passAll (before ++ line ++ ending ++ ['\n'])).row =
      (Cursor.start.passAll before).row + 1 := by
  have returns : '\n' ∉ ending := by
    rcases ends with rfl | rfl <;> simp
  rw [Cursor.passAll_append, Cursor.passAll_append, Cursor.passAll_append]
  simp only [Cursor.passAll, List.foldl_cons, List.foldl_nil, Cursor.pass, if_true]
  exact congrArg (· + 1) ((Cursor.row_passAll _ returns).trans (Cursor.row_passAll _ inside))

/-- A text scans and parses line by line. -/
theorem yields_lines {text : List Char} {lines : List (List Char)}
    (lined : Text.Lined '\n' '\r' text lines)
    (each : ∀ line ∈ lines, ∃ ys,
      Statement.parse Editor.inputName (String.ofList line) = .ok ys)
    (path : String) (before : List Char) :
    ∃ segments xss, Token.Yields path before text segments xss.flatten ∧
      Rows (Cursor.start.passAll before).row lines xss := by
  induction lined generalizing before with
  | nil =>
    have empty : Grammar.Program [] [] := .empty .nil
    exact ⟨_, [], @Token.Yields.last path _ before [] [] [] (.finish (.blanks (by simp)))
      (by simp) empty, .nil⟩
  | @last line nonempty inside =>
    obtain ⟨ys, parsed⟩ := each line List.mem_cons_self
    obtain ⟨segments, xs, run, sound, _, alike, program⟩ :=
      Token.scans_of_parse parsed path before
    obtain ⟨body, gap, rfl⟩ := run.split
    have read := program body gap rfl
    have yields := Token.Yields.last run (fun s member => sound s (by simp [member])) read
    have single : xs = [xs].flatten := by simp
    rw [single] at yields
    exact ⟨_, [xs], yields, .cons parsed alike (run.inRow inside read) .nil⟩
  | @next line ending rest lines inside ends lined ih =>
    obtain ⟨ys, parsed⟩ := each line List.mem_cons_self
    obtain ⟨segments, xs, run, sound, _, alike, program⟩ :=
      Token.scans_of_parse parsed path before
    obtain ⟨tail, xss, behind, rows⟩ :=
      ih (fun l member => each l (List.mem_cons_of_mem line member))
        (before ++ line ++ ending ++ ['\n'])
    obtain ⟨body, gap, gap', rfl, whole⟩ := run.newline sound ends behind.scans
    have read := program body gap rfl
    rw [Cursor.row_next before inside ends] at rows
    have yields := Token.Yields.separated whole rfl (fun s member => sound s (by simp [member])) read
      behind
    exact ⟨_, xs :: xss, yields, .cons parsed alike (run.inRow inside read) rows⟩

namespace Shell

variable {σ : Type}

theorem execAll_append (host : Host σ) {s : Shell σ} (running : s.env.forcedExit = false)
    (xs ys : List Statement) :
    s.execAll host (xs ++ ys) =
      match s.execAll host xs with
      | (.error e, s) => (.error e, s)
      | (.ok status, s) => if s.env.forcedExit then (.ok status, s) else s.execAll host ys := by
  induction xs generalizing s with
  | nil => simp [execAll, running]
  | cons x xs ih =>
    rw [List.cons_append, execAll, execAll]
    cases s.exec host x with
    | mk outcome after =>
      cases outcome with
      | error e => rfl
      | ok status =>
        by_cases ended : after.env.forcedExit = true
        · simp [ended]
        · have still : after.env.forcedExit = false := Bool.eq_false_iff.mpr ended
          simp only [ended]
          exact ih still

/- A failure stands where its action does. -/
theorem row_of_exec_error {host : Host σ} {s final : Shell σ} {x : Statement} {row : Nat}
    {e : ShellError} (inside : x.InRow row) (failed : s.exec host x = (.error e, final)) :
    e.position.row = row := by
  induction x generalizing s final with
  | action position action =>
    rw [exec] at failed
    cases performed : s.perform host action with
    | mk result after =>
      rw [performed] at failed
      cases result with
      | ok status => cases failed
      | error problem =>
        cases failed
        exact inside
  | chain position op left right ihLeft ihRight =>
    rw [exec_chain] at failed
    cases first : s.exec host left with
    | mk outcome middle =>
      rw [first] at failed
      cases outcome with
      | error problem =>
        cases failed
        exact ihLeft inside.1 first
      | ok status =>
        dsimp only at failed
        split at failed
        · exact ihRight inside.2 failed
        · cases failed

theorem row_of_execAll_error {host : Host σ} {s final : Shell σ} {xs : List Statement} {row : Nat}
    {e : ShellError} (inside : ∀ x ∈ xs, x.InRow row)
    (failed : s.execAll host xs = (.error e, final)) : e.position.row = row := by
  induction xs generalizing s with
  | nil => cases failed
  | cons x xs ih =>
    rw [execAll] at failed
    cases first : s.exec host x with
    | mk outcome middle =>
      rw [first] at failed
      cases outcome with
      | error problem =>
        cases failed
        exact row_of_exec_error (inside x List.mem_cons_self) first
      | ok status =>
        dsimp only at failed
        split at failed
        · cases failed
        · exact ih (fun y member => inside y (List.mem_cons_of_mem x member)) failed

theorem lastStatus_execAll (host : Host σ) (s : Shell σ) (xs : List Statement) :
    (s.execAll host xs).2.env.lastStatus = (s.execAll host xs).1.status :=
  (runs_execAll host s xs).lastStatus

/- One line on its own does what its statements do in a larger source, and reports the failure. -/
theorem evaluateReporting_ok {host : Host σ} {s final : Shell σ} {line : String}
    {xs ys : List Statement} {status : Int} (parsed : Statement.parse Editor.inputName line = .ok ys)
    (alike : xs.map Statement.unplaced = ys.map Statement.unplaced)
    (result : s.execAll host xs = (.ok status, final)) :
    s.evaluateReporting host Editor.inputName line = (true, final) := by
  obtain ⟨after, outcome⟩ := execAll_alike host s alike
  rw [result] at after outcome
  have own : s.execAll host ys = (.ok status, final) := by
    obtain ⟨status', own, same⟩ := forget_eq_ok outcome.symm
    exact Prod.ext (own.trans (congrArg Except.ok same)) after.symm
  rw [evaluateReporting, evaluate, parsed]
  simp only [own]

theorem evaluateReporting_error {host : Host σ} {s final : Shell σ} {line : String}
    {xs ys : List Statement} {e : ShellError}
    (parsed : Statement.parse Editor.inputName line = .ok ys)
    (alike : xs.map Statement.unplaced = ys.map Statement.unplaced)
    (result : s.execAll host xs = (.error e, final)) :
    ∃ e' : ShellError, e'.cause = e.cause ∧
      s.evaluateReporting host Editor.inputName line = (false, final.complain host e'.message) := by
  obtain ⟨after, outcome⟩ := execAll_alike host s alike
  rw [result] at after outcome
  obtain ⟨e', own, same⟩ := forget_eq_error outcome.symm
  have cause : e'.unplaced.cause = e.unplaced.cause := congrArg ShellError.cause same
  refine ⟨e', cause, ?_⟩
  have whole : s.execAll host ys = (.error e', final) := Prod.ext own after.symm
  rw [evaluateReporting, evaluate, parsed]
  simp only [whole]

/-- What line mode makes of a source that stops in a failure: it reports the failure, and the place
it names is the one in the line. -/
def StopsAlike (host : Host σ) (s : Shell σ) (lines : List (Option String)) (e : ShellError)
    (final : Shell σ) : Prop :=
  ∃ e' : ShellError, e'.cause = e.cause ∧
    s.runLines host lines = (final.env.lastStatus, final.complain host e'.message)

/- The run goes through the rows: each line does its part of the statements, then the rest runs from
the session that it leaves behind. -/
theorem runLines_rows (host : Host σ) {row : Nat} {lines : List (List Char)}
    {xss : List (List Statement)} (rows : Rows row lines xss) {s : Shell σ}
    (running : s.env.forcedExit = false) :
    (∀ status final, s.execAll host xss.flatten = (.ok status, final) →
      s.runLines host (lines.map fun line => some (String.ofList line)) = (status, final)) ∧
    (∀ e final, s.execAll host xss.flatten = (.error e, final) →
      ∃ k < lines.length, e.position.row = row + k ∧ s.StopsAlike host
        ((lines.map fun line => some (String.ofList line)).take (k + 1)) e final) := by
  induction rows generalizing s with
  | nil =>
    constructor
    · rintro status final ⟨⟩
      rfl
    · rintro e final ⟨⟩
  | @cons row line lines xs ys xss parsed alike inside _ ih =>
    rw [List.flatten_cons, execAll_append host running]
    cases first : s.execAll host xs with
    | mk outcome middle =>
      cases outcome with
      | error problem =>
        obtain ⟨e', cause, reported⟩ := evaluateReporting_error parsed alike first
        constructor
        · rintro status final ⟨⟩
        · rintro e final ⟨⟩
          refine ⟨0, Nat.zero_lt_succ _, row_of_execAll_error inside first, ⟨e', cause, ?_⟩⟩
          simp only [List.map_cons, List.take_succ_cons, List.take_zero, runLines, reported]
          split <;> rfl
      | ok result =>
        have reported := evaluateReporting_ok parsed alike first
        have last := lastStatus_execAll host s xs
        rw [first] at last
        cases ended : middle.env.forcedExit with
        | true =>
          simp only [List.map_cons, runLines, reported, ended, if_true]
          constructor
          · rintro status final ⟨⟩
            exact congrArg (·, middle) last
          · rintro e final ⟨⟩
        | false =>
          obtain ⟨whole, stopped⟩ := ih ended
          simp only [List.map_cons, runLines, reported, ended, Bool.false_eq_true, if_false]
          refine ⟨whole, ?_⟩
          intro e final failed
          obtain ⟨k, bound, place, e', cause, ends⟩ := stopped e final failed
          refine ⟨k + 1, Nat.succ_lt_succ bound, by omega, ⟨e', cause, ?_⟩⟩
          simpa only [List.take_succ_cons, runLines, reported, ended, Bool.false_eq_true,
            if_false] using ends

/-- If every line of a text parses on its own, the text at once and the text line by line come to
the same: the same status, variables and state of the host, which may hold a record of all output
and children. A failure in the text stands in one of its rows, and the lines up to that row end as
the text did, with the failure reported. -/
theorem runLines_text (host : Host σ) (s : Shell σ) (path text : String)
    (running : s.env.forcedExit = false)
    (each : ∀ line ∈ Text.lines text, ∃ xs, Statement.parse Editor.inputName line = .ok xs) :
    (∀ status final, s.evaluate host path text = (.ok status, final) →
      s.runLines host (Text.byteLines text.toUTF8) = (status, final)) ∧
    (∀ e final, s.evaluate host path text = (.error e, final) →
      1 ≤ e.position.row ∧ e.position.row ≤ (Text.lines text).length ∧
        s.StopsAlike host ((Text.byteLines text.toUTF8).take e.position.row) e final) := by
  have lined := Text.lined_splitLines '\n' '\r' text.toList
  have separate : ∀ line ∈ Text.splitLines '\n' '\r' text.toList, ∃ ys,
      Statement.parse Editor.inputName (String.ofList line) = .ok ys :=
    fun line member => each _ (List.mem_map_of_mem member)
  obtain ⟨segments, xss, yields, rows⟩ := yields_lines lined separate path []
  have parsed : Statement.parse path text = .ok xss.flatten := yields.parse
  have bytes : Text.byteLines text.toUTF8 =
      (Text.splitLines '\n' '\r' text.toList).map fun line => some (String.ofList line) := by
    rw [Text.byteLines_toUTF8, Text.lines, List.map_map]
    rfl
  obtain ⟨whole, stopped⟩ := runLines_rows host rows running
  simp only [evaluate, parsed, bytes]
  refine ⟨whole, ?_⟩
  intro e final failed
  obtain ⟨k, bound, place, ends⟩ := stopped e final failed
  have first : (Cursor.start.passAll []).row = 1 := rfl
  rw [first, Nat.add_comm] at place
  rw [place, Text.lines, List.length_map]
  exact ⟨Nat.succ_pos k, bound, ends⟩

/- Line ends of both kinds, a comment, an empty line, and a failure in front of more. -/
theorem runLines_text_failure :
    let s : Shell Machine := ⟨.empty, ⟨.empty, .root, [], ⟨none, false⟩, "", ""⟩⟩
    let text := "let a = 1 # note; b\r\n\n(export a && export b); help\r\nhelp"
    s.env.forcedExit = false ∧
      (∀ line ∈ Text.lines text, ∃ xs, Statement.parse Editor.inputName line = .ok xs) ∧
      ∃ e final, s.evaluate Machine.host "script" text = (.error e, final) ∧
        e.position.row = 3 ∧
        s.StopsAlike Machine.host ((Text.byteLines text.toUTF8).take 3) e final := by
  intro s text
  have each : ∀ line ∈ Text.lines text,
      ∃ xs, Statement.parse Editor.inputName line = .ok xs := by
    have parsed : ∀ line ∈ Text.lines text,
        (Statement.parse Editor.inputName line).toOption.isSome = true := by
      decide +kernel
    intro line member
    have some := parsed line member
    cases result : Statement.parse Editor.inputName line with
    | ok xs => exact ⟨xs, rfl⟩
    | error e =>
      rw [result] at some
      cases some
  have outcome : (s.evaluate Machine.host "script" text).1 =
      .error ⟨⟨"script", 3, 14⟩, .eval (.variableNotFound "b")⟩ := by
    decide +kernel
  have failed : s.evaluate Machine.host "script" text =
      (.error _, (s.evaluate Machine.host "script" text).2) :=
    Prod.ext outcome rfl
  obtain ⟨_, _, stops⟩ := (runLines_text Machine.host s "script" text rfl each).2 _ _ failed
  exact ⟨rfl, each, _, _, failed, rfl, stops⟩

end Shell

end LineShell
