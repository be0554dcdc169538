import LineShell.Proofs.Simulation

/-!
The terminal's mode is restored on every way out. A driver answers calls however it likes, and every
call is logged. The mode is saved and set before a session and restored behind it, and the session
itself leaves the mode alone.
-/

namespace LineShell

/-- What is asked of a driver. -/
inductive Call (μ : Type) where
  | save
  | set (flowControlOff : Bool)
  | restore (mode : μ)
  | write (text : String)
  | flush
  | columns
  | readKey

def Call.isMode {μ : Type} : Call μ → Bool
  | save | set _ | restore _ => true
  | write _ | flush | columns | readKey => false

/-- A terminal with the calls to it so far, oldest first. -/
structure Logged (μ σ : Type) where
  terminal : σ
  calls : List (Call μ)

variable {ε μ σ α : Type}

def Logged.ask (l : Logged μ σ) (call : Call μ) (answer : σ → α × σ) : α × Logged μ σ :=
  ((answer l.terminal).1, ⟨(answer l.terminal).2, l.calls ++ [call]⟩)

/-- The driver that also logs what it is asked. -/
def Driver.logged (D : Driver ε μ σ) : Driver ε μ (Logged μ σ) where
  saveMode l := l.ask .save D.saveMode
  setMode l flowControlOff := l.ask (.set flowControlOff) (D.setMode · flowControlOff)
  restoreMode l mode := l.ask (.restore mode) (D.restoreMode · mode)
  write l text := l.ask (.write text) (D.write · text)
  flush l := l.ask .flush D.flush
  columns l := l.ask .columns D.columns
  readKey l input := l.ask .readKey (D.readKey · input)

/-- The log is that of this terminal, and since `calls` none was to the mode. -/
structure Logged.Quiet (calls : List (Call μ)) (s : σ) (l : Logged μ σ) : Prop where
  terminal : l.terminal = s
  others : ∃ more, l.calls = calls ++ more ∧ ∀ c ∈ more, c.isMode = false

namespace Logged

variable {calls : List (Call μ)}

theorem quiet_refl (l : Logged μ σ) : Quiet l.calls l.terminal l :=
  ⟨rfl, [], (List.append_nil _).symm, by simp⟩

theorem alike_ask {call : Call μ} (other : call.isMode = false) (answer : σ → α × σ) :
    Alike (Quiet calls) answer fun l => l.ask call answer := by
  rintro _ l ⟨rfl, more, logged, quiet⟩
  refine ⟨rfl, rfl, more ++ [call], ?_, ?_⟩
  · change l.calls ++ [call] = _
    rw [logged, List.append_assoc]
  · intro c member
    rcases List.mem_append.mp member with member | member
    · exact quiet c member
    · rw [List.mem_singleton.mp member]
      exact other

end Logged

variable (D : Driver ε μ σ)

namespace Driver

theorem logged_saveMode {l : Logged μ σ} {answer : Except IoError μ} {s : σ}
    (given : D.saveMode l.terminal = (answer, s)) :
    D.logged.saveMode l = (answer, ⟨s, l.calls ++ [.save]⟩) := by
  simp only [logged, Logged.ask, given]

theorem logged_setMode {l : Logged μ σ} {flowControlOff : Bool} {answer : Except IoError Unit}
    {s : σ} (given : D.setMode l.terminal flowControlOff = (answer, s)) :
    D.logged.setMode l flowControlOff = (answer, ⟨s, l.calls ++ [.set flowControlOff]⟩) := by
  simp only [logged, Logged.ask, given]

theorem simulates_logged (calls : List (Call μ)) : D.Simulates (Logged.Quiet calls) D.logged where
  write _ := Logged.alike_ask rfl _
  flush := Logged.alike_ask rfl _
  columns := Logged.alike_ask rfl _
  readKey _ := Logged.alike_ask rfl _

/- A session never restores the mode. -/
theorem simulates_restoreMode (restore : σ → μ → Except IoError Unit × σ) :
    D.Simulates Eq { D with restoreMode := restore } where
  write _ := alike_eq _
  flush := alike_eq _
  columns := alike_eq _
  readKey _ := alike_eq _

end Driver

namespace LineReader

variable (highlighter : Option Highlighter) (atEnd : IoError)

/-- Reading ended by itself, and not for want of inputs. -/
def Ended (atEnd : IoError) (result : Except IoError String) (unread : List ε) : Prop :=
  unread ≠ [] ∨ result ≠ .error atEnd

/- Inputs behind the end are not looked at. -/
theorem run_append (r : Reading σ) (inputs more : List ε) (atEnd' : IoError) :
    let f := D.reader.run highlighter atEnd r inputs
    Ended atEnd f.result f.unread →
      D.reader.run highlighter atEnd' r (inputs ++ more) = { f with unread := f.unread ++ more } := by
  induction inputs generalizing r with
  | nil =>
    cases drew : D.reader.draw r highlighter with
    | done result r' =>
      rw [run_stopped drew, run_stopped drew]
      intro _ _
      rfl
    | going r' =>
      rw [run_nil drew]
      intro f ended
      rcases ended with unread | result
      · exact absurd rfl unread
      · exact absurd rfl result
  | cons input rest ih =>
    cases drew : D.reader.draw r highlighter with
    | done result r' =>
      rw [run_stopped drew, run_stopped drew]
      intro _ _
      rfl
    | going r' =>
      rw [List.cons_append]
      cases got : D.reader.receive r' input with
      | done result r'' =>
        rw [run_cons_done drew got, run_cons_done drew got]
        intro _ _
        rfl
      | going r'' =>
        rw [run_cons_going drew got, run_cons_going drew got]
        exact ih r''

variable (e : Editor) (s : σ) (prompt : String) (inputs more : List ε) (atEnd' : IoError)

theorem readInMode_append :
    let out := D.reader.readInMode highlighter atEnd e s prompt inputs
    Ended atEnd out.result out.unread →
      D.reader.readInMode highlighter atEnd' e s prompt (inputs ++ more) =
        { out with unread := out.unread ++ more } := by
  cases shown : D.reader.start e s (Prompt.split prompt) with
  | done result r =>
    rw [readInMode_of_done highlighter _ prompt _ shown,
      readInMode_of_done highlighter _ prompt _ shown]
    intro _ _
    rfl
  | going r =>
    rw [readInMode_of_going highlighter _ prompt _ shown,
      readInMode_of_going highlighter _ prompt _ shown]
    intro out ended
    have whole := run_append D highlighter atEnd r inputs more atEnd' ended
    simp only [whole]
    rfl

theorem readSettingMode_append :
    let out := D.reader.readSettingMode highlighter atEnd e s prompt inputs
    Ended atEnd out.result out.unread →
      D.reader.readSettingMode highlighter atEnd' e s prompt (inputs ++ more) =
        { out with unread := out.unread ++ more } := by
  rcases given : D.setMode s e.features.interactive with ⟨failure | _, s'⟩
  · rw [readSettingMode_of_error highlighter _ prompt _ given,
      readSettingMode_of_error highlighter _ prompt _ given]
    intro _ _
    rfl
  · rw [readSettingMode_of_ok highlighter _ prompt _ given,
      readSettingMode_of_ok highlighter _ prompt _ given]
    exact readInMode_append D highlighter atEnd e s' prompt inputs more atEnd'

theorem readLine_append :
    let out := D.reader.readLine highlighter atEnd e s prompt inputs
    Ended atEnd out.result out.unread →
      D.reader.readLine highlighter atEnd' e s prompt (inputs ++ more) =
        { out with unread := out.unread ++ more } := by
  rcases given : D.saveMode s with ⟨failure | saved, s'⟩
  · rw [readLine_of_save_error highlighter _ prompt _ given,
      readLine_of_save_error highlighter _ prompt _ given]
    intro _ _
    rfl
  · rw [readLine_of_save_ok highlighter _ prompt _ given,
      readLine_of_save_ok highlighter _ prompt _ given]
    intro out ended
    have whole := readSettingMode_append D highlighter atEnd e s' prompt inputs more atEnd' ended
    simp only [whole]
    rfl

/- Setting the mode comes first; if it fails there is no session. -/
theorem readSettingMode_calls (l : Logged μ σ) :
    let interactive := e.features.interactive
    let out := D.logged.reader.readSettingMode highlighter atEnd e l prompt inputs
    ∃ calls, out.terminal.calls = l.calls ++ .set interactive :: calls ∧
      (∀ c ∈ calls, c.isMode = false) ∧
      ∀ failure s', D.setMode l.terminal interactive = (.error failure, s') →
        out.result = .error failure ∧ calls = [] := by
  intro interactive out
  have appended (calls : List (Call μ)) :
      l.calls ++ [.set interactive] ++ calls = l.calls ++ .set interactive :: calls :=
    List.append_assoc l.calls [.set interactive] calls
  rcases given : D.setMode l.terminal interactive with ⟨failure | _, s'⟩
  · have failed : out = ⟨.error failure, e, ⟨s', l.calls ++ [.set interactive]⟩, inputs⟩ :=
      readSettingMode_of_error highlighter atEnd prompt inputs (D.logged_setMode given)
    rw [failed]
    refine ⟨[], rfl, by simp, ?_⟩
    rintro _ _ ⟨⟩
    exact ⟨rfl, rfl⟩
  · let l' : Logged μ σ := ⟨s', l.calls ++ [.set interactive]⟩
    have goes : out = D.logged.reader.readInMode highlighter atEnd e l' prompt inputs :=
      readSettingMode_of_ok highlighter atEnd prompt inputs (D.logged_setMode given)
    have quiet := (D.simulates_logged l'.calls).follows.gives_readInMode l'.quiet_refl e prompt
      highlighter atEnd inputs
    obtain ⟨calls, made, others⟩ := quiet.matches.terminal.others
    rw [goes]
    exact ⟨calls, made.trans (appended calls), others, by simp⟩

end LineReader

namespace Driver

theorem alike_logged (call : Call μ) (answer : σ → α × σ) :
    Alike (fun s l => Logged.terminal l = s) answer fun l => l.ask call answer := by
  rintro _ l rfl
  exact ⟨rfl, rfl⟩

/- Nobody sees the log. -/
theorem simulatesAll_logged : D.SimulatesAll (fun s l => Logged.terminal l = s) D.logged where
  write _ := alike_logged _ _
  flush := alike_logged _ _
  columns := alike_logged _ _
  readKey _ := alike_logged _ _
  saveMode := alike_logged _ _
  setMode _ := alike_logged _ _
  restoreMode _ := alike_logged _ _

theorem readLine_logged (l : Logged μ σ) (e : Editor) (prompt : String)
    (highlighter : Option Highlighter) (atEnd : IoError) (inputs : List ε) :
    let out := D.logged.reader.readLine highlighter atEnd e l prompt inputs
    D.reader.readLine highlighter atEnd e l.terminal prompt inputs =
      ⟨out.result, out.editor, out.terminal.terminal, out.unread⟩ := by
  intro out
  have same := (LineReader.gives_readLine (R := D.logged.reader) Editor.agrees_operations
    D.simulatesAll_logged (Eq.refl l.terminal) e prompt highlighter atEnd inputs).matches
  rw [same.result, same.editor, same.unread, same.terminal]
  rfl

/- What restoring does is not seen before the last call. -/
theorem readLine_restoreMode (restore : σ → μ → Except IoError Unit × σ) (l : Logged μ σ)
    (e : Editor) (prompt : String) (highlighter : Option Highlighter) (atEnd : IoError)
    (inputs : List ε) :
    let D' := { D with restoreMode := restore }
    let out := D.logged.reader.readLine highlighter atEnd e l prompt inputs
    let out' := D'.logged.reader.readLine highlighter atEnd e l prompt inputs
    out'.result = out.result ∧ out'.editor = out.editor ∧ out'.unread = out.unread ∧
      out'.terminal.calls = out.terminal.calls := by
  intro D' out out'
  have alike : D.logged.Simulates Eq D'.logged := D.logged.simulates_restoreMode _
  rcases given : D.saveMode l.terminal with ⟨failure | saved, s⟩
  · have failed : out = _ := LineReader.readLine_of_save_error highlighter atEnd prompt inputs
      (D.logged_saveMode given)
    have failed' : out' = _ := LineReader.readLine_of_save_error highlighter atEnd prompt inputs
      (D'.logged_saveMode given)
    rw [failed, failed']
    exact ⟨rfl, rfl, rfl, rfl⟩
  · have goes : out = _ := LineReader.readLine_of_save_ok highlighter atEnd prompt inputs
      (D.logged_saveMode given)
    have goes' : out' = _ := LineReader.readLine_of_save_ok highlighter atEnd prompt inputs
      (D'.logged_saveMode given)
    let saving : Logged μ σ := ⟨s, l.calls ++ [.save]⟩
    have reached := (alike.follows.gives_readSettingMode (Eq.refl saving) e prompt highlighter atEnd
      inputs fun _ => alike_eq _).matches
    rw [goes, goes']
    refine ⟨reached.result, reached.editor, reached.unread, ?_⟩
    exact congrArg (·.calls ++ [Call.restore saved]) reached.terminal.symm

end Driver

/- The session leaves the log of mode calls of a terminal alone. -/
theorem Terminal.simulates_calls (calls : List ModeCall) :
    driver.Simulates (fun t t' => t' = t ∧ t.calls = calls) driver where
  write _ := by
    rintro t _ ⟨rfl, rfl⟩
    exact ⟨rfl, rfl, rfl⟩
  flush := by
    rintro t _ ⟨rfl, rfl⟩
    exact ⟨rfl, rfl, rfl⟩
  columns := by
    rintro t _ ⟨rfl, rfl⟩
    exact ⟨rfl, rfl, rfl⟩
  readKey event := by
    rintro t _ ⟨rfl, rfl⟩
    cases event <;> exact ⟨rfl, rfl, rfl⟩

theorem Terminal.calls_readSettingMode (e : Editor) (t : Terminal) (prompt : String)
    (highlighter : Option Highlighter) (atEnd : IoError) (events : List Event) :
    (reader.readSettingMode highlighter atEnd e t prompt events).terminal.calls =
      t.calls ++ [.set e.features.interactive] := by
  rcases given : driver.setMode t e.features.interactive with ⟨failure | _, t'⟩
  · rw [LineReader.readSettingMode_of_error highlighter atEnd prompt events given]
    exact congrArg (·.2.calls) given.symm
  · have session := (simulates_calls t'.calls).follows.gives_readInMode ⟨rfl, rfl⟩ e prompt
      highlighter atEnd events
    rw [LineReader.readSettingMode_of_ok highlighter atEnd prompt events given,
      session.matches.terminal.2]
    exact congrArg (·.2.calls) given.symm

theorem Editor.calls_readLine (e : Editor) (t : Terminal) (prompt : String)
    (highlighter : Option Highlighter) :
    (e.readLine t prompt highlighter).2.2.calls = t.calls ++
      if t.faults.save.isSome then [.save]
      else [.save, .set e.features.interactive, .restore t.mode] := by
  cases saving : t.faults.save with
  | some failure =>
    rw [readLine_of_save_error saving]
    rfl
  | none =>
    have session := Terminal.calls_readSettingMode e ({ t with events := [] }.call .save) prompt
      highlighter t.atEnd t.events
    rw [readLine_of_save_ok saving]
    change _ ++ [ModeCall.restore t.mode] = _
    rw [session, Terminal.call, List.append_assoc, List.append_assoc]
    rfl

/-- Reading a line on any driver, which fails to read when the inputs are used up; an input may say
nothing, and the driver's answers may be anything. If the mode cannot be saved nothing else is
called. Otherwise it is set next, and when reading has ended, however it did, the last call restores
the saved mode; no other call is to the mode. The outcome is the one before that call, whatever
restoring answers, and further inputs do not matter to it. The log of the calls changes nothing.
Reading on a terminal that plays its events is such a reading. -/
theorem readLine_restores_mode (D : Driver ε μ σ) (e : Editor) (s : σ) (prompt : String)
    (highlighter : Option Highlighter) (atEnd : IoError) (inputs : List ε) :
    let interactive := e.features.interactive
    let out := D.logged.reader.readLine highlighter atEnd e ⟨s, []⟩ prompt inputs
    (∀ failure s', D.saveMode s = (.error failure, s') →
      out = ⟨.error failure, e, ⟨s', [.save]⟩, inputs⟩) ∧
    (∀ saved s', D.saveMode s = (.ok saved, s') →
      let reached := D.logged.reader.readSettingMode highlighter atEnd e ⟨s', [.save]⟩ prompt inputs
      (∃ calls, reached.terminal.calls = .save :: .set interactive :: calls ∧
        (∀ c ∈ calls, c.isMode = false) ∧
        ∀ failure s'', D.setMode s' interactive = (.error failure, s'') →
          reached.result = .error failure ∧ calls = []) ∧
      out = { reached with
        terminal :=
          { terminal := (D.restoreMode reached.terminal.terminal saved).2
            calls := reached.terminal.calls ++ [.restore saved] } }) ∧
    (∀ restore, let D' := { D with restoreMode := restore }
      let out' := D'.logged.reader.readLine highlighter atEnd e ⟨s, []⟩ prompt inputs
      out'.result = out.result ∧ out'.editor = out.editor ∧ out'.unread = out.unread ∧
        out'.terminal.calls = out.terminal.calls) ∧
    (out.unread ≠ [] ∨ out.result ≠ .error atEnd → ∀ more atEnd',
      D.logged.reader.readLine highlighter atEnd' e ⟨s, []⟩ prompt (inputs ++ more) =
        { out with unread := out.unread ++ more }) ∧
    D.reader.readLine highlighter atEnd e s prompt inputs =
      ⟨out.result, out.editor, out.terminal.terminal, out.unread⟩ ∧
    ∀ t : Terminal,
      let start : Logged Nat Terminal := ⟨{ t with events := [] }, []⟩
      let out := Terminal.driver.logged.reader.readLine highlighter t.atEnd e start prompt t.events
      e.readLine t prompt highlighter =
          (out.result, out.editor, { out.terminal.terminal with events := out.unread }) ∧
        (e.readLine t prompt highlighter).2.2.calls = t.calls ++
          if t.faults.save.isSome then [.save] else [.save, .set interactive, .restore t.mode] := by
  intro interactive out
  refine ⟨?_, ?_, ?_, ?_, ?_, ?_⟩
  · intro failure s' given
    exact LineReader.readLine_of_save_error highlighter atEnd prompt inputs (D.logged_saveMode given)
  · intro saved s' given reached
    refine ⟨LineReader.readSettingMode_calls D highlighter atEnd e prompt inputs ⟨s', [.save]⟩, ?_⟩
    exact LineReader.readLine_of_save_ok highlighter atEnd prompt inputs (D.logged_saveMode given)
  · intro restore
    exact D.readLine_restoreMode restore ⟨s, []⟩ e prompt highlighter atEnd inputs
  · intro ended more atEnd'
    exact LineReader.readLine_append D.logged highlighter atEnd e ⟨s, []⟩ prompt inputs more atEnd'
      ended
  · exact D.readLine_logged ⟨s, []⟩ e prompt highlighter atEnd inputs
  · intro t start out
    have same := Terminal.driver.readLine_logged start e prompt highlighter t.atEnd t.events
    refine ⟨?_, e.calls_readLine t prompt highlighter⟩
    rw [Editor.readLine, LineReader.play, same]
    rfl

end LineShell
