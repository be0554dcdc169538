import LineShell.Editor.ReadLine

/-!
How reading a line goes on: what one call to the terminal decides, and the equations of the steps, of
one round of the loop, and of the mode calls around it, for any terminal.
-/

namespace LineShell

namespace LineReader

variable {m : Type → Type} [Monad m] {ε μ σ α : Type} {call : σ → Except IoError α × σ}
  {r : Reading σ} {s : σ}

theorem ask_ok {a : α} (given : call r.terminal = (.ok a, s))
    (next : α → Reading σ → m (Progress σ)) :
    ask r call next = next a { r with terminal := s } := by
  rw [ask, given]

theorem ask_error {e : IoError} (given : call r.terminal = (.error e, s))
    (next : α → Reading σ → m (Progress σ)) :
    ask r call next = pure (.done (.error e) { r with terminal := s }) := by
  rw [ask, given]

section Steps

variable (D : Driver ε μ σ) (r : Reading σ)

theorem draw_eq_send (highlighter : Option Highlighter) :
    D.reader.draw r highlighter =
      let line := r.editor.line
      let decorated := r.editor.decorate highlighter
      D.reader.send r (Screen.draw r.prompt r.width decorated.1 line decorated.2 r.drawn) fun r =>
        .going { r with drawn := some ⟨line.length, line.cursor, decorated.2.isSome⟩ } := rfl

theorem leave_eq_send (next : Reading σ → Progress σ) :
    D.reader.leave r next =
      D.reader.send r (Screen.leave r.prompt.length r.width r.drawn) next := rfl

theorem press_eq_respond (key : Key) :
    D.reader.press r key = D.reader.respond r (r.editor.request key) := rfl

theorem respond_enter :
    D.reader.respond r .enter = D.reader.leave r fun r =>
      .done (.ok r.editor.joined) { r with editor := r.editor.commit } := rfl

theorem start_eq_showPrompt (e : Editor) (s : σ) (prompt : Prompt.Parts) :
    D.reader.start e s prompt =
      D.reader.showPrompt ⟨e.clear, s, 0, prompt, none⟩ prompt fun r =>
        .going (D.reader.measure r) := rfl

end Steps

/- One round of a reading that has been drawn. -/
section Rounds

variable {D : Driver ε μ σ} {r' r'' : Reading σ} {highlighter : Option Highlighter}
  {result : Except IoError String} {atEnd : IoError} {input : ε}

theorem run_stopped (drawn : D.reader.draw r highlighter = .done result r') (inputs : List ε) :
    D.reader.run highlighter atEnd r inputs = ⟨result, r', inputs⟩ := by
  cases inputs <;> rw [run, drawn] <;> rfl

theorem run_nil (drawn : D.reader.draw r highlighter = .going r') :
    D.reader.run highlighter atEnd r [] = ⟨.error atEnd, r', []⟩ := by
  rw [run, drawn]
  rfl

theorem run_cons_done (drawn : D.reader.draw r highlighter = .going r')
    (received : D.reader.receive r' input = .done result r'') (rest : List ε) :
    D.reader.run highlighter atEnd r (input :: rest) = ⟨result, r'', rest⟩ := by
  simp only [run, drawn, received, bind]
  rfl

theorem run_cons_going (drawn : D.reader.draw r highlighter = .going r')
    (received : D.reader.receive r' input = .going r'') (rest : List ε) :
    D.reader.run highlighter atEnd r (input :: rest) =
      D.reader.run highlighter atEnd r'' rest := by
  simp only [run, drawn, received, bind]

end Rounds

/- How the mode calls that come first decide what is left to do. -/
section Modes

variable {D : Driver ε μ σ} {s s' : σ} {e : Editor} {failure : IoError} {saved : μ}
  (highlighter : Option Highlighter) (atEnd : IoError) (prompt : String) (inputs : List ε)

theorem readLine_of_save_error (failed : D.saveMode s = (.error failure, s')) :
    D.reader.readLine highlighter atEnd e s prompt inputs = ⟨.error failure, e, s', inputs⟩ := by
  rw [readLine, failed]
  rfl

theorem readLine_of_save_ok (given : D.saveMode s = (.ok saved, s')) :
    D.reader.readLine highlighter atEnd e s prompt inputs =
      let out := D.reader.readSettingMode highlighter atEnd e s' prompt inputs
      { out with terminal := (D.restoreMode out.terminal saved).2 } := by
  rw [readLine, given]
  rfl

theorem readSettingMode_of_error
    (failed : D.setMode s e.features.interactive = (.error failure, s')) :
    D.reader.readSettingMode highlighter atEnd e s prompt inputs =
      ⟨.error failure, e, s', inputs⟩ := by
  rw [readSettingMode, failed]
  rfl

theorem readSettingMode_of_ok (set : D.setMode s e.features.interactive = (.ok (), s')) :
    D.reader.readSettingMode highlighter atEnd e s prompt inputs =
      D.reader.readInMode highlighter atEnd e s' prompt inputs := by
  rw [readSettingMode, set]

theorem readInMode_of_done {result : Except IoError String} {r : Reading σ}
    (shown : D.reader.start e s (Prompt.split prompt) = .done result r) :
    D.reader.readInMode highlighter atEnd e s prompt inputs =
      ⟨result, r.editor, r.terminal, inputs⟩ := by
  simp only [readInMode, shown, bind]
  rfl

theorem readInMode_of_going {r : Reading σ}
    (shown : D.reader.start e s (Prompt.split prompt) = .going r) :
    D.reader.readInMode highlighter atEnd e s prompt inputs =
      let f := D.reader.run highlighter atEnd r inputs
      ⟨f.result, f.reading.editor, f.reading.terminal, f.unread⟩ := by
  simp only [readInMode, shown, bind]
  rfl

end Modes

end LineReader

namespace Terminal

variable {t : Terminal} {failure : IoError}

theorem saveMode_ok (saves : t.faults.save = none) : t.saveMode = (.ok t.mode, t.call .save) := by
  rw [saveMode, saves, answer]

theorem saveMode_error (fault : t.faults.save = some failure) :
    t.saveMode = (.error failure, t.call .save) := by
  rw [saveMode, fault, answer]

theorem setMode_ok (sets : t.faults.set = none) (flowControlOff : Bool) :
    t.setMode flowControlOff = (.ok (), t.call (.set flowControlOff)) := by
  rw [setMode, sets, answer]

theorem setMode_error (fault : t.faults.set = some failure) (flowControlOff : Bool) :
    t.setMode flowControlOff = (.error failure, t.call (.set flowControlOff)) := by
  rw [setMode, fault, answer]

end Terminal

end LineShell
