import LineShell.Proofs.Inside

/-!
Reading a line in two ways: by the editor on one driver, and by a reader whose operations agree with
the editor's where the cursor is inside, on another driver. If the calls of a session have the same
answers on both drivers and keep their states related, the reader has a value for the whole session,
which is the editor's outcome, and the states stay related.
-/

namespace LineShell

variable {m : Type → Type} [Monad m] {ε μ μ' σ σ' α : Type}

/-- From related states two calls have the same answer, and they lead to related states. -/
def Alike (T : σ → σ' → Prop) (call : σ → α × σ) (call' : σ' → α × σ') : Prop :=
  ∀ s s', T s s' → (call' s').1 = (call s).1 ∧ T (call s).2 (call' s').2

theorem alike_eq (call : σ → α × σ) : Alike Eq call call := by
  rintro s _ rfl
  exact ⟨rfl, rfl⟩

/- Either both calls fail in the same way, or both give the same. -/
theorem Alike.cases {T : σ → σ' → Prop} {call : σ → Except IoError α × σ}
    {call' : σ' → Except IoError α × σ'} (alike : Alike T call call') {s : σ} {s' : σ'}
    (related : T s s') :
    (∃ e t t', call s = (.error e, t) ∧ call' s' = (.error e, t') ∧ T t t') ∨
      ∃ a t t', call s = (.ok a, t) ∧ call' s' = (.ok a, t') ∧ T t t' := by
  obtain ⟨answer, related⟩ := alike s s' related
  have given' : call' s' = ((call s).1, (call' s').2) := Prod.ext answer rfl
  cases given : (call s).1 with
  | error e =>
    rw [given] at given'
    exact .inl ⟨e, _, _, Prod.ext given rfl, given', related⟩
  | ok a =>
    rw [given] at given'
    exact .inr ⟨a, _, _, Prod.ext given rfl, given', related⟩

/-- The calls that a session makes while the mode is set are alike. -/
structure Driver.Simulates (T : σ → σ' → Prop) (D : Driver ε μ σ) (D' : Driver ε μ' σ') :
    Prop where
  write : ∀ text, Alike T (D.write · text) (D'.write · text)
  flush : Alike T D.flush D'.flush
  columns : Alike T D.columns D'.columns
  readKey : ∀ input, Alike T (D.readKey · input) (D'.readKey · input)

/-- All calls are alike, those to the mode too. -/
structure Driver.SimulatesAll (T : σ → σ' → Prop) (D : Driver ε μ σ) (D' : Driver ε μ σ') : Prop
    extends D.Simulates T D' where
  saveMode : Alike T D.saveMode D'.saveMode
  setMode : ∀ flowControlOff, Alike T (D.setMode · flowControlOff) (D'.setMode · flowControlOff)
  restoreMode : ∀ mode, Alike T (D.restoreMode · mode) (D'.restoreMode · mode)

theorem Driver.simulatesAll_self (D : Driver ε μ σ) : D.SimulatesAll Eq D where
  write _ := alike_eq _
  flush := alike_eq _
  columns := alike_eq _
  readKey _ := alike_eq _
  saveMode := alike_eq _
  setMode _ := alike_eq _
  restoreMode _ := alike_eq _

/-- Where the cursor is inside, the operations have a value, and it is the editor's. -/
structure Editor.Operations.Agrees (O : Editor.Operations m) : Prop where
  clear : ∀ e, O.clear e = pure e.clear
  request : ∀ {e : Editor}, e.Inside → ∀ key, O.request e key = pure (e.request key)
  commit : ∀ e, O.commit e = pure e.commit
  draw : ∀ prompt width shown {line : EditLine}, line.Inside → ∀ problem drawn,
    O.draw prompt width shown line problem drawn =
      pure (Screen.draw prompt width shown line problem drawn)
  leave : ∀ promptLength width {drawn : Option Drawn}, (∀ d ∈ drawn, d.cursor ≤ d.length) →
    O.leave promptLength width drawn = pure (Screen.leave promptLength width drawn)

theorem Editor.agrees_operations : Editor.operations.Agrees where
  clear _ := rfl
  request _ _ := rfl
  commit _ := rfl
  draw _ _ _ _ _ _ _ := rfl
  leave _ _ _ _ := rfl

/-- The same reading on another terminal. -/
def Reading.on (r : Reading σ) (s : σ') : Reading σ' :=
  ⟨r.editor, s, r.width, r.prompt, r.drawn⟩

/-- The value is this progress, but for related terminals. If reading goes on it goes on inside. -/
inductive Progress.Gives (T : σ → σ' → Prop) : Progress σ → m (Progress σ') → Prop where
  | going {r : Reading σ} {s : σ'} :
      r.Inside → T r.terminal s → Gives T (.going r) (pure (.going (r.on s)))
  | done {result : Except IoError String} {r : Reading σ} {s : σ'} :
      T r.terminal s → Gives T (.done result r) (pure (.done result (r.on s)))

theorem Progress.Gives.inside {T : σ → σ' → Prop} {r : Reading σ} {value : m (Progress σ')}
    (gives : Gives T (.going r) value) : r.Inside := by
  cases gives
  assumption

inductive Finished.Gives (T : σ → σ' → Prop) : Finished ε σ → m (Finished ε σ') → Prop where
  | mk {result : Except IoError String} {r : Reading σ} {s : σ'} {unread : List ε} :
      T r.terminal s → Gives T ⟨result, r, unread⟩ (pure ⟨result, r.on s, unread⟩)

inductive LineRead.Gives (T : σ → σ' → Prop) : LineRead ε σ → m (LineRead ε σ') → Prop where
  | mk {result : Except IoError String} {e : Editor} {s : σ} {s' : σ'} {unread : List ε} :
      T s s' → Gives T ⟨result, e, s, unread⟩ (pure ⟨result, e, s', unread⟩)

theorem LineRead.Gives.eq {out : LineRead ε σ} {value : m (LineRead ε σ)}
    (gives : out.Gives Eq value) : value = pure out := by
  cases gives with
  | mk same => rw [same]

structure LineRead.Matches (T : σ → σ' → Prop) (out : LineRead ε σ) (out' : LineRead ε σ') :
    Prop where
  result : out'.result = out.result
  editor : out'.editor = out.editor
  unread : out'.unread = out.unread
  terminal : T out.terminal out'.terminal

theorem LineRead.Gives.matches {T : σ → σ' → Prop} {out : LineRead ε σ} {out' : LineRead ε σ'}
    (gives : Gives (m := Id) T out out') : out.Matches T out' := by
  generalize value : (show Id (LineRead ε σ') from out') = v at gives
  cases gives with
  | mk related =>
    cases value
    exact ⟨rfl, rfl, rfl, related⟩

/-- The reader's operations and its driver are as good as those of the editor on a driver. -/
structure LineReader.Follows (T : σ → σ' → Prop) (R : LineReader m ε μ' σ') (D : Driver ε μ σ) :
    Prop where
  editing : R.editing.Agrees
  driver : D.Simulates T R.driver

theorem Driver.Simulates.follows {T : σ → σ' → Prop} {D : Driver ε μ σ} {D' : Driver ε μ' σ'}
    (simulates : D.Simulates T D') : D'.reader.Follows T D :=
  ⟨Editor.agrees_operations, simulates⟩

namespace LineReader.Follows

variable {T : σ → σ' → Prop} {D : Driver ε μ σ} {R : LineReader m ε μ' σ'} {r : Reading σ} {s : σ'}

theorem gives_ask {call : σ → Except IoError α × σ} {call' : σ' → Except IoError α × σ'}
    (alike : Alike T call call') (related : T r.terminal s)
    {next : α → Reading σ → Progress σ} {next' : α → Reading σ' → m (Progress σ')}
    (later : ∀ a t t', T t t' →
      Progress.Gives T (next a { r with terminal := t }) (next' a (r.on t'))) :
    Progress.Gives T (LineReader.ask (m := Id) r call next)
      (LineReader.ask (r.on s) call' next') := by
  rcases alike.cases related with ⟨e, t, t', given, given', related⟩ |
    ⟨a, t, t', given, given', related⟩
  · rw [LineReader.ask_error given, LineReader.ask_error (r := r.on s) given']
    exact .done related
  · rw [LineReader.ask_ok given, LineReader.ask_ok (r := r.on s) given']
    exact later a t t' related

variable (follows : R.Follows T D)

include follows

theorem measure_on (related : T r.terminal s) :
    ∃ s', T (D.reader.measure r).terminal s' ∧ R.measure (r.on s) = (D.reader.measure r).on s' := by
  obtain ⟨answer, related⟩ := follows.driver.columns r.terminal s related
  refine ⟨(R.driver.columns s).2, related, ?_⟩
  simp only [LineReader.measure, Reading.on, answer]

section Steps

variable {next : Reading σ → Progress σ} {next' : Reading σ' → m (Progress σ')}

theorem gives_write (related : T r.terminal s) (text : String)
    (later : ∀ t t', T t t' → Progress.Gives T (next { r with terminal := t }) (next' (r.on t'))) :
    Progress.Gives T (D.reader.write r text next) (R.write (r.on s) text next') :=
  gives_ask (follows.driver.write text) related fun _ => later

theorem gives_send (related : T r.terminal s) (text : String)
    (later : ∀ t t', T t t' → Progress.Gives T (next { r with terminal := t }) (next' (r.on t'))) :
    Progress.Gives T (D.reader.send r text next) (R.send (r.on s) text next') := by
  refine follows.gives_write related text fun t t' related => ?_
  exact gives_ask (r := { r with terminal := t }) follows.driver.flush related fun _ => later

theorem gives_leave [LawfulMonad m] (inside : ∀ d ∈ r.drawn, d.cursor ≤ d.length)
    (related : T r.terminal s)
    (later : ∀ t t', T t t' → Progress.Gives T (next { r with terminal := t }) (next' (r.on t'))) :
    Progress.Gives T (D.reader.leave r next) (R.leave (r.on s) next') := by
  have left := follows.editing.leave r.prompt.length r.width inside
  rw [LineReader.leave_eq_send]
  simp only [LineReader.leave, Reading.on, left, pure_bind]
  exact follows.gives_send related _ later

theorem gives_showPrompt (prompt : Prompt.Parts) (related : T r.terminal s)
    (later : ∀ t t', T t t' → Progress.Gives T
      (next { r with terminal := t, prompt := prompt, drawn := none })
      (next' ({ r with prompt := prompt, drawn := none }.on t'))) :
    Progress.Gives T (D.reader.showPrompt r prompt next) (R.showPrompt (r.on s) prompt next') :=
  follows.gives_write related prompt.head later

end Steps

variable [LawfulMonad m]

theorem gives_draw (inside : r.Inside) (related : T r.terminal s)
    (highlighter : Option Highlighter) :
    Progress.Gives T (D.reader.draw r highlighter) (R.draw (r.on s) highlighter) := by
  have drawing := follows.editing.draw r.prompt r.width (r.editor.decorate highlighter).1
    inside.editor.line (r.editor.decorate highlighter).2 r.drawn
  rw [LineReader.draw_eq_send]
  simp only [LineReader.draw, Reading.on, drawing, pure_bind]
  refine follows.gives_send related _ fun t t' related => .going ⟨inside.editor, ?_⟩ related
  rintro _ ⟨⟩
  exact inside.editor.line

theorem gives_respond (inside : r.Inside) (related : T r.terminal s) {request : Editor.Request}
    (edited : ∀ e, request = .edit e → e.Inside) :
    Progress.Gives T (D.reader.respond r request) (R.respond (r.on s) request) := by
  cases request with
  | edit e =>
    exact .going (r := { r with editor := e }) ⟨edited e rfl, inside.drawn⟩ related
  | resize =>
    obtain ⟨s', related, same⟩ := follows.measure_on related
    simp only [LineReader.respond, same]
    exact .going ⟨inside.editor, inside.drawn⟩ related
  | continueRow =>
    -- The cursor may be out of the shortened line now, but only what was drawn before is used.
    let cut : Reading σ := { r with editor := { r.editor with line := r.editor.line.dropLast } }
    have finished : cut.editor.finishRow.Inside := ⟨Nat.le_refl 0, inside.editor.place⟩
    refine follows.gives_leave (r := cut) inside.drawn related fun t t' related => ?_
    let next : Reading σ := { cut with terminal := t, editor := cut.editor.finishRow }
    refine follows.gives_showPrompt (r := next) _ related fun t t' related => ?_
    exact .going ⟨finished, by rintro _ ⟨⟩⟩ related
  | enter =>
    refine follows.gives_leave inside.drawn related fun t t' related => ?_
    simp only [follows.editing.commit, Reading.on, pure_bind]
    exact .done related
  | endOfInput => exact follows.gives_leave inside.drawn related fun t t' related => .done related

theorem gives_press (inside : r.Inside) (related : T r.terminal s) (key : Key) :
    Progress.Gives T (D.reader.press r key) (R.press (r.on s) key) := by
  have asked := follows.editing.request inside.editor key
  rw [LineReader.press_eq_respond]
  simp only [LineReader.press, Reading.on, asked, pure_bind]
  exact follows.gives_respond inside related fun _ => inside.editor.request

theorem gives_receive (inside : r.Inside) (related : T r.terminal s) (input : ε) :
    Progress.Gives T (D.reader.receive r input) (R.receive (r.on s) input) := by
  refine gives_ask (follows.driver.readKey input) related fun key t t' related => ?_
  have inside' : { r with terminal := t }.Inside := ⟨inside.editor, inside.drawn⟩
  cases key with
  | none => exact .going inside' related
  | some key => exact follows.gives_press inside' related key

theorem gives_run (inside : r.Inside) (related : T r.terminal s)
    (highlighter : Option Highlighter) (atEnd : IoError) (inputs : List ε) :
    Finished.Gives T (D.reader.run highlighter atEnd r inputs)
      (R.run highlighter atEnd (r.on s) inputs) := by
  induction inputs generalizing r s with
  | nil =>
    have drawn := follows.gives_draw inside related highlighter
    generalize drew : D.reader.draw r highlighter = progress at drawn
    generalize drew' : R.draw (r.on s) highlighter = value at drawn
    cases drawn with
    | done related =>
      rw [LineReader.run_stopped drew]
      simp only [LineReader.run, drew', pure_bind]
      exact .mk related
    | going _ related =>
      rw [LineReader.run_nil drew]
      simp only [LineReader.run, drew', pure_bind]
      exact .mk related
  | cons input rest ih =>
    have drawn := follows.gives_draw inside related highlighter
    generalize drew : D.reader.draw r highlighter = progress at drawn
    generalize drew' : R.draw (r.on s) highlighter = value at drawn
    cases drawn with
    | done related =>
      rw [LineReader.run_stopped drew]
      simp only [LineReader.run, drew', pure_bind]
      exact .mk related
    | @going r s inside related =>
      have received := follows.gives_receive inside related input
      generalize got : D.reader.receive r input = progress at received
      generalize got' : R.receive (r.on s) input = value at received
      cases received with
      | done related =>
        rw [LineReader.run_cons_done drew got]
        simp only [LineReader.run, drew', got', pure_bind]
        exact .mk related
      | going inside related =>
        rw [LineReader.run_cons_going drew got]
        simp only [LineReader.run, drew', got', pure_bind]
        exact ih inside related

theorem gives_start {t : σ} (related : T t s) (e : Editor) (prompt : Prompt.Parts) :
    Progress.Gives T (D.reader.start e t prompt) (R.start e s prompt) := by
  rw [LineReader.start_eq_showPrompt]
  simp only [LineReader.start, follows.editing.clear, pure_bind]
  refine follows.gives_showPrompt (r := ⟨e.clear, t, 0, prompt, none⟩) prompt related
    fun t t' related => ?_
  let shown : Reading σ := ⟨e.clear, t, 0, prompt, none⟩
  obtain ⟨s', related, same⟩ := follows.measure_on (r := shown) related
  exact same ▸ .going ⟨e.inside_clear, by rintro _ ⟨⟩⟩ related

variable {t : σ} (related : T t s) (e : Editor) (prompt : String)
  (highlighter : Option Highlighter) (atEnd : IoError) (inputs : List ε)

include related

/-- The session as a whole. -/
theorem gives_readInMode :
    LineRead.Gives T (D.reader.readInMode highlighter atEnd e t prompt inputs)
      (R.readInMode highlighter atEnd e s prompt inputs) := by
  have started := follows.gives_start related e (Prompt.split prompt)
  generalize shown : D.reader.start e t (Prompt.split prompt) = progress at started
  generalize shown' : R.start e s (Prompt.split prompt) = value at started
  cases started with
  | done related =>
    rw [LineReader.readInMode_of_done highlighter atEnd prompt inputs shown]
    simp only [LineReader.readInMode, shown', pure_bind]
    exact .mk related
  | @going r s inside related =>
    have finished := follows.gives_run inside related highlighter atEnd inputs
    rw [LineReader.readInMode_of_going highlighter atEnd prompt inputs shown]
    simp only [LineReader.readInMode, shown', pure_bind]
    generalize D.reader.run highlighter atEnd r inputs = f at finished
    generalize R.run highlighter atEnd (r.on s) inputs = value at finished
    cases finished with
    | mk related =>
      rw [pure_bind]
      exact .mk related

theorem gives_readSettingMode
    (set : ∀ flowControlOff,
      Alike T (D.setMode · flowControlOff) (R.driver.setMode · flowControlOff)) :
    LineRead.Gives T (D.reader.readSettingMode highlighter atEnd e t prompt inputs)
      (R.readSettingMode highlighter atEnd e s prompt inputs) := by
  rcases (set e.features.interactive).cases related with
    ⟨failure, t, t', given, given', related⟩ | ⟨_, t, t', given, given', related⟩
  · rw [LineReader.readSettingMode_of_error highlighter atEnd prompt inputs given,
      LineReader.readSettingMode, given']
    exact .mk related
  · rw [LineReader.readSettingMode_of_ok highlighter atEnd prompt inputs given,
      LineReader.readSettingMode, given']
    exact follows.gives_readInMode related e prompt highlighter atEnd inputs

end LineReader.Follows

theorem LineReader.gives_readLine [LawfulMonad m] {T : σ → σ' → Prop} {D : Driver ε μ σ}
    {R : LineReader m ε μ σ'} (editing : R.editing.Agrees) (simulates : D.SimulatesAll T R.driver)
    {s : σ} {s' : σ'} (related : T s s') (e : Editor) (prompt : String)
    (highlighter : Option Highlighter) (atEnd : IoError) (inputs : List ε) :
    LineRead.Gives T (D.reader.readLine highlighter atEnd e s prompt inputs)
      (R.readLine highlighter atEnd e s' prompt inputs) := by
  have follows : R.Follows T D := ⟨editing, simulates.toSimulates⟩
  rcases simulates.saveMode.cases related with ⟨failure, t, t', given, given', related⟩ |
    ⟨saved, t, t', given, given', related⟩
  · rw [LineReader.readLine_of_save_error highlighter atEnd prompt inputs given,
      LineReader.readLine, given']
    exact .mk related
  · have reached := follows.gives_readSettingMode related e prompt highlighter atEnd inputs
      simulates.setMode
    rw [LineReader.readLine_of_save_ok highlighter atEnd prompt inputs given]
    simp only [LineReader.readLine, given']
    generalize D.reader.readSettingMode highlighter atEnd e t prompt inputs = out at reached
    generalize R.readSettingMode highlighter atEnd e t' prompt inputs = value at reached
    cases reached with
    | mk related =>
      rw [pure_bind]
      exact .mk (simulates.restoreMode saved _ _ related).2

/- What goes on stays inside: the editor on a driver follows itself. -/
section Inside

variable {D : Driver ε μ σ} {r r' : Reading σ}

theorem Reading.Inside.draw (inside : r.Inside) {highlighter : Option Highlighter}
    (drew : D.reader.draw r highlighter = .going r') : r'.Inside := by
  have drawn := D.simulatesAll_self.follows.gives_draw inside rfl highlighter
  rw [drew] at drawn
  exact drawn.inside

theorem Reading.Inside.receive (inside : r.Inside) {input : ε}
    (got : D.reader.receive r input = .going r') : r'.Inside := by
  have received := D.simulatesAll_self.follows.gives_receive inside rfl input
  rw [got] at received
  exact received.inside

theorem Reading.inside_start {e : Editor} {s : σ} {prompt : Prompt.Parts}
    (shown : D.reader.start e s prompt = .going r) : r.Inside := by
  have started := D.simulatesAll_self.follows.gives_start (Eq.refl s) e prompt
  rw [shown] at started
  exact started.inside

end Inside

end LineShell
