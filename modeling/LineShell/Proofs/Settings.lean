import LineShell.Config
import LineShell.Proofs.Number
import Mathlib.Data.List.TakeWhile
import Mathlib.Data.String.Basic

/-!
Configs, described setting by setting. A line is ignored, or gives a value to one setting, or is
wrong. A text is refused at its first wrong line; otherwise every setting holds what the last line
for it gives, or what it holds from the start.
-/

namespace LineShell

/-- What lines of a config can set. -/
inductive Setting where
  | prompt
  | promptError
  | promptMultiline
  | historyFile
  | historyMax
  | interactive
  | showPossibleErrors
  | syntaxHighlighting
  | var (name : String)
  deriving DecidableEq, Repr

namespace Setting

def key : Setting → String
  | .prompt => "prompt"
  | .promptError => "prompt_error"
  | .promptMultiline => "prompt_multiline"
  | .historyFile => "history_file"
  | .historyMax => "history_max"
  | .interactive => "interactive"
  | .showPossibleErrors => "show_possible_errors"
  | .syntaxHighlighting => "syntax_highlighting"
  | .var name => "env." ++ name

@[reducible] def Value : Setting → Type
  | .prompt | .promptError | .promptMultiline | .var _ => String
  | .historyFile => Option String
  | .historyMax => Nat
  | .interactive | .showPossibleErrors | .syntaxHighlighting => Bool

/-- A word that turns something on or off. -/
def Switch (word : String) (on : Bool) : Prop :=
  word ∈ (if on then ["true", "yes", "on", "1"] else ["false", "no", "off", "0"])

/-- The text behind the equals sign is acceptable and stands for the value. -/
def Means : (s : Setting) → String → s.Value → Prop
  | .prompt, text, value | .promptError, text, value | .promptMultiline, text, value =>
    value = text
  | .historyFile, text, file => file = if Text.trim text = "" then none else some (Text.trim text)
  | .historyMax, text, number => Text.Word64 (Text.trim text) number
  | .interactive, text, on | .showPossibleErrors, text, on | .syntaxHighlighting, text, on =>
    Switch (Text.trim text) on
  | .var name, text, value => name ≠ "" ∧ value = text

def orProblem {α : Type} (problem : ConfigProblem) : Option α → Except ConfigProblem α
  | some value => .ok value
  | none => .error problem

/-- Reads the text behind the equals sign. -/
def read : (s : Setting) → String → Except ConfigProblem s.Value
  | .prompt, text | .promptError, text | .promptMultiline, text => .ok text
  | .historyFile, text => .ok (if Text.trim text = "" then none else some (Text.trim text))
  | .historyMax, text =>
    orProblem (.invalidNumber (Text.trim text)) (Text.word64? (Text.trim text))
  | .interactive, text | .showPossibleErrors, text | .syntaxHighlighting, text =>
    orProblem (.invalidBoolean (Text.trim text)) (Config.parseBool? text)
  | .var name, text => if name = "" then .error .emptyVariableName else .ok text

/-- The setting that a key stands for, if it stands for any. -/
def ofKey : String → Setting
  | "prompt" => .prompt
  | "prompt_error" => .promptError
  | "prompt_multiline" => .promptMultiline
  | "history_file" => .historyFile
  | "history_max" => .historyMax
  | "interactive" => .interactive
  | "show_possible_errors" => .showPossibleErrors
  | "syntax_highlighting" => .syntaxHighlighting
  | key => .var (String.ofList (key.toList.drop Config.variableMark.length))

theorem toList_key_var (name : String) :
    (var name).key.toList = Config.variableMark ++ name.toList :=
  String.toList_append

/- No other key starts like the mark. -/
theorem key_var_ne (name : String) {key : String} (other : key.toList.head? ≠ some 'e') :
    (var name).key ≠ key := by
  rintro rfl
  apply other
  rw [toList_key_var]
  rfl

theorem ofKey_key (s : Setting) : ofKey s.key = s := by
  cases s with
  | var name =>
    unfold ofKey
    split
    case h_9 => rw [toList_key_var, List.drop_left, String.ofList_toList]
    all_goals
      rename_i same
      exact absurd same (key_var_ne name (by decide))
  | _ => rfl

theorem key_injective {s s' : Setting} (same : s.key = s'.key) : s = s' := by
  have settings := congrArg ofKey same
  rw [ofKey_key, ofKey_key] at settings
  exact settings

theorem switch_iff {text : String} {on : Bool} :
    Config.parseBool? text = some on ↔ Switch (Text.trim text) on := by
  unfold Config.parseBool? Switch
  cases on <;> grind

theorem orProblem_eq_ok_iff {α : Type} {problem : ConfigProblem} {found : Option α} {value : α} :
    orProblem problem found = .ok value ↔ found = some value := by
  cases found <;> simp [orProblem]

theorem ok_eq_ok_iff {α : Type} {given value : α} :
    (Except.ok given : Except ConfigProblem α) = .ok value ↔ value = given := by
  rw [Except.ok.injEq]
  exact eq_comm

theorem read_eq_ok_iff {s : Setting} {text : String} {value : s.Value} :
    s.read text = .ok value ↔ s.Means text value := by
  cases s with
  | prompt | promptError | promptMultiline | historyFile => exact ok_eq_ok_iff
  | historyMax =>
    dsimp only [read, Means]
    rw [orProblem_eq_ok_iff, Text.word64?_eq_some_iff]
  | interactive | showPossibleErrors | syntaxHighlighting =>
    dsimp only [read, Means]
    rw [orProblem_eq_ok_iff, switch_iff]
  | var name =>
    rw [read, Means]
    by_cases empty : name = ""
    · simp [empty]
    · rw [if_neg empty, and_iff_right empty]
      exact ok_eq_ok_iff

end Setting

namespace Config

/-- What a setting holds; a variable that is not set holds nothing. -/
def get? (c : Config) : (s : Setting) → Option s.Value
  | .prompt => some c.prompt
  | .promptError => some c.promptError
  | .promptMultiline => some c.promptMultiline
  | .historyFile => some c.historyFile
  | .historyMax => some c.historyMax
  | .interactive => some c.interactive
  | .showPossibleErrors => some c.showPossibleErrors
  | .syntaxHighlighting => some c.syntaxHighlighting
  | .var name => c.vars.lookup name

def put (c : Config) : (s : Setting) → s.Value → Config
  | .prompt, text => { c with prompt := text }
  | .promptError, text => { c with promptError := text }
  | .promptMultiline, text => { c with promptMultiline := text }
  | .historyFile, file => { c with historyFile := file }
  | .historyMax, number => { c with historyMax := number }
  | .interactive, on => { c with interactive := on }
  | .showPossibleErrors, on => { c with showPossibleErrors := on }
  | .syntaxHighlighting, on => { c with syntaxHighlighting := on }
  | .var name, text => { c with vars := putVariable name text c.vars }

/-- Blank, or with a hash sign behind nothing but white space. -/
def Ignored (line : String) : Prop :=
  (∀ c ∈ line.toList, Text.isSpace c = true) ∨
    ∃ spaces rest, line.toList = spaces ++ '#' :: rest ∧ ∀ c ∈ spaces, Text.isSpace c = true

/-- The key of a line and the text behind its first equals sign. -/
def Divides (line key text : String) : Prop :=
  ∃ before, line.toList = before ++ '=' :: text.toList ∧ '=' ∉ before ∧
    key = String.ofList (Text.trimChars before)

/-- The line is well formed and gives a setting a value. -/
structure Gives (line : String) (s : Setting) (value : s.Value) : Prop where
  read : ¬ Ignored line
  means : ∃ text, Divides line s.key text ∧ s.Means text value

def WellFormed (line : String) : Prop :=
  ∃ s value, Gives line s value

/-- The key does not have the mark of a variable twice. -/
def MarkedOnce (line : String) : Prop :=
  ∀ key text, Divides line key text → ¬ "env.env.".toList <+: key.toList

/-- What a setting holds behind some lines: the value of the last line for it, or what it held. -/
inductive Settles (s : Setting) (held : Option s.Value) : List String → Option s.Value → Prop where
  | kept {lines : List String} : (∀ line ∈ lines, ∀ value, ¬ Gives line s value) →
      Settles s held lines held
  | given (front : List String) {back : List String} {line : String} {value : s.Value} :
      Gives line s value → (∀ later ∈ back, ∀ other, ¬ Gives later s other) →
      Settles s held (front ++ line :: back) (some value)

section Variables

theorem lookup_putVariable (name value : String) (vars : List (String × String))
    (other : String) :
    (putVariable name value vars).lookup other =
      if other = name then some value else vars.lookup other := by
  fun_induction putVariable name value vars with
  | case1 => exact Scope.lookup_cons name value [] other
  | case2 key old rest => exact Scope.lookup_cons name value ((key, old) :: rest) other
  | case3 old rest =>
    rw [Scope.lookup_cons, Scope.lookup_cons]
    split <;> rfl
  | case4 key old rest _ differs ih =>
    rw [Scope.lookup_cons, Scope.lookup_cons, ih]
    by_cases here : other = key
    · rw [if_pos here, if_neg (here ▸ Ne.symm differs), if_pos here]
    · rw [if_neg here, if_neg here]

theorem putVariable_of_lt {name other : String} (below : name < other) (value old : String)
    (rest : List (String × String)) :
    putVariable name value ((other, old) :: rest) = (name, value) :: (other, old) :: rest := by
  rw [putVariable, if_pos below]

theorem putVariable_self (name value old : String) (rest : List (String × String)) :
    putVariable name value ((name, old) :: rest) = (name, value) :: rest := by
  rw [putVariable, if_neg (lt_irrefl name), if_pos rfl]

theorem putVariable_of_gt {name other : String} (above : other < name) (value old : String)
    (rest : List (String × String)) :
    putVariable name value ((other, old) :: rest) = (other, old) :: putVariable name value rest := by
  rw [putVariable, if_neg (lt_asymm above), if_neg (ne_of_gt above)]

theorem putVariable_comm_of_lt {a b : String} (below : a < b) (x y : String)
    (vars : List (String × String)) :
    putVariable a x (putVariable b y vars) = putVariable b y (putVariable a x vars) := by
  induction vars with
  | nil =>
    simp only [putVariable]
    rw [if_pos below, if_neg (lt_asymm below), if_neg (ne_of_gt below)]
  | cons first rest ih =>
    obtain ⟨key, old⟩ := first
    rcases lt_trichotomy a key with before | rfl | behind
    · -- The new front entry is in front of whatever the other name makes of the list.
      rw [putVariable_of_lt before, putVariable_of_gt below]
      rcases lt_trichotomy b key with other | rfl | other
      · rw [putVariable_of_lt other, putVariable_of_lt below]
      · rw [putVariable_self, putVariable_of_lt below]
      · rw [putVariable_of_gt other, putVariable_of_lt before]
    · rw [putVariable_of_gt below, putVariable_self, putVariable_self, putVariable_of_gt below]
    · have other : key < b := lt_trans behind below
      rw [putVariable_of_gt other, putVariable_of_gt behind, putVariable_of_gt behind,
        putVariable_of_gt other, ih]

/- Names stand where the order puts them, so it does not matter which comes first. -/
theorem putVariable_comm {a b : String} (differ : a ≠ b) (x y : String)
    (vars : List (String × String)) :
    putVariable a x (putVariable b y vars) = putVariable b y (putVariable a x vars) := by
  rcases lt_or_gt_of_ne differ with below | above
  · exact putVariable_comm_of_lt below x y vars
  · exact (putVariable_comm_of_lt above y x vars).symm

theorem mem_putVariable {name value : String} {vars : List (String × String)}
    {entry : String × String} (member : entry ∈ putVariable name value vars) :
    entry = (name, value) ∨ entry ∈ vars := by
  fun_induction putVariable name value vars with
  | case1 => exact .inl (List.mem_singleton.mp member)
  | case2 key old rest => exact List.mem_cons.mp member
  | case3 old rest => exact (List.mem_cons.mp member).imp_right (List.mem_cons_of_mem _)
  | case4 key old rest _ _ ih =>
    rcases List.mem_cons.mp member with rfl | member
    · exact .inr List.mem_cons_self
    · exact (ih member).imp_right (List.mem_cons_of_mem _)

def Ascending (c : Config) : Prop :=
  c.vars.Pairwise fun a b => a.1 < b.1

theorem ascending_putVariable (name value : String) {vars : List (String × String)}
    (ascending : vars.Pairwise fun a b => a.1 < b.1) :
    (putVariable name value vars).Pairwise fun a b => a.1 < b.1 := by
  fun_induction putVariable name value vars with
  | case1 => exact List.pairwise_singleton _ _
  | case2 key old rest below =>
    refine List.pairwise_cons.mpr ⟨?_, ascending⟩
    intro entry member
    rcases List.mem_cons.mp member with rfl | member
    · exact below
    · exact lt_trans below (List.rel_of_pairwise_cons ascending member)
  | case3 old rest => exact List.pairwise_cons.mpr (List.pairwise_cons.mp ascending)
  | case4 key old rest above differs ih =>
    obtain ⟨first, tail⟩ := List.pairwise_cons.mp ascending
    refine List.pairwise_cons.mpr ⟨?_, ih tail⟩
    intro entry member
    rcases mem_putVariable member with rfl | member
    · exact lt_of_le_of_ne (not_lt.mp above) (Ne.symm differs)
    · exact first entry member

end Variables

section Putting

variable (c : Config) {s s' : Setting}

theorem get?_put (value : s.Value) : (c.put s value).get? s = some value := by
  cases s with
  | var name => exact (lookup_putVariable name value c.vars name).trans (if_pos rfl)
  | _ => rfl

theorem get?_put_of_ne (differ : s ≠ s') (value : s.Value) :
    (c.put s value).get? s' = c.get? s' := by
  cases s with
  | var name =>
    cases s' with
    | var other =>
      have others : other ≠ name := fun same => differ (congrArg _ same.symm)
      exact (lookup_putVariable name value c.vars other).trans (if_neg others)
    | _ => rfl
  | _ => cases s' <;> simp_all [put, get?]

theorem put_comm (differ : s ≠ s') (value : s.Value) (value' : s'.Value) :
    (c.put s value).put s' value' = (c.put s' value').put s value := by
  cases s with
  | var name =>
    cases s' with
    | var other =>
      have others : other ≠ name := fun same => differ (congrArg _ same.symm)
      exact congrArg (fun vars => { c with vars := vars })
        (putVariable_comm others value' value c.vars)
    | _ => rfl
  | _ => cases s' <;> simp_all [put]

theorem Ascending.put {c : Config} (ascending : c.Ascending) (value : s.Value) :
    (c.put s value).Ascending := by
  cases s with
  | var name => exact ascending_putVariable name value ascending
  | _ => exact ascending

end Putting

section Lines

variable {c c' : Config} {line key text : String} {s s' : Setting}

theorem isIgnored_iff (line : String) : isIgnored line.toList = true ↔ Ignored line := by
  have whole := List.takeWhile_append_dropWhile (p := Text.isSpace) (l := line.toList)
  have spaces : ∀ c ∈ line.toList.takeWhile Text.isSpace, Text.isSpace c = true :=
    fun c member => List.mem_takeWhile_imp member
  unfold isIgnored Text.trimStartChars
  constructor
  · intro ignored
    cases behind : line.toList.dropWhile Text.isSpace with
    | nil =>
      rw [behind, List.append_nil] at whole
      rw [whole] at spaces
      exact .inl spaces
    | cons c rest =>
      have hash : c = '#' := by simpa [behind] using ignored
      rw [behind, hash] at whole
      exact .inr ⟨_, rest, whole.symm, spaces⟩
  · rintro (blank | ⟨front, rest, parts, blank⟩)
    · rw [List.dropWhile_eq_nil_iff.mpr blank]
      rfl
    · rw [parts, List.dropWhile_append_of_pos blank]
      rfl

theorem divides_iff :
    Divides line key text ↔
      line.toList.dropWhile (· ≠ '=') = '=' :: text.toList ∧
        key = String.ofList (Text.trimChars (line.toList.takeWhile (· ≠ '='))) := by
  constructor
  · rintro ⟨before, parts, free, rfl⟩
    have other : ∀ c ∈ before, decide (c ≠ '=') = true := by
      intro c member
      apply decide_eq_true
      rintro rfl
      exact free member
    rw [parts, List.dropWhile_append_of_pos other, List.takeWhile_append_of_pos other]
    simp
  · rintro ⟨behind, rfl⟩
    refine ⟨line.toList.takeWhile (· ≠ '='), ?_, ?_, rfl⟩
    · rw [← behind, List.takeWhile_append_dropWhile]
    · intro member
      simpa using List.mem_takeWhile_imp member

theorem Divides.unique {key' text' : String} (h : Divides line key text)
    (h' : Divides line key' text') : key = key' ∧ text = text' := by
  rw [divides_iff] at h h'
  have tails := h.1.symm.trans h'.1
  exact ⟨h.2.trans h'.2.symm, String.toList_inj.mp (List.cons.inj tails).2⟩

theorem markedOnce_of_plain
    (plain : ¬ "env.env.".toList <+: Text.trimChars (line.toList.takeWhile (· ≠ '='))) :
    MarkedOnce line := by
  intro key text divides
  have same := congrArg String.toList (divides_iff.mp divides).2
  rw [String.toList_ofList] at same
  rw [same]
  exact plain

theorem applyLine_of_ignored (ignored : Ignored line) : c.applyLine line = .ok c := by
  simp only [applyLine, if_pos ((isIgnored_iff line).mpr ignored)]

theorem applyLine_of_divides (read : ¬ Ignored line) (divides : Divides line key text) :
    c.applyLine line = c.set key text := by
  obtain ⟨behind, rfl⟩ := divides_iff.mp divides
  simp only [applyLine, if_neg fun h => read ((isIgnored_iff line).mp h), behind,
    String.ofList_toList]

theorem divides_of_applyLine (read : ¬ Ignored line) (done : c.applyLine line = .ok c') :
    ∃ key text, Divides line key text := by
  simp only [applyLine, if_neg fun h => read ((isIgnored_iff line).mp h)] at done
  cases behind : line.toList.dropWhile (· ≠ '=') with
  | nil =>
    rw [behind] at done
    cases done
  | cons d rest =>
    have equals : d = '=' := by
      have stops := List.head?_dropWhile_not (fun c => decide (c ≠ '=')) line.toList
      rw [behind] at stops
      simpa using stops
    refine ⟨_, String.ofList rest, divides_iff.mpr ⟨?_, rfl⟩⟩
    rw [behind, equals, String.toList_ofList]

/- A name that is marked once is what stands behind the mark. -/
theorem dropMarks_of_once {name : List Char}
    (once : ¬ "env.env.".toList <+: variableMark ++ name) :
    dropMarks (variableMark ++ name) = name := by
  have plain : dropMarks name = name := by
    unfold dropMarks
    split
    · rename_i rest
      exact absurd ⟨rest, rfl⟩ once
    · rfl
  exact plain

theorem set_key (once : ¬ "env.env.".toList <+: s.key.toList) :
    c.set s.key text = (s.read text).map (c.put s) := by
  cases s with
  | prompt | promptError | promptMultiline | historyFile => rfl
  | historyMax =>
    dsimp only [Setting.key, set, Setting.read]
    cases Text.word64? (Text.trim text) <;> rfl
  | interactive | showPossibleErrors | syntaxHighlighting =>
    dsimp only [Setting.key, set, Setting.read]
    cases parseBool? text <;> rfl
  | var name =>
    have marked := Setting.toList_key_var name
    dsimp only [set]
    split
    case h_9 =>
      have here : variableMark.isPrefixOf (variableMark ++ name.toList) = true :=
        List.isPrefixOf_iff_prefix.mpr (List.prefix_append _ _)
      rw [marked] at once ⊢
      rw [if_pos here, dropMarks_of_once once, String.ofList_toList, Setting.read]
      by_cases empty : name = ""
      · rw [if_pos empty, if_pos empty]
        rfl
      · rw [if_neg empty, if_neg empty]
        rfl
    all_goals
      rename_i same
      exact absurd same (Setting.key_var_ne name (by decide))

theorem set_unknown (unknown : ∀ s : Setting, key ≠ s.key) :
    c.set key text = .error (.unknownKey key) := by
  have unmarked : variableMark.isPrefixOf key.toList = false := by
    by_contra marked
    rw [Bool.not_eq_false, List.isPrefixOf_iff_prefix] at marked
    obtain ⟨name, parts⟩ := marked
    apply unknown (.var (String.ofList name))
    rw [← String.toList_inj, ← parts, Setting.toList_key_var, String.toList_ofList]
  dsimp only [set]
  split
  · exact absurd rfl (unknown .prompt)
  · exact absurd rfl (unknown .promptError)
  · exact absurd rfl (unknown .promptMultiline)
  · exact absurd rfl (unknown .historyFile)
  · exact absurd rfl (unknown .historyMax)
  · exact absurd rfl (unknown .interactive)
  · exact absurd rfl (unknown .showPossibleErrors)
  · exact absurd rfl (unknown .syntaxHighlighting)
  · rw [unmarked]
    rfl

theorem applyLine_of_gives (once : MarkedOnce line) {value : s.Value}
    (gives : Gives line s value) : c.applyLine line = .ok (c.put s value) := by
  obtain ⟨read, text, divides, means⟩ := gives
  rw [applyLine_of_divides read divides, set_key (once _ _ divides),
    Setting.read_eq_ok_iff.mpr means]
  rfl

/-- What a line can do. -/
theorem applyLine_cases (once : MarkedOnce line) (done : c.applyLine line = .ok c') :
    Ignored line ∧ c' = c ∨
      ∃ s, ∃ value : s.Value, Gives line s value ∧ c' = c.put s value := by
  by_cases ignored : Ignored line
  · rw [applyLine_of_ignored ignored] at done
    exact .inl ⟨ignored, (Except.ok.inj done).symm⟩
  right
  obtain ⟨key, text, divides⟩ := divides_of_applyLine ignored done
  rw [applyLine_of_divides ignored divides] at done
  by_cases known : ∃ s : Setting, key = s.key
  · obtain ⟨s, rfl⟩ := known
    rw [set_key (once _ _ divides)] at done
    cases read : s.read text with
    | error problem =>
      rw [read] at done
      cases done
    | ok value =>
      rw [read] at done
      have means := Setting.read_eq_ok_iff.mp read
      exact ⟨s, value, ⟨ignored, text, divides, means⟩, (Except.ok.inj done).symm⟩
  · rw [set_unknown fun s same => known ⟨s, same⟩] at done
    cases done

theorem applyLine_accepted (once : MarkedOnce line) (done : c.applyLine line = .ok c') :
    Ignored line ∨ WellFormed line := by
  rcases applyLine_cases once done with ⟨ignored, -⟩ | ⟨s, value, gives, -⟩
  · exact .inl ignored
  · exact .inr ⟨s, value, gives⟩

theorem applyLine_error (once : MarkedOnce line) {problem : ConfigProblem}
    (failed : c.applyLine line = .error problem) : ¬ Ignored line ∧ ¬ WellFormed line := by
  constructor
  · intro ignored
    rw [applyLine_of_ignored ignored] at failed
    cases failed
  · rintro ⟨s, value, gives⟩
    rw [applyLine_of_gives once gives] at failed
    cases failed

theorem Gives.unique {value : s.Value} {value' : s'.Value} (h : Gives line s value)
    (h' : Gives line s' value') : s = s' := by
  obtain ⟨-, text, divides, -⟩ := h
  obtain ⟨-, text', divides', -⟩ := h'
  exact Setting.key_injective (divides.unique divides').1

theorem Ignored.gives_nothing (ignored : Ignored line) (value : s.Value) :
    ¬ Gives line s value :=
  fun gives => gives.read ignored

end Lines

section Runs

variable {c c' : Config} {lines : List String} {line : String} {s : Setting}

theorem Settles.skip {held now : Option s.Value} (other : ∀ value, ¬ Gives line s value)
    (h : Settles s held lines now) : Settles s held (line :: lines) now := by
  cases h with
  | kept none => exact .kept (List.forall_mem_cons.mpr ⟨other, none⟩)
  | @given front back last value gives later =>
    exact .given (line :: front) gives later

theorem Settles.first {held now : Option s.Value} {value : s.Value} (gives : Gives line s value)
    (h : Settles s (some value) lines now) : Settles s held (line :: lines) now := by
  cases h with
  | kept none => exact .given [] gives none
  | @given front back last value gives later =>
    exact .given (line :: front) gives later

/-- The step: a line settles the setting that it gives a value, and no other. -/
theorem Settles.step (once : MarkedOnce line) (done : c.applyLine line = .ok c')
    {now : Option s.Value} (h : Settles s (c'.get? s) lines now) :
    Settles s (c.get? s) (line :: lines) now := by
  rcases applyLine_cases once done with ⟨ignored, rfl⟩ | ⟨s', value, gives, rfl⟩
  · exact h.skip ignored.gives_nothing
  · by_cases same : s' = s
    · subst same
      rw [get?_put] at h
      exact h.first gives
    · rw [get?_put_of_ne c same] at h
      exact h.skip fun other gives' => same (gives.unique gives')

/-- The run: lines that are all accepted settle every setting. -/
theorem applyLines_ok (once : ∀ line ∈ lines, MarkedOnce line) {number : Nat}
    (done : c.applyLines number lines = .ok c') :
    (∀ line ∈ lines, Ignored line ∨ WellFormed line) ∧
      (c.Ascending → c'.Ascending) ∧ ∀ s, Settles s (c.get? s) lines (c'.get? s) := by
  induction lines generalizing c number with
  | nil =>
    cases done
    exact ⟨by simp, id, fun s => .kept (by simp)⟩
  | cons line rest ih =>
    obtain ⟨first, others⟩ := List.forall_mem_cons.mp once
    rw [applyLines] at done
    cases applied : c.applyLine line with
    | error problem =>
      rw [applied] at done
      cases done
    | ok next =>
      rw [applied] at done
      obtain ⟨accepted, ascending, settled⟩ := ih others done
      refine ⟨?_, ?_, fun s => (settled s).step first applied⟩
      · exact List.forall_mem_cons.mpr ⟨applyLine_accepted first applied, accepted⟩
      · intro sorted
        apply ascending
        rcases applyLine_cases first applied with ⟨-, rfl⟩ | ⟨s, value, -, rfl⟩
        · exact sorted
        · exact sorted.put value

/-- The run: lines are refused at the first wrong one. -/
theorem applyLines_error (once : ∀ line ∈ lines, MarkedOnce line) {number : Nat}
    {e : ConfigError} (failed : c.applyLines number lines = .error e) :
    ∃ front line back problem, lines = front ++ line :: back ∧
      e = .line (number + front.length) problem ∧
      (∀ earlier ∈ front, Ignored earlier ∨ WellFormed earlier) ∧
      ¬ Ignored line ∧ ¬ WellFormed line := by
  induction lines generalizing c number with
  | nil => cases failed
  | cons line rest ih =>
    obtain ⟨first, others⟩ := List.forall_mem_cons.mp once
    rw [applyLines] at failed
    cases applied : c.applyLine line with
    | error problem =>
      rw [applied] at failed
      cases failed
      exact ⟨[], line, rest, problem, rfl, rfl, by simp, applyLine_error first applied⟩
    | ok next =>
      rw [applied] at failed
      obtain ⟨front, wrong, back, problem, rfl, rfl, accepted, refused⟩ := ih others failed
      refine ⟨line :: front, wrong, back, problem, rfl, ?_, ?_, refused⟩
      · rw [List.length_cons, Nat.add_assoc, Nat.add_comm 1]
      · exact List.forall_mem_cons.mpr ⟨applyLine_accepted first applied, accepted⟩

/-- Lines for two settings can be exchanged. -/
theorem applyLines_exchange {a b : String} (once : MarkedOnce a) (once' : MarkedOnce b)
    {s s' : Setting} {value : s.Value} {value' : s'.Value} (gives : Gives a s value)
    (gives' : Gives b s' value') (differ : s ≠ s') (front back : List String) (number : Nat) :
    c.applyLines number (front ++ a :: b :: back) =
      c.applyLines number (front ++ b :: a :: back) := by
  induction front generalizing c number with
  | nil =>
    simp only [List.nil_append, applyLines, applyLine_of_gives once gives,
      applyLine_of_gives once' gives', put_comm _ differ]
  | cons line front ih =>
    simp only [List.cons_append, applyLines]
    cases c.applyLine line with
    | error problem => rfl
    | ok next => exact ih (number + 1)

end Runs

/-- A text whose keys have the mark of a variable at most once is refused exactly if some line of it
is wrong, with the number of the first wrong line. Otherwise every setting holds what the last line
for it gives or what it holds by default, so that lines for two settings can be exchanged. -/
theorem parse_settles (source : String) (once : ∀ line ∈ Text.lines source, MarkedOnce line) :
    let lines := Text.lines source
    ((∃ e, parse source = .error e) ↔ ∃ line ∈ lines, ¬ Ignored line ∧ ¬ WellFormed line) ∧
      (∀ e, parse source = .error e → ∃ front line back problem,
        lines = front ++ line :: back ∧ e = .line (front.length + 1) problem ∧
          (∀ earlier ∈ front, Ignored earlier ∨ WellFormed earlier) ∧
          ¬ Ignored line ∧ ¬ WellFormed line) ∧
      (∀ c, parse source = .ok c →
        c.Ascending ∧ ∀ s, Settles s (default.get? s) lines (c.get? s)) ∧
      ∀ (source' a b : String) (front back : List String) (s s' : Setting) (value : s.Value)
        (value' : s'.Value),
        lines = front ++ a :: b :: back → Text.lines source' = front ++ b :: a :: back →
        Gives a s value → Gives b s' value' → s.key ≠ s'.key → parse source' = parse source := by
  intro lines
  have refused : ∀ e, parse source = .error e → ∃ front line back problem,
      lines = front ++ line :: back ∧ e = .line (front.length + 1) problem ∧
        (∀ earlier ∈ front, Ignored earlier ∨ WellFormed earlier) ∧
        ¬ Ignored line ∧ ¬ WellFormed line := by
    intro e failed
    obtain ⟨front, line, back, problem, parts, rfl, wrong⟩ := applyLines_error once failed
    exact ⟨front, line, back, problem, parts, by rw [Nat.add_comm], wrong⟩
  refine ⟨⟨?_, ?_⟩, refused, ?_, ?_⟩
  · rintro ⟨e, failed⟩
    obtain ⟨front, line, back, -, parts, -, -, wrong⟩ := refused e failed
    exact ⟨line, by simp [parts], wrong⟩
  · rintro ⟨line, member, read, wrong⟩
    cases parsed : parse source with
    | error e => exact ⟨e, rfl⟩
    | ok c => exact absurd ((applyLines_ok once parsed).1 line member) (not_or.mpr ⟨read, wrong⟩)
  · intro c parsed
    obtain ⟨-, ascending, settled⟩ := applyLines_ok once parsed
    exact ⟨ascending List.Pairwise.nil, settled⟩
  · intro source' a b front back s s' value value' parts parts' gives gives' keys
    have onceA := once a (by rw [show Text.lines source = _ from parts]; simp)
    have onceB := once b (by rw [show Text.lines source = _ from parts]; simp)
    have differ : s ≠ s' := fun same => keys (congrArg _ same)
    rw [parse, parse, parts', show Text.lines source = _ from parts]
    exact (applyLines_exchange onceA onceB gives gives' differ front back 1).symm

/- A plus sign, a carriage return, and a variable that is set twice, to a value with signs. -/
theorem parse_settles_repeated :
    let source := "env.A=1\n #=\nhistory_max = +7 \r\n\nenv.A= #=\n"
    let c : Config := { historyMax := 7, vars := [("A", " #=")] }
    (∀ line ∈ Text.lines source, MarkedOnce line) ∧ parse source = .ok c ∧
      Settles (.var "A") none (Text.lines source) (some " #=") := by
  intro source c
  have plain : ∀ line ∈ Text.lines source,
      ¬ "env.env.".toList <+: Text.trimChars (line.toList.takeWhile (· ≠ '=')) := by
    decide +kernel
  have once : ∀ line ∈ Text.lines source, MarkedOnce line :=
    fun line member => markedOnce_of_plain (plain line member)
  have parsed : parse source = .ok c := by decide +kernel
  obtain ⟨-, -, settled, -⟩ := parse_settles source once
  exact ⟨once, parsed, (settled c parsed).2 (.var "A")⟩

end Config

end LineShell
