import LineShell.Prompt.Template

/-!
Prompt templates, sign by sign. A template is read from left to right into signs, and each sign
expands on its own, whatever stands before and behind it. Where two templates are put together and
no sign reaches over the seam, their expansions are put together too.
-/

namespace LineShell.Prompt

/-- What a template is read into: a character that stands for itself, a backslash and the character
behind it, the three characters of the status, or a backslash with nothing behind it. -/
inductive Sign where
  | plain (c : Char)
  | escape (c : Char)
  | status
  | lone
  deriving DecidableEq, Repr

def Sign.raw : Sign → List Char
  | plain c => [c]
  | escape c => ['\\', c]
  | status => ['\\', 'e', 'x']
  | lone => ['\\']

/-- Reads a template from left to right; the status is the only sign of three characters. -/
def signs : List Char → List Sign
  | [] => []
  | '\\' :: 'e' :: 'x' :: cs => .status :: signs cs
  | ['\\'] => [.lone]
  | '\\' :: c :: cs => .escape c :: signs cs
  | c :: cs => .plain c :: signs cs

/-- Between two templates no sign is cut: the first does not end in a backslash that waits for a
character, nor in an escape that is the status with the first character of the second. -/
def Parted (before after : List Char) : Prop :=
  (signs before).getLast? ≠ some .lone ∧
    ¬ ((signs before).getLast? = some (.escape 'e') ∧ after.head? = some 'x')

instance (before after : List Char) : Decidable (Parted before after) :=
  inferInstanceAs (Decidable (_ ∧ _))

/-- The text with each backslash written twice. -/
def doubled (cs : List Char) : List Char :=
  cs.flatMap fun c => if c = '\\' then ['\\', '\\'] else [c]

theorem flatMap_raw_signs (cs : List Char) : (signs cs).flatMap Sign.raw = cs := by
  fun_induction signs cs with
  | case1 => rfl
  | case2 cs ih => simp [Sign.raw, ih]
  | case3 => rfl
  | case4 c cs _ ih => simp [Sign.raw, ih]
  | case5 c cs _ _ _ ih => simp [Sign.raw, ih]

section Reading

variable {c : Char} {cs before after : List Char}

theorem signs_escape (free : ∀ more, c = 'e' → cs = 'x' :: more → False) :
    signs ('\\' :: c :: cs) = .escape c :: signs cs := by
  rw [signs]
  exact free

theorem signs_plain (other : c ≠ '\\') (cs : List Char) :
    signs (c :: cs) = .plain c :: signs cs := by
  rw [signs]
  · exact fun _ same _ => other same
  · exact fun same _ => other same
  · exact fun _ _ same _ => other same

/- The last case of the reading: a backslash would be alone or have a character behind it. -/
theorem ne_backslash (lone : c = '\\' → cs = [] → False)
    (escape : ∀ d ds, c = '\\' → cs = d :: ds → False) : c ≠ '\\' := by
  intro same
  cases cs with
  | nil => exact lone same rfl
  | cons d ds => exact escape d ds same rfl

/- Parting from what follows depends on the last sign only. -/
theorem Parted.tail (parted : Parted before after) {sign : Sign}
    (first : signs before = sign :: signs cs) : Parted cs after := by
  have last : ∀ s, (signs cs).getLast? = some s → (signs before).getLast? = some s := by
    intro s ends
    rw [first, List.getLast?_cons, ends]
    rfl
  constructor
  · intro ends
    exact parted.1 (last _ ends)
  · rintro ⟨ends, starts⟩
    exact parted.2 ⟨last _ ends, starts⟩

/-- Templates that are parted are read one after the other. -/
theorem signs_append (parted : Parted before after) :
    signs (before ++ after) = signs before ++ signs after := by
  fun_induction signs before with
  | case1 => rfl
  | case2 cs ih =>
    have rest := ih (parted.tail rfl)
    exact congrArg (Sign.status :: ·) rest
  | case3 => exact absurd rfl parted.1
  | case4 c cs free ih =>
    have rest := ih (parted.tail (signs_escape free))
    -- The character behind this sign is in the first template, or it is the first of the second.
    have apart : ∀ more, c = 'e' → cs ++ after = 'x' :: more → False := by
      rintro more rfl starts
      cases cs with
      | nil =>
        have head : after.head? = some 'x' := congrArg List.head? starts
        exact parted.2 ⟨rfl, head⟩
      | cons d ds =>
        have head : d = 'x' := (List.cons.inj starts).1
        exact free ds rfl (congrArg (· :: ds) head)
    calc signs ('\\' :: c :: (cs ++ after))
        = .escape c :: signs (cs ++ after) := signs_escape apart
      _ = .escape c :: signs cs ++ signs after := congrArg (Sign.escape c :: ·) rest
  | case5 c cs _ lone escape ih =>
    have other := ne_backslash lone escape
    have rest := ih (parted.tail (signs_plain other cs))
    calc signs (c :: (cs ++ after))
        = .plain c :: signs (cs ++ after) := signs_plain other (cs ++ after)
      _ = .plain c :: signs cs ++ signs after := congrArg (Sign.plain c :: ·) rest

end Reading

section Expansion

variable (env : Environment)

theorem expandChars_plain {c : Char} (other : c ≠ '\\') (cs : List Char) :
    expandChars env (c :: cs) = c.toString ++ expandChars env cs := by
  rw [expandChars]
  · exact fun _ same _ => other same
  · exact fun same _ => other same
  · exact fun _ _ same _ => other same

theorem expandChars_escape {c : Char} {cs : List Char}
    (free : ∀ more, c = 'e' → cs = 'x' :: more → False) :
    expandChars env ('\\' :: c :: cs) = expandChars env ['\\', c] ++ expandChars env cs := by
  -- The text of an escape is chosen by its letter; with any letter but these it stands for itself.
  by_cases letter : c ∈ ['u', 'h', 'w', 'e', '[', ']', '\\']
  · simp only [List.mem_cons, List.not_mem_nil, or_false] at letter
    rcases letter with rfl | rfl | rfl | rfl | rfl | rfl | rfl <;> simp_all [expandChars]
  · simp_all [expandChars]

/-- Each sign expands on its own. -/
theorem expandChars_signs (cs : List Char) :
    expandChars env cs = String.join ((signs cs).map fun sign => expandChars env sign.raw) := by
  fun_induction signs cs with
  | case1 => rfl
  | case2 cs ih =>
    rw [List.map_cons, String.join_cons, ← ih]
    simp [expandChars, Sign.raw]
  | case3 => simp [expandChars, Sign.raw, String.join_cons]
  | case4 c cs free ih =>
    rw [List.map_cons, String.join_cons, ← ih]
    exact expandChars_escape env free
  | case5 c cs _ lone escape ih =>
    have other := ne_backslash lone escape
    have alone : expandChars env [c] = c.toString := by
      rw [expandChars_plain env other, expandChars, String.append_empty]
    rw [List.map_cons, String.join_cons, ← ih, Sign.raw, alone]
    exact expandChars_plain env other cs

theorem expandChars_append {before after : List Char} (parted : Parted before after) :
    expandChars env (before ++ after) = expandChars env before ++ expandChars env after := by
  rw [expandChars_signs, signs_append parted, List.map_append, String.join_append,
    ← expandChars_signs, ← expandChars_signs]

/- What an escape puts in does not depend on what stands around it. -/
theorem expand_around {c : Char} (other : c ≠ 'e') {value : String}
    (alone : expandChars env ['\\', c] = value) {before : String}
    (whole : (signs before.toList).getLast? ≠ some .lone) (after : String) :
    expand env (before ++ String.ofList ['\\', c] ++ after) =
      expand env before ++ value ++ expand env after := by
  have parted : Parted before.toList ('\\' :: c :: after.toList) := by
    refine ⟨whole, ?_⟩
    rintro ⟨-, starts⟩
    cases starts
  have text : (before ++ String.ofList ['\\', c] ++ after).toList =
      before.toList ++ '\\' :: c :: after.toList := by
    simp only [String.toList_append, String.toList_ofList, List.append_assoc, List.cons_append,
      List.nil_append]
  rw [expand, text, expandChars_append env parted,
    expandChars_escape env fun _ same _ => other same, alone, String.append_assoc]
  rfl

theorem expandChars_doubled (cs : List Char) : expandChars env (doubled cs) = String.ofList cs := by
  induction cs with
  | nil => rfl
  | cons c cs ih =>
    have first : String.ofList (c :: cs) = c.toString ++ String.ofList cs := by
      rw [← List.singleton_append, String.ofList_append]
      rfl
    rw [first, ← ih]
    by_cases backslash : c = '\\'
    · have twice : doubled (c :: cs) = '\\' :: '\\' :: doubled cs := by simp [doubled, backslash]
      rw [twice, backslash, expandChars]
      rfl
    · have once : doubled (c :: cs) = c :: doubled cs := by simp [doubled, backslash]
      rw [once]
      exact expandChars_plain env backslash (doubled cs)

end Expansion

/-- A template is its signs, and each of them expands on its own. So templates that are parted
expand on their own, a value is put in as it is, and a text with all backslashes doubled expands to
the text. -/
theorem expand_composes (env : Environment) :
    (∀ template : String,
      (signs template.toList).flatMap Sign.raw = template.toList ∧
        expand env template =
          String.join ((signs template.toList).map fun sign => expandChars env sign.raw)) ∧
      (∀ before after : String, Parted before.toList after.toList →
        expand env (before ++ after) = expand env before ++ expand env after) ∧
      (∀ before after : String, (signs before.toList).getLast? ≠ some .lone →
        expand env (before ++ "\\u" ++ after) =
            expand env before ++ (env.get? "USER").getD "" ++ expand env after ∧
          expand env (before ++ "\\h" ++ after) =
            expand env before ++ (env.get? "HOSTNAME").getD "" ++ expand env after ∧
          expand env (before ++ "\\w" ++ after) =
            expand env before ++ env.shownDir ++ expand env after) ∧
      ∀ text : String, expand env (String.ofList (doubled text.toList)) = text := by
  refine ⟨?_, ?_, ?_, ?_⟩
  · intro template
    exact ⟨flatMap_raw_signs _, expandChars_signs env _⟩
  · intro before after parted
    rw [expand, String.toList_append]
    exact expandChars_append env parted
  · intro before after whole
    refine ⟨?_, ?_, ?_⟩
    · exact expand_around env (by decide) String.append_empty whole after
    · exact expand_around env (by decide) String.append_empty whole after
    · exact expand_around env (by decide) String.append_empty whole after
  · intro text
    rw [expand, String.toList_ofList, expandChars_doubled, String.ofList_toList]

/- Values that look like templates, behind an escape that is part of the status before an `x`. -/
theorem expand_composes_nested :
    let value (text : String) : Variable := ⟨text, false⟩
    let globals : Scope :=
      ⟨[("USER", value "\\h\\"), ("HOSTNAME", value "\\w"), ("PWD", value "\\\\ex")]⟩
    let env : Environment := { Environment.empty with globals := globals, lastStatus := 3 }
    let before := "\\\\\\e"
    let after := "[\\ex"
    Parted before.toList after.toList ∧ ¬ Parted before.toList "x".toList ∧
      expand env (before ++ after) = "\\\x1b[3" ∧
      expand env (before ++ "\\u" ++ after) = "\\\x1b\\h\\[3" ∧
      expand env (before ++ "\\h" ++ "x") = "\\\x1b\\wx" ∧
      expand env (before ++ "\\w" ++ "x") = "\\\x1b\\\\exx" ∧
      expand env "\\\\\\\\e\\\\u" = "\\\\e\\u" := by
  intro value globals env before after
  have parted : Parted before.toList after.toList := by decide
  have first : expand env before = "\\\x1b" := by decide +kernel
  have second : expand env after = "[3" := by decide +kernel
  obtain ⟨-, append, around, double⟩ := expand_composes env
  refine ⟨parted, by decide, ?_, ?_, ?_, ?_, ?_⟩
  · rw [append before after parted, first, second]
    rfl
  · rw [(around before after parted.1).1, first, second]
    decide
  · rw [(around before "x" parted.1).2.1, first]
    decide
  · rw [(around before "x" parted.1).2.2, first]
    decide
  · exact double "\\\\e\\u"

/- A sign that reaches over the seam. -/
example : expand .empty ("\\e" ++ "x") = "0" ∧
    expand .empty "\\e" ++ expand .empty "x" = "\x1bx" := by
  decide

end LineShell.Prompt
