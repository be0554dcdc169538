import LineShell.Proofs.Lines
import LineShell.Proofs.Settings

/-!
A last line of a config that gives a variable its value. The mark in front of a name is taken off as
often as it stands there, so such a line defines the name that is written in it exactly if the name
does not start with the mark.
-/

namespace LineShell.Config

/-- A variable and a value that fit in one line. -/
structure Assignment where
  name : String
  value : String
  nonempty : name ≠ ""
  plain : '=' ∉ name.toList
  trimmed : name.toList.getLast?.any Text.isSpace = false
  unbroken : '\n' ∉ name.toList ∧ '\n' ∉ value.toList
  /-- A carriage return at the end would belong to the end of the line. -/
  solid : value.toList.getLast? ≠ some '\r'

namespace Assignment

def line (a : Assignment) : String :=
  (Setting.var a.name).key ++ "=" ++ a.value

end Assignment

/-- A name without the marks in front of it. -/
def unmarked (name : String) : String :=
  String.ofList (dropMarks name.toList)

def Marked (name : String) : Prop :=
  variableMark <+: name.toList

instance (name : String) : Decidable (Marked name) :=
  inferInstanceAs (Decidable (variableMark <+: name.toList))

/-- One variable gets a value, all other settings stay, and the variable is created unexported
wherever the config is applied. -/
structure Defines (c c' : Config) (name value : String) : Prop where
  given : c'.get? (.var name) = some value
  others : ∀ s, s ≠ .var name → c'.get? s = c.get? s
  applied : ∀ env, (c'.apply env).globals.find? name = some ⟨value, false⟩

/-- What every config is that has been read. -/
structure Tidy (c : Config) : Prop where
  ascending : c.Ascending
  unmarked : ∀ entry ∈ c.vars, ¬ Marked entry.1

section Marks

theorem not_prefix_dropMarks (cs : List Char) : ¬ variableMark <+: dropMarks cs := by
  fun_induction dropMarks cs with
  | case1 rest ih => exact ih
  | case2 name other =>
    rintro ⟨rest, rfl⟩
    exact other rest rfl

theorem not_marked_unmarked (name : String) : ¬ Marked (unmarked name) := by
  rw [Marked, unmarked, String.toList_ofList]
  exact not_prefix_dropMarks _

theorem unmarked_eq_self_iff (name : String) : unmarked name = name ↔ ¬ Marked name := by
  constructor
  · intro same
    rw [← same]
    exact not_marked_unmarked name
  · intro once
    have kept : dropMarks name.toList = name.toList := by
      unfold dropMarks
      split
      · rename_i rest same
        exact absurd ⟨rest, same.symm⟩ once
      · rfl
    rw [unmarked, kept, String.ofList_toList]

end Marks

section Keys

variable {c c' : Config} {line key text : String}

theorem set_var (c : Config) (name text : String) :
    c.set (Setting.var name).key text =
      if unmarked name = "" then .error .emptyVariableName
      else .ok (c.put (.var (unmarked name)) text) := by
  have marked := Setting.toList_key_var name
  dsimp only [set]
  split
  case h_9 =>
    have here : variableMark.isPrefixOf (variableMark ++ name.toList) = true :=
      List.isPrefixOf_iff_prefix.mpr (List.prefix_append _ _)
    rw [marked, if_pos here]
    rfl
  all_goals
    rename_i same
    exact absurd same (Setting.key_var_ne name (by decide))

theorem put_of_read {s : Setting} (done : (s.read text).map (c.put s) = .ok c') :
    ∃ value, c' = c.put s value := by
  cases read : s.read text with
  | error problem =>
    rw [read] at done
    cases done
  | ok value =>
    rw [read] at done
    exact ⟨value, (Except.ok.inj done).symm⟩

/-- A key gives a value to a setting, and never to a variable whose name is marked. -/
theorem set_cases (done : c.set key text = .ok c') :
    ∃ s, (∀ name, s = .var name → ¬ Marked name) ∧ ∃ value, c' = c.put s value := by
  by_cases known : ∃ s : Setting, key = s.key
  · obtain ⟨s, rfl⟩ := known
    cases s with
    | var name =>
      rw [set_var] at done
      split at done
      · cases done
      · refine ⟨.var (unmarked name), ?_, text, (Except.ok.inj done).symm⟩
        rintro _ ⟨⟩
        exact not_marked_unmarked name
    | _ =>
      rw [set_key (by decide)] at done
      exact ⟨_, by simp, put_of_read done⟩
  · rw [set_unknown fun s same => known ⟨s, same⟩] at done
    cases done

theorem Tidy.put {s : Setting} (tidy : c.Tidy) (plain : ∀ name, s = .var name → ¬ Marked name)
    (value : s.Value) : (c.put s value).Tidy := by
  refine ⟨tidy.ascending.put value, ?_⟩
  cases s with
  | var name =>
    intro entry member
    rcases mem_putVariable member with rfl | old
    · exact plain name rfl
    · exact tidy.unmarked entry old
  | _ => exact tidy.unmarked

/-- The step: one line. -/
theorem Tidy.applyLine (tidy : c.Tidy) (done : c.applyLine line = .ok c') : c'.Tidy := by
  by_cases ignored : Ignored line
  · rw [applyLine_of_ignored ignored] at done
    cases done
    exact tidy
  · obtain ⟨key, text, divides⟩ := divides_of_applyLine ignored done
    rw [applyLine_of_divides ignored divides] at done
    obtain ⟨s, plain, value, rfl⟩ := set_cases done
    exact tidy.put plain value

/-- The run: all lines. -/
theorem Tidy.applyLines {number : Nat} {lines : List String} (tidy : c.Tidy)
    (done : c.applyLines number lines = .ok c') : c'.Tidy := by
  induction lines generalizing c number with
  | nil =>
    cases done
    exact tidy
  | cons line rest ih =>
    rw [Config.applyLines] at done
    cases applied : c.applyLine line with
    | error problem =>
      rw [applied] at done
      cases done
    | ok next =>
      rw [applied] at done
      exact ih (tidy.applyLine applied) done

theorem tidy_default : default.Tidy :=
  ⟨List.Pairwise.nil, by simp [default]⟩

theorem tidy_parse {source : String} (loaded : parse source = .ok c) : c.Tidy :=
  Tidy.applyLines tidy_default loaded

theorem applyLines_append {number : Nat} {front : List String} (back : List String)
    (done : c.applyLines number front = .ok c') :
    c.applyLines number (front ++ back) = c'.applyLines (number + front.length) back := by
  induction front generalizing c number with
  | nil =>
    cases done
    rfl
  | cons line rest ih =>
    rw [applyLines] at done
    rw [List.cons_append, applyLines]
    cases applied : c.applyLine line with
    | error problem =>
      rw [applied] at done
      cases done
    | ok next =>
      rw [applied] at done
      have behind := ih done
      rw [Nat.add_assoc, Nat.add_comm 1] at behind
      exact behind

end Keys

section Seeding

variable {c : Config} {env : Environment} {name : String}

/-- Variables that are created one after the other, each name once. -/
theorem find?_seed {vars : List (String × String)} (ascending : vars.Pairwise fun a b => a.1 < b.1)
    (env : Environment) (name : String) :
    (vars.foldl (fun env v => env.create v.1 v.2 false) env).globals.find? name =
      match vars.lookup name with
      | some value => some ⟨value, false⟩
      | none => env.globals.find? name := by
  induction vars generalizing env with
  | nil => rfl
  | cons first rest ih =>
    obtain ⟨key, value⟩ := first
    obtain ⟨below, sorted⟩ := List.pairwise_cons.mp ascending
    rw [List.foldl_cons, ih sorted, Environment.create, Scope.find?_create, Scope.lookup_cons]
    by_cases same : name = key
    · have later : rest.lookup name = none := by
        rw [List.lookup_eq_none_iff]
        intro entry member
        have above := below entry member
        simpa [same] using ne_of_lt above
      rw [later, if_pos same, if_pos same]
    · rw [if_neg same, if_neg same]

/-- Prompts do not replace a variable. -/
theorem find?_prompts {v : Variable} (prompts : List (String × String))
    (held : env.globals.find? name = some v) :
    (prompts.foldl (fun env p => if env.globals.contains p.1 then env
      else env.create p.1 p.2 false) env).globals.find? name = some v := by
  induction prompts generalizing env with
  | nil => exact held
  | cons first rest ih =>
    rw [List.foldl_cons]
    apply ih
    split
    · exact held
    · rename_i absent
      have other : name ≠ first.1 := by
        rintro rfl
        exact absent (Scope.contains_of_find? held)
      rw [Environment.create, Scope.find?_create, if_neg other, held]

theorem find?_apply (ascending : c.Ascending) {value : String}
    (given : c.get? (.var name) = some value) (env : Environment) :
    (c.apply env).globals.find? name = some ⟨value, false⟩ := by
  apply find?_prompts
  rw [find?_seed ascending]
  have found : c.vars.lookup name = some value := given
  rw [found]

end Seeding

section LastLine

variable (a : Assignment)

theorem toList_line :
    a.line.toList = (Setting.var a.name).key.toList ++ '=' :: a.value.toList := by
  simp [Assignment.line]

theorem newline_not_mem_line : '\n' ∉ a.line.toList := by
  have mark : '\n' ∉ variableMark := by decide
  simp [toList_line, Setting.toList_key_var, mark, a.unbroken]

theorem getLast?_line : a.line.toList.getLast? ≠ some '\r' := by
  rw [toList_line, List.getLast?_append_cons]
  cases parts : a.value.toList with
  | nil => decide
  | cons c cs =>
    rw [List.getLast?_cons_cons, ← parts]
    exact a.solid

theorem not_ignored_line : ¬ Ignored a.line := by
  rw [← isIgnored_iff, toList_line, Setting.toList_key_var]
  nofun

theorem trimChars_key :
    Text.trimChars (Setting.var a.name).key.toList = (Setting.var a.name).key.toList := by
  have nonempty : a.name.toList ≠ [] := fun empty => a.nonempty (String.toList_eq_nil_iff.mp empty)
  have front : (variableMark ++ a.name.toList).dropWhile Text.isSpace =
      variableMark ++ a.name.toList := rfl
  have back : (variableMark ++ a.name.toList).rdropWhile Text.isSpace =
      variableMark ++ a.name.toList := by
    rw [List.rdropWhile_eq_self_iff]
    intro _
    have last : Text.isSpace (a.name.toList.getLast nonempty) = false := by
      simpa [List.getLast?_eq_some_getLast nonempty] using a.trimmed
    rw [List.getLast_append_of_right_ne_nil _ _ nonempty, last]
    nofun
  rw [Setting.toList_key_var]
  change ((variableMark ++ a.name.toList).dropWhile Text.isSpace).rdropWhile Text.isSpace = _
  rw [front, back]

theorem divides_line : Divides a.line (Setting.var a.name).key a.value := by
  refine ⟨_, toList_line a, ?_, ?_⟩
  · rw [Setting.toList_key_var, List.mem_append]
    rintro (mark | inside)
    · exact absurd mark (by decide)
    · exact a.plain inside
  · rw [trimChars_key, String.ofList_toList]

theorem applyLine_line (c : Config) :
    c.applyLine a.line =
      if unmarked a.name = "" then .error .emptyVariableName
      else .ok (c.put (.var (unmarked a.name)) a.value) := by
  rw [applyLine_of_divides (not_ignored_line a) (divides_line a), set_var]

theorem lines_line {source ending : String} (closed : source = "" ∨ ∃ front, source = front ++ "\n")
    (ends : ending = "" ∨ ending = "\n") :
    Text.lines (source ++ a.line ++ ending) = Text.lines source ++ [a.line] := by
  have nonempty : a.line.toList ≠ [] := by simp [toList_line]
  have last : Text.splitLines '\n' '\r' (a.line.toList ++ ending.toList) = [a.line.toList] := by
    rcases ends with rfl | rfl
    · rw [String.toList_empty, List.append_nil]
      exact Text.splitLines_single nonempty (newline_not_mem_line a)
    · exact Text.splitLines_line (newline_not_mem_line a) (getLast?_line a) []
  rcases closed with rfl | ⟨front, rfl⟩
  · simp [Text.lines, last, Text.splitLines]
  · simp only [Text.lines, String.toList_append, List.append_assoc]
    have newline : "\n".toList = ['\n'] := rfl
    rw [newline, List.singleton_append, Text.splitLines_behind, last]
    simp

end LastLine

section Defining

variable {c : Config} {name : String}

theorem defines_put (tidy : c.Tidy) (name value : String) :
    Defines c (c.put (.var name) value) name value := by
  have given := c.get?_put (s := .var name) value
  refine ⟨given, ?_, find?_apply (tidy.ascending.put (s := .var name) value) given⟩
  intro s other
  exact c.get?_put_of_ne (Ne.symm other) value

theorem Tidy.get?_marked (tidy : c.Tidy) (marked : Marked name) : c.get? (.var name) = none := by
  change c.vars.lookup name = none
  rw [List.lookup_eq_none_iff]
  intro entry member
  have plain := tidy.unmarked entry member
  rw [bne_iff_ne]
  rintro rfl
  exact plain marked

end Defining

/-- A last line for a variable defines the name without its marks, or is refused if nothing is left
of the name. So it defines the name that is written in it exactly if that name is not marked. -/
theorem parse_assignment (source ending : String) (c : Config) (a : Assignment)
    (loaded : parse source = .ok c) (closed : source = "" ∨ ∃ front, source = front ++ "\n")
    (ends : ending = "" ∨ ending = "\n") :
    let text := source ++ a.line ++ ending
    (unmarked a.name = "" →
        parse text = .error (.line ((Text.lines source).length + 1) .emptyVariableName)) ∧
      (unmarked a.name ≠ "" →
        ∃ c', parse text = .ok c' ∧ Defines c c' (unmarked a.name) a.value) ∧
      ((∃ c', parse text = .ok c' ∧ Defines c c' a.name a.value) ↔ ¬ Marked a.name) := by
  intro text
  have tidy := tidy_parse loaded
  have last : parse text = c.applyLines (1 + (Text.lines source).length) [a.line] := by
    rw [parse, lines_line a closed ends]
    exact applyLines_append [a.line] loaded
  rw [applyLines, applyLine_line] at last
  by_cases empty : unmarked a.name = ""
  · have refused : parse text =
        .error (.line ((Text.lines source).length + 1) .emptyVariableName) := by
      rw [last, if_pos empty, Nat.add_comm 1]
    refine ⟨fun _ => refused, absurd empty, ?_⟩
    have marked : Marked a.name := by
      by_contra plain
      rw [(unmarked_eq_self_iff a.name).mpr plain] at empty
      exact a.nonempty empty
    simp [refused, marked]
  · have read : parse text = .ok (c.put (.var (unmarked a.name)) a.value) := by
      rw [last, if_neg empty]
      rfl
    have defines := defines_put tidy (unmarked a.name) a.value
    refine ⟨fun none => absurd none empty, fun _ => ⟨_, read, defines⟩, ?_, ?_⟩
    · rintro ⟨c', read', defines'⟩ marked
      obtain rfl : c.put (.var (unmarked a.name)) a.value = c' :=
        Except.ok.inj (read.symm.trans read')
      -- The name as it is written is not among the names that were read.
      have other : Setting.var a.name ≠ .var (unmarked a.name) := by
        intro same
        have kept : unmarked a.name = a.name := (Setting.var.inj same).symm
        exact (unmarked_eq_self_iff a.name).mp kept marked
      have held := defines.others (.var a.name) other
      rw [tidy.get?_marked marked, defines'.given] at held
      cases held
    · intro plain
      rw [(unmarked_eq_self_iff a.name).mpr plain] at read defines
      exact ⟨_, read, defines⟩

/- A name with dots, a hash sign and the mark behind other letters, and a value with an equals sign. -/
theorem parse_assignment_dotted :
    let a : Assignment :=
      ⟨"A.#env.", " =1", by decide, by decide, by decide, by decide, by decide⟩
    let c : Config := { vars := [("A", "0")] }
    parse "env.A=0\n" = .ok c ∧ ¬ Marked a.name ∧
      ∃ c', parse ("env.A=0\n" ++ a.line ++ "\n") = .ok c' ∧ Defines c c' "A.#env." " =1" := by
  intro a c
  have loaded : parse "env.A=0\n" = .ok c := by decide +kernel
  have plain : ¬ Marked a.name := by decide
  have defined := parse_assignment "env.A=0\n" "\n" c a loaded (.inr ⟨"env.A=0", rfl⟩) (.inr rfl)
  exact ⟨loaded, plain, defined.2.2.mpr plain⟩

/- The variable `env.A` cannot be set: its line sets `A`. -/
theorem marked_name_loses_mark :
    let a : Assignment := ⟨"env.A", "1", by decide, by decide, by decide, by decide, by decide⟩
    a.line = "env.env.A=1" ∧ parse "" = .ok default ∧
      parse ("" ++ a.line ++ "") = .ok { vars := [("A", "1")] } ∧
      ¬ ∃ c', parse ("" ++ a.line ++ "") = .ok c' ∧ c'.get? (.var "env.A") = some "1" := by
  intro a
  have read : parse ("" ++ a.line ++ "") = .ok { vars := [("A", "1")] } := by decide +kernel
  refine ⟨rfl, rfl, read, ?_⟩
  rintro ⟨c', read', given⟩
  rw [read] at read'
  cases read'
  exact absurd given (by decide)

end LineShell.Config
