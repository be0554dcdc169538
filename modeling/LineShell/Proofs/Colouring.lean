import LineShell.Highlight
import LineShell.Proofs.Tiling

/-!
Colouring keeps the text: whatever the files are, and however broken the source is, it comes back
when control sequences are removed. The source itself may hold lone escapes, but not the start of a
sequence, which would be removed with the colours.
-/

namespace LineShell

/-- The characters of a control sequence in front of its final one. -/
def Ansi.isParameter (c : Char) : Bool :=
  '\x30' ≤ c && c ≤ '\x3f'

/-- A text is a source with whole colour sequences put in between. -/
inductive Coloured : List Char → List Char → Prop where
  | nil : Coloured [] []
  | char {text source : List Char} (c : Char) :
      Coloured text source → Coloured (c :: text) (c :: source)
  | sequence {parameters text source : List Char} :
      (∀ c ∈ parameters, Ansi.isParameter c = true) → Coloured text source →
      Coloured ('\x1b' :: '[' :: (parameters ++ 'm' :: text)) source

namespace Ansi

theorem isFinal_of_isParameter {c : Char} (h : isParameter c = true) : isFinal c = false := by
  simp only [isParameter, Bool.and_eq_true, decide_eq_true_eq] at h
  have below : ¬ '\x40' ≤ c := fun above => absurd (Char.le_trans above h.2) (by decide)
  simp [isFinal, below]

theorem stripFrom_sequence {parameters : List Char}
    (inner : ∀ c ∈ parameters, isParameter c = true) (text : List Char) :
    stripFrom true (parameters ++ 'm' :: text) = stripFrom false text := by
  induction parameters with
  | nil => rfl
  | cons c cs ih =>
    have passed : isFinal c = false := isFinal_of_isParameter (inner c List.mem_cons_self)
    have tail := ih fun d hd => inner d (List.mem_cons_of_mem c hd)
    rw [List.cons_append, stripFrom, passed]
    exact tail

theorem stripFrom_char {c : Char} {text : List Char}
    (single : ¬ (c = '\x1b' ∧ text.head? = some '[')) :
    stripFrom false (c :: text) = c :: stripFrom false text := by
  rw [stripFrom]
  rintro rest rfl rfl
  exact single ⟨rfl, rfl⟩

end Ansi

namespace Coloured

variable {text source colour more others : List Char}

theorem plain (source : List Char) : Coloured source source := by
  induction source with
  | nil => exact .nil
  | cons c cs ih => exact .char c ih

theorem append (first : Coloured text source) (second : Coloured more others) :
    Coloured (text ++ more) (source ++ others) := by
  induction first with
  | nil => exact second
  | char c _ ih => exact .char c ih
  | @sequence parameters text source inner _ ih =>
    have whole := Coloured.sequence inner ih
    simpa using whole

/- A colour alone is a text of which nothing is left. -/
theorem before (opened : Coloured colour []) (h : Coloured text source) :
    Coloured (colour ++ text) source :=
  opened.append h

theorem behind (h : Coloured text source) (closed : Coloured colour []) :
    Coloured (text ++ colour) source := by
  have whole := h.append closed
  rwa [List.append_nil] at whole

theorem head_bracket (h : Coloured text source) (bracket : text.head? = some '[') :
    source.head? = some '[' := by
  cases h with
  | nil => cases bracket
  | char c _ => exact bracket
  | sequence _ _ =>
    rw [List.head?_cons] at bracket
    exact absurd bracket (by decide)

theorem stripped (h : Coloured text source) (free : ¬ ['\x1b', '['] <:+: source) :
    Ansi.stripFrom false text = source := by
  induction h with
  | nil => rfl
  | @char text source c tail ih =>
    -- An escape that stands alone is kept also where a sequence follows it.
    have single : ¬ (c = '\x1b' ∧ text.head? = some '[') := by
      rintro ⟨rfl, bracket⟩
      obtain ⟨rest, rfl⟩ := List.head?_eq_some_iff.mp (tail.head_bracket bracket)
      exact free (List.prefix_append ['\x1b', '['] rest).isInfix
    have rest := ih fun inside => free (inside.trans (List.suffix_cons c source).isInfix)
    rw [Ansi.stripFrom_char single, rest]
  | sequence inner _ ih =>
    rw [Ansi.stripFrom, Ansi.stripFrom_sequence inner]
    exact ih free

end Coloured

theorem coloured_control (parameters : List Char)
    (inner : ∀ c ∈ parameters, Ansi.isParameter c = true) :
    Coloured (Ansi.control (String.ofList (parameters ++ ['m']))).toList [] := by
  rw [Ansi.control, String.toList_append, String.toList_ofList, String.toList_ofList]
  exact .sequence inner .nil

theorem coloured_reset : Coloured Ansi.reset.toList [] :=
  coloured_control ['0'] (List.forall_mem_singleton.mpr rfl)

namespace Highlighter

def palette : List String :=
  [errorColour, commentColour, keywordColour, operatorColour, commandColour, pathColour,
    integerColour, stringColour, escapeColour]

theorem coloured_palette : ∀ colour ∈ palette, Coloured colour.toList [] := by
  have style : ∀ d, Ansi.isParameter d = true →
      Coloured (Ansi.control (String.ofList [d, 'm'])).toList [] := by
    intro d digit
    exact coloured_control [d] (by simpa using digit)
  have shade : ∀ d e, Ansi.isParameter d = true → Ansi.isParameter e = true →
      Coloured (Ansi.control (String.ofList [d, e, 'm'])).toList [] := by
    intro d e digit other
    exact coloured_control [d, e] (by simpa using ⟨digit, other⟩)
  have both : ∀ {a b : String}, Coloured a.toList [] → Coloured b.toList [] →
      Coloured (a ++ b).toList [] := by
    intro a b first second
    rw [String.toList_append]
    exact first.before second
  intro colour found
  simp only [palette, List.mem_cons, List.not_mem_nil, or_false] at found
  rcases found with rfl | rfl | rfl | rfl | rfl | rfl | rfl | rfl | rfl
  · exact both (style '4' rfl) (shade '9' '1' rfl rfl)
  · exact both (style '3' rfl) (shade '9' '0' rfl rfl)
  · exact both (style '1' rfl) (shade '9' '4' rfl rfl)
  · exact both (style '1' rfl) (shade '3' '5' rfl rfl)
  · exact both (style '1' rfl) (shade '9' '3' rfl rfl)
  · exact both (style '4' rfl) (shade '9' '2' rfl rfl)
  · exact shade '9' '6' rfl rfl
  · exact shade '9' '2' rfl rfl
  · exact shade '9' '5' rfl rfl

theorem classify_mem_palette (h : Highlighter) (previous next : Option Kind) (t : Token) :
    ∀ colour ∈ (h.classify previous t next).1, colour ∈ palette := by
  intro colour found
  unfold classify at found
  repeat' split at found
  all_goals simp_all [palette]

theorem coloured_commentColour : Coloured commentColour.toList [] :=
  coloured_palette _ (by simp [palette])

theorem coloured_stringColour : Coloured stringColour.toList [] :=
  coloured_palette _ (by simp [palette])

theorem coloured_escapeColour : Coloured escapeColour.toList [] :=
  coloured_palette _ (by simp [palette])

theorem coloured_paintGap (gap : String) : Coloured (paintGap gap).toList gap.toList := by
  simp only [paintGap]
  split
  · exact .plain _
  · have blanks := Coloured.plain (gap.toList.takeWhile (· ≠ '#'))
    have comment := Coloured.plain (gap.toList.dropWhile (· ≠ '#'))
    have whole := ((blanks.behind coloured_commentColour).append comment).behind coloured_reset
    rw [List.takeWhile_append_dropWhile] at whole
    simpa only [String.toList_append, String.toList_ofList] using whole

theorem toList_char (c : Char) : c.toString.toList = [c] :=
  String.toList_singleton c

theorem coloured_paintWord (quote : Option Quote) (cs : List Char) :
    Coloured (paintWord quote cs).toList cs := by
  fun_induction paintWord quote cs with
  | case1 => exact .nil
  | case2 => exact coloured_reset
  | case3 c cs q _ ih =>
    simp only [String.toList_append, toList_char, List.append_assoc]
    exact coloured_stringColour.before (.char c ih)
  | case4 c cs _ ih =>
    simp only [String.toList_append, toList_char]
    exact .char c ih
  | case5 q cs ih =>
    simp only [String.toList_append, toList_char, List.append_assoc]
    exact .char _ (coloured_reset.before ih)
  | case6 q c _ _ =>
    simp only [String.toList_append, toList_char, List.append_assoc]
    have closed := coloured_stringColour.before coloured_reset
    exact coloured_escapeColour.before (.char c (coloured_reset.before closed))
  | case7 q c _ _ d cs ih =>
    simp only [String.toList_append, toList_char, List.append_assoc]
    have again := coloured_reset.before (coloured_stringColour.before ih)
    exact coloured_escapeColour.before (.char c (.char d again))
  | case8 q c cs _ _ ih =>
    simp only [String.toList_append, toList_char]
    exact .char c ih

theorem coloured_paintToken (t : Token) {colour : Option String}
    (known : ∀ c ∈ colour, c ∈ palette) :
    Coloured (paintToken t colour).toList t.raw.toList := by
  unfold paintToken
  split
  · rename_i colour
    rw [String.toList_append]
    exact (coloured_palette colour (known colour rfl)).before (.plain _)
  · split
    · exact coloured_paintWord none t.raw.toList
    · exact .plain _

theorem coloured_paint (h : Highlighter) (previous : Option Kind) (segments : List Segment) :
    Coloured (h.paint previous segments).toList
      (String.join (segments.map fun s => s.gap ++ s.token.raw)).toList := by
  induction segments generalizing previous with
  | nil => exact .nil
  | cons s rest ih =>
    simp only [paint, List.map_cons, String.join_cons, String.toList_append]
    have gap := coloured_paintGap s.gap
    have token := coloured_paintToken s.token
      (h.classify_mem_palette previous (rest.head?.map fun r => r.token.kind) s.token)
    exact ((gap.append token).behind coloured_reset).append (ih (some s.token.kind))

theorem strip_highlight (h : Highlighter) (path source : String)
    (free : ¬ ['\x1b', '['] <:+: source.toList) :
    Ansi.strip (h.highlight path source).text = source := by
  have painted := (h.coloured_paint none (Token.scan path source)).behind coloured_reset
  rw [(Token.scans_scan path source).concat, String.toList_ofList,
    ← String.toList_append] at painted
  change String.ofList (Ansi.stripFrom false (h.paint none _ ++ Ansi.reset).toList) = source
  rw [painted.stripped free, String.ofList_toList]

/- An escape that stands alone, a comment and an unfinished string. -/
theorem strip_highlight_broken :
    ¬ ['\x1b', '['] <:+: "ls \x1b # all\n'open".toList ∧
      Ansi.strip (highlight ⟨⟨fun _ => false, fun _ => true, fun _ => false⟩, some "/bin"⟩ "stdin"
        "ls \x1b # all\n'open").text = "ls \x1b # all\n'open" := by
  have free : ¬ ['\x1b', '['] <:+: "ls \x1b # all\n'open".toList := by decide +kernel
  exact ⟨free, strip_highlight _ _ _ free⟩

end Highlighter

end LineShell
