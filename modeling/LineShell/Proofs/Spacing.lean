import LineShell.Proofs.Joining
import LineShell.Proofs.Positions
import LineShell.Proofs.Quoting

/-!
Blanks between tokens carry no meaning. A sound token ends where it does because of what it is, so
blanks at any place that is not inside a token leave all tokens as they are, and with them the
statements or the failure.
-/

namespace LineShell

namespace Lexeme

/- A sound operator is a pair, whatever follows it. -/
theorem operator_keeps {c : Char} {cs more : List Char} (sound : (operator c cs).IsSound)
    (raw : (operator c cs).raw = c :: more) (rest : List Char) :
    operator c (more ++ rest) = { operator c cs with rest := rest } := by
  by_cases again : cs.head? = some c
  · have pair : more = [c] := by simpa [operator, again, eq_comm] using raw
    simp [operator, again, pair]
  · exact absurd (by simp [operator, again]) (sound (.loneOperator c))

theorem ends_number (source : List Char) : Word.Ends (number source).rest := by
  intro c hc
  have stopped := List.head?_dropWhile_not (fun c => !isDelimiter c) source
  rw [show (source.dropWhile fun c => !isDelimiter c).head? = some c from hc] at stopped
  simpa using stopped

theorem number_keeps {source rest : List Char} (ends : Word.Ends rest) :
    number ((number source).raw ++ rest) = { number source with rest := rest } := by
  have inside : ∀ c ∈ (number source).raw, (!isDelimiter c) = true :=
    List.all_eq_true.mp List.all_takeWhile
  have stops : rest.takeWhile (fun c => !isDelimiter c) = [] ∧
      rest.dropWhile (fun c => !isDelimiter c) = rest := by
    cases rest with
    | nil => simp
    | cons d rest =>
      have delimiter : isDelimiter d = true := ends d rfl
      simp [delimiter]
  have taken : ((number source).raw ++ rest).takeWhile (fun c => !isDelimiter c) =
      (number source).raw := by
    rw [List.takeWhile_append_of_pos inside, stops.1, List.append_nil]
  have left : ((number source).raw ++ rest).dropWhile (fun c => !isDelimiter c) = rest := by
    rw [List.dropWhile_append_of_pos inside, stops.2]
  simp only [number] at taken left ⊢
  rw [taken, left]

theorem word_keeps {c : Char} {cs more rest : List Char} (starts : Word.StartsWord c)
    (sound : (word (c :: cs)).IsSound) (raw : (word (c :: cs)).raw = c :: more)
    (ends : Word.Ends (word (c :: cs)).rest → Word.Ends rest) :
    word (c :: (more ++ rest)) = { word (c :: cs) with rest := rest } := by
  obtain ⟨pieces, old, spells⟩ := Word.spells_of_kind starts sound
  rw [spells.word] at raw ends ⊢
  have text : c :: (more ++ rest) = Word.rawText pieces ++ rest := by
    rw [← List.cons_append, ← raw]
  have moved : Word.Spells pieces rest (c :: (more ++ rest)) :=
    ⟨text, spells.nonempty, spells.wellFormed, ends spells.ends⟩
  exact moved.word

/-- A sound token is the same in front of any text that ends it as the old one does. -/
theorem ofSource_keeps {c : Char} {cs more rest : List Char} (blank : isBlank c = false)
    (plain : c ≠ '#') (sound : (ofSource c cs).IsSound) (raw : (ofSource c cs).raw = c :: more)
    (ends : Word.Ends (ofSource c cs).rest → Word.Ends rest) :
    ofSource c (more ++ rest) = { ofSource c cs with rest := rest } := by
  have reader := reader_ofSource c
  generalize ofSource c = read at *
  cases reader with
  | single =>
    cases raw
    rfl
  | operator => exact operator_keeps sound raw rest
  | number =>
    have kept := @number_keeps (c :: cs) rest (ends (ends_number (c :: cs)))
    rw [show (Lexeme.number (c :: cs)).raw = c :: more from raw] at kept
    exact kept
  | word inside digit =>
    exact word_keeps ⟨inside.trans blank, plain, digit⟩ sound raw ends

end Lexeme

namespace Gap

theorem blanks_append {bs cs : List Char} (front : ∀ c ∈ bs, isBlank c = true)
    (back : ∀ c ∈ cs, isBlank c = true) : ∀ c ∈ bs ++ cs, isBlank c = true := by
  intro c member
  rcases List.mem_append.mp member with member | member
  · exact front c member
  · exact back c member

/-- Blanks may stand anywhere in a gap, also in its comment. -/
theorem spaced {x y rest bs : List Char} (h : Gap (x ++ y) rest)
    (blank : ∀ c ∈ bs, isBlank c = true) : Gap (x ++ (bs ++ y)) rest := by
  generalize split : x ++ y = gap at h
  cases h with
  | blanks blanks =>
    subst split
    have front : ∀ c ∈ x, isBlank c = true := fun c hc => blanks c (List.mem_append_left y hc)
    have back : ∀ c ∈ y, isBlank c = true := fun c hc => blanks c (List.mem_append_right x hc)
    exact .blanks (blanks_append front (blanks_append blank back))
  | @comment cs text _ blanks line stops =>
    rcases List.append_eq_append_iff.mp split with ⟨more, rfl, rfl⟩ | ⟨more, rfl, hash⟩
    · have front : ∀ c ∈ x, isBlank c = true := fun c hc => blanks c (List.mem_append_left _ hc)
      have back : ∀ c ∈ more, isBlank c = true := fun c hc => blanks c (List.mem_append_right x hc)
      have wider := Gap.comment (blanks_append front (blanks_append blank back)) line stops
      simpa using wider
    · cases more with
      | nil =>
        rw [List.nil_append] at hash
        subst hash
        have wider := Gap.comment (blanks_append blanks blank) line stops
        simpa using wider
      | cons c more =>
        cases hash
        have inside : '\n' ∉ more ++ (bs ++ y) := by
          have other : '\n' ∉ bs := fun member => by cases blank _ member
          change '\n' ∉ more ++ y at line
          simp only [List.mem_append, not_or] at line ⊢
          exact ⟨line.1, other, line.2⟩
        have wider := Gap.comment blanks inside stops
        simpa using wider

end Gap

namespace Word

/- What blanks are put into ends a token where it ended one before. -/
theorem Ends.spaced {x y bs : List Char} (h : Ends (x ++ y))
    (blank : ∀ c ∈ bs, isBlank c = true) : Ends (x ++ (bs ++ y)) := by
  cases x with
  | cons c x => exact h
  | nil =>
    cases bs with
    | nil => exact h
    | cons b bs =>
      have first : isBlank b = true := blank b List.mem_cons_self
      simp [Ends, isDelimiter, first]

end Word

/- Of two ways to cut a text in two, the one with fewer bytes in front cuts the front of the other. -/
theorem append_of_utf8Len_le {x y a b : List Char} (split : x ++ y = a ++ b)
    (le : String.utf8Len x ≤ String.utf8Len a) : ∃ more, a = x ++ more ∧ y = more ++ b := by
  rcases List.append_eq_append_iff.mp split with cut | ⟨more, rfl, rfl⟩
  · exact cut
  · rw [String.utf8Len_append] at le
    have none : more = [] := String.utf8Len_eq_zero.mp (by omega)
    exact ⟨[], by simp [none], by simp [none]⟩

namespace Token

/-- What a token says, without its place. -/
def content (t : Token) : Kind × String :=
  (t.kind, t.lexeme)

namespace Scans

variable {path : String} {before x y bs : List Char} {segments : List Segment}

/-- Blanks outside the tokens of a run change its places only. -/
theorem spaced (h : Scans path before (x ++ y) segments)
    (sound : ∀ s ∈ segments, s.token.IsSound)
    (seam : ∀ s ∈ segments, String.utf8Len (before ++ x) ≤ s.token.start ∨
      s.token.stop ≤ String.utf8Len (before ++ x))
    (blank : ∀ c ∈ bs, isBlank c = true) (before' : List Char) :
    ∃ segments', Scans path before' (x ++ (bs ++ y)) segments' ∧
      segments'.map (fun s => s.token.content) = segments.map fun s => s.token.content := by
  generalize split : x ++ y = source at h
  induction h generalizing x before' with
  | finish shape =>
    subst split
    exact ⟨_, .finish (shape.spaced blank), rfl⟩
  | @token before gap cs c segments shape visible plain tail ih =>
    rcases seam _ List.mem_cons_self with front | back
    · -- The blanks go into the gap before the first token.
      rw [start_starting, String.utf8Len_append, String.utf8Len_append] at front
      obtain ⟨more, rfl, rfl⟩ := append_of_utf8Len_le split (by omega)
      obtain ⟨segments', run, same⟩ :=
        tail.move path (before' ++ (x ++ (bs ++ more)) ++ (Lexeme.ofSource c cs).raw)
      refine ⟨_, by simpa using Scans.token (shape.spaced blank) visible plain run, ?_⟩
      have contents := congrArg (List.map Prod.snd) same
      simp only [List.map_map, Function.comp_def] at contents
      rw [List.map_cons, List.map_cons]
      exact congrArg _ contents
    · -- The first token stays, and the blanks go somewhere behind it.
      rw [stop_starting, String.utf8Len_append, String.utf8Len_append, String.utf8Len_append]
        at back
      have whole : gap ++ (Lexeme.ofSource c cs).raw ++ (Lexeme.ofSource c cs).rest = x ++ y := by
        rw [split, List.append_assoc, Lexeme.ofSource_append]
      obtain ⟨more, rfl, rest⟩ :=
        append_of_utf8Len_le whole (by rw [String.utf8Len_append]; omega)
      obtain ⟨segments', run, same⟩ := ih (x := more)
        (fun s hs => sound s (List.mem_cons_of_mem _ hs))
        (fun s hs => by simpa using seam s (List.mem_cons_of_mem _ hs))
        (before' ++ gap ++ (Lexeme.ofSource c cs).raw) rest.symm
      obtain ⟨chars, raw⟩ := Lexeme.ofSource_raw_eq_cons visible cs
      have ends : Word.Ends (Lexeme.ofSource c cs).rest → Word.Ends (more ++ (bs ++ y)) := by
        rw [rest]
        exact fun ends => ends.spaced blank
      have kept := Lexeme.ofSource_keeps visible plain (sound _ List.mem_cons_self) raw ends
      have around : Gap gap (c :: (chars ++ (more ++ (bs ++ y)))) := shape.of_head rfl
      have behind : Scans path
          (before' ++ gap ++ (Lexeme.ofSource c (chars ++ (more ++ (bs ++ y)))).raw)
          (Lexeme.ofSource c (chars ++ (more ++ (bs ++ y)))).rest segments' := by
        rw [kept]
        exact run
      have first := Scans.token around visible plain behind
      refine ⟨_, by simpa [raw] using first, ?_⟩
      rw [List.map_cons, List.map_cons, same]
      simp only [starting, content, kept]

end Scans

/-- Where blanks may be put: at a bound of a token, or outside of all tokens. -/
inductive Seam (tokens : List Token) (offset : Nat) : Prop where
  | start {t : Token} : t ∈ tokens → offset = t.start → Seam tokens offset
  | stop {t : Token} : t ∈ tokens → offset = t.stop → Seam tokens offset
  | gap : (∀ t ∈ tokens, offset < t.start ∨ t.stop < offset) → Seam tokens offset

/- A bound of one token is not inside another. -/
theorem Seam.outside {tokens : List Token} {offset : Nat} (h : Seam tokens offset)
    (ordered : tokens.Pairwise fun t u => t.stop ≤ u.start) :
    ∀ t ∈ tokens, offset ≤ t.start ∨ t.stop ≤ offset := by
  have bound (u : Token) (there : u ∈ tokens) (within : u.start ≤ offset ∧ offset ≤ u.stop)
      (own : offset ≤ u.start ∨ u.stop ≤ offset) :
      ∀ t ∈ tokens, offset ≤ t.start ∨ t.stop ≤ offset := by
    obtain ⟨front, back, rfl⟩ := List.append_of_mem there
    rw [List.pairwise_append, List.pairwise_cons] at ordered
    intro t member
    rcases List.mem_append.mp member with member | member
    · exact .inr ((ordered.2.2 t member u List.mem_cons_self).trans within.1)
    rcases List.mem_cons.mp member with rfl | member
    · exact own
    · exact .inl (within.2.trans (ordered.2.1.1 t member))
  cases h with
  | @start u there is =>
    subst is
    exact bound u there ⟨le_refl _, Nat.le_add_right _ _⟩ (.inl (le_refl _))
  | @stop u there is =>
    subst is
    exact bound u there ⟨Nat.le_add_right _ _, le_refl _⟩ (.inr (le_refl _))
  | gap outside =>
    intro t member
    exact (outside t member).imp le_of_lt le_of_lt

theorem checked_eq_ok_iff {path source : String} {tokens : List Token} :
    checked path source = .ok tokens ↔
      tokens = all path source ∧ ∀ t ∈ all path source, t.IsSound := by
  have none : (all path source).findSome? lexProblem? = none ↔
      ∀ t ∈ all path source, t.IsSound := by
    simp only [List.findSome?_eq_none_iff, lexProblem?_eq_none_iff]
  rw [← none]
  cases found : (all path source).findSome? lexProblem? with
  | none => simp [checked, found, eq_comm]
  | some problem => simp [checked, found]

theorem sound_of_content {ts us : List Token} (same : us.map content = ts.map content)
    (sound : ∀ t ∈ ts, t.IsSound) : ∀ u ∈ us, u.IsSound := by
  intro u member e error
  have said : u.content ∈ ts.map content := same ▸ List.mem_map_of_mem member
  obtain ⟨t, there, eq⟩ := List.mem_map.mp said
  exact sound t there e ((congrArg Prod.fst eq).trans error)

end Token

theorem Statement.parse_of_checked {path source : String} {tokens : List Token}
    (accepted : Token.checked path source = .ok tokens) :
    Statement.parse path source = Statement.ofTokens tokens := by
  unfold Statement.parse
  rw [accepted]
  rfl

/-- The outcome of the parser depends on what the tokens say, and not on where they stand. -/
theorem Statement.ofTokens_of_content {ts us : List Token}
    (same : us.map Token.content = ts.map Token.content) :
    forget (List.map Statement.unplaced) (Statement.ofTokens us) =
      forget (List.map Statement.unplaced) (Statement.ofTokens ts) := by
  have bare := congrArg (List.map fun p => (⟨p.1, p.2, "", 0, .nowhere⟩ : Token)) same
  rw [List.map_map, List.map_map] at bare
  have unplaced : us.map Token.unplaced = ts.map Token.unplaced := bare
  rw [Statement.ofTokens, Statement.ofTokens, ParseState.forget_run, ParseState.forget_run,
    unplaced]

/-- Blanks that are put between the tokens of a source leave what its tokens say, and with it the
statements or the failure, as they were. -/
theorem Statement.parse_spaced (path front blanks behind : String) (tokens : List Token)
    (blank : ∀ c ∈ blanks.toList, isBlank c = true)
    (accepted : Token.checked path (front ++ behind) = .ok tokens)
    (seam : Token.Seam tokens front.utf8ByteSize) :
    (∃ spaced, Token.checked path (front ++ blanks ++ behind) = .ok spaced ∧
      spaced.map Token.content = tokens.map Token.content) ∧
    forget (List.map Statement.unplaced) (Statement.parse path (front ++ blanks ++ behind)) =
      forget (List.map Statement.unplaced) (Statement.parse path (front ++ behind)) := by
  obtain ⟨rfl, sound⟩ := Token.checked_eq_ok_iff.mp accepted
  have run := Token.scans_scan path (front ++ behind)
  have outside := seam.outside run.ordered
  rw [String.toList_append] at run
  have size : String.utf8Len ([] ++ front.toList) = front.utf8ByteSize :=
    String.utf8Len_toList front
  obtain ⟨segments, spaced, same⟩ := run.spaced
    (fun s hs => sound _ (List.mem_map_of_mem hs))
    (fun s hs => by rw [size]; exact outside _ (List.mem_map_of_mem hs)) blank []
  have tokens : Token.all path (front ++ blanks ++ behind) = segments.map Segment.token := by
    rw [Token.all, Token.Scans.eq_scan (by simpa using spaced)]
  have contents : (Token.all path (front ++ blanks ++ behind)).map Token.content =
      (Token.all path (front ++ behind)).map Token.content := by
    rw [tokens, Token.all, List.map_map, List.map_map]
    exact same
  have again := Token.checked_eq_ok_iff.mpr ⟨rfl, Token.sound_of_content contents sound⟩
  refine ⟨⟨_, again, contents⟩, ?_⟩
  rw [Statement.parse_of_checked again, Statement.parse_of_checked accepted]
  exact Statement.ofTokens_of_content contents

/- A space and a tab inside a comment. -/
theorem Statement.parse_spaced_comment :
    (∃ spaced, Token.checked "f" ("echo a;#" ++ " \t" ++ "b\nc") = .ok spaced ∧
      spaced.map Token.content =
        [(.keyword .echo, "echo"), (.bareWord, "a"), (.separator, ""), (.separator, ""),
          (.bareWord, "c"), (.eof, "")]) ∧
    forget (List.map Statement.unplaced)
        (Statement.parse "f" ("echo a;#" ++ " \t" ++ "b\nc")) =
      forget (List.map Statement.unplaced) (Statement.parse "f" ("echo a;#" ++ "b\nc")) := by
  have accepted : Token.checked "f" ("echo a;#" ++ "b\nc") =
      .ok (Token.all "f" ("echo a;#" ++ "b\nc")) := by decide +kernel
  have seam : Token.Seam (Token.all "f" ("echo a;#" ++ "b\nc")) "echo a;#".utf8ByteSize :=
    .gap (by decide +kernel)
  have said : (Token.all "f" ("echo a;#" ++ "b\nc")).map Token.content =
      [(.keyword .echo, "echo"), (.bareWord, "a"), (.separator, ""), (.separator, ""),
        (.bareWord, "c"), (.eof, "")] := by decide +kernel
  have blank : " \t".toList.all isBlank = true := by decide +kernel
  rw [← said]
  exact Statement.parse_spaced "f" "echo a;#" " \t" "b\nc" _ (List.all_eq_true.mp blank) accepted seam

end LineShell
