import LineShell.Proofs.Scanning

/-!
Tokens and gaps tile the source: every source is the concatenation of its gaps and raw texts, cut
out of it by the spans of the tokens alone, and broken text makes no exception.
-/

namespace LineShell

/-- The text between two byte offsets. -/
def slice (source : String) (start stop : Nat) : String :=
  String.Pos.Raw.extract source ⟨start⟩ ⟨stop⟩

theorem slice_of_append {source : String} (before text after : List Char)
    (h : source.toList = before ++ text ++ after) :
    slice source (String.utf8Len before) (String.utf8Len (before ++ text)) =
      String.ofList text := by
  have cut := String.extract_of_valid before text after
  rw [← h, String.ofList_toList] at cut
  rwa [slice, String.utf8Len_append]

theorem slice_to_end {source : String} (before after : List Char)
    (h : source.toList = before ++ after) :
    slice source (String.utf8Len before) source.utf8ByteSize = String.ofList after := by
  have cut := slice_of_append before after [] (by rw [h, List.append_nil])
  rwa [← h, String.utf8Len_toList] at cut

theorem isValid_of_append {source : String} (before after : List Char)
    (h : source.toList = before ++ after) :
    (String.Pos.Raw.mk (String.utf8Len before)).IsValid source := by
  have valid := (@String.Pos.Raw.isValid_rawEndPos (String.ofList before)).append_right
    (String.ofList after)
  rwa [← String.ofList_append, ← h, String.ofList_toList, String.rawEndPos_ofList] at valid

namespace Token

/-- For each token the gap before it, and its text, by the spans of the tokens. -/
def cuts (source : String) : Nat → List Token → List (String × String)
  | _, [] => []
  | stop, t :: ts =>
    (slice source stop t.start, slice source t.start t.stop) :: cuts source t.stop ts

/-- For each token the gap before it, and everything behind that gap. -/
def gaps (source : String) : Nat → List Token → List (String × String)
  | _, [] => []
  | stop, t :: ts =>
    (slice source stop t.start, slice source t.start source.utf8ByteSize) ::
      gaps source t.stop ts

def rebuild (source : String) (ts : List Token) : String :=
  String.join ((cuts source 0 ts).map fun p => p.1 ++ p.2)

/-- A token is cut out of the source by its span. -/
structure Placed (source : String) (t : Token) : Prop where
  starts : (String.Pos.Raw.mk t.start).IsValid source
  stops : (String.Pos.Raw.mk t.stop).IsValid source
  text : slice source t.start t.stop = t.raw
  nonempty : t.kind ≠ .eof → t.start < t.stop

theorem start_ending (path : String) (before : List Char) :
    (ending path before).start = String.utf8Len before := by
  simp [ending, Cursor.offset_passAll, Cursor.start]

theorem stop_ending (path : String) (before : List Char) :
    (ending path before).stop = String.utf8Len before := by
  rw [stop, start_ending]
  rfl

theorem start_starting (path : String) (before : List Char) (c : Char) (cs : List Char) :
    (starting path before c cs).start = String.utf8Len before := by
  simp [starting, Cursor.offset_passAll, Cursor.start]

theorem stop_starting (path : String) (before : List Char) (c : Char) (cs : List Char) :
    (starting path before c cs).stop = String.utf8Len (before ++ (Lexeme.ofSource c cs).raw) := by
  rw [stop, start_starting, String.utf8Len_append]
  exact congrArg _ (String.utf8ByteSize_ofList _)

theorem placed_ending (path source : String) : (ending path source.toList).Placed source := by
  have valid := isValid_of_append source.toList [] (List.append_nil _).symm
  have empty := slice_to_end source.toList [] (List.append_nil _).symm
  constructor
  · rwa [start_ending]
  · rwa [stop_ending]
  · rwa [start_ending, stop_ending, String.utf8Len_toList] at *
  · intro other
    exact absurd rfl other

theorem placed_starting {path source : String} {before cs : List Char} {c : Char}
    (h : source.toList = before ++ c :: cs) (blank : isBlank c = false) :
    (starting path before c cs).Placed source := by
  have whole : source.toList =
      before ++ (Lexeme.ofSource c cs).raw ++ (Lexeme.ofSource c cs).rest := by
    rw [List.append_assoc, Lexeme.ofSource_append, h]
  constructor
  · rw [start_starting]
    exact isValid_of_append before _ h
  · rw [stop_starting]
    exact isValid_of_append _ _ whole
  · rw [start_starting, stop_starting]
    exact slice_of_append before _ _ whole
  · intro _
    have some : String.utf8Len (Lexeme.ofSource c cs).raw ≠ 0 := by
      rw [ne_eq, String.utf8Len_eq_zero]
      exact Lexeme.ofSource_raw_ne_nil blank cs
    rw [start_starting, stop_starting, String.utf8Len_append]
    omega

namespace Scans

variable {path source : String} {before rest : List Char} {segments : List Segment}

theorem placed (h : Scans path before rest segments) (whole : source.toList = before ++ rest) :
    ∀ s ∈ segments, s.token.Placed source := by
  intro s hs
  rcases h.mem s hs with token | ⟨front, c, cs, split, blank, token⟩
  · rw [token, ← whole]
    exact placed_ending path source
  · rw [token]
    exact placed_starting (whole.trans split) blank

theorem le_start (h : Scans path before rest segments) :
    ∀ s ∈ segments, String.utf8Len before ≤ s.token.start := by
  induction h with
  | finish gap =>
    intro s hs
    rw [List.mem_singleton.mp hs, start_ending, String.utf8Len_append]
    omega
  | token _ _ _ _ ih =>
    intro s hs
    rcases List.mem_cons.mp hs with rfl | hs
    · rw [start_starting, String.utf8Len_append]
      omega
    · have later := ih s hs
      rw [String.utf8Len_append, String.utf8Len_append] at later
      omega

theorem ordered (h : Scans path before rest segments) :
    (segments.map Segment.token).Pairwise fun t u => t.stop ≤ u.start := by
  induction h with
  | finish gap => simp
  | token _ _ _ tail ih =>
    rw [List.map_cons, List.pairwise_cons]
    refine ⟨?_, ih⟩
    intro t ht
    obtain ⟨s, hs, rfl⟩ := List.mem_map.mp ht
    rw [stop_starting]
    exact tail.le_start s hs

theorem ended (h : Scans path before rest segments) :
    ∃ body, segments.map Segment.token = body ++ [ending path (before ++ rest)] ∧
      ∀ t ∈ body, t.kind ≠ .eof := by
  induction h with
  | finish gap => exact ⟨[], rfl, by simp⟩
  | @token before gap cs c segments _ _ _ _ ih =>
    obtain ⟨body, tokens, others⟩ := ih
    rw [behind_token] at tokens
    refine ⟨starting path (before ++ gap) c cs :: body, by simp [tokens], ?_⟩
    intro t ht
    rcases List.mem_cons.mp ht with rfl | ht
    · exact Lexeme.ofSource_kind_ne_eof c cs
    · exact others t ht

/- The stored gaps and raw texts are those that the spans cut out. -/
theorem cuts_eq (h : Scans path before rest segments) (whole : source.toList = before ++ rest) :
    cuts source (String.utf8Len before) (segments.map Segment.token) =
      segments.map fun s => (s.gap, s.token.raw) := by
  have placed := h.placed whole
  induction h with
  | @finish before gap _ =>
    have text := (placed _ (List.mem_singleton.mpr rfl)).text
    simp only [List.map_cons, List.map_nil, cuts, text]
    rw [start_ending, slice_of_append before gap [] (by simpa using whole)]
  | @token before gap cs c segments _ _ _ _ ih =>
    have text := (placed _ List.mem_cons_self).text
    have tail := ih (whole.trans (behind_token before gap c cs).symm)
      (fun s hs => placed s (List.mem_cons_of_mem _ hs))
    simp only [List.map_cons, cuts, text]
    rw [stop_starting, tail, start_starting,
      slice_of_append before gap (c :: cs) (by simpa using whole)]

theorem concat (h : Scans path before rest segments) :
    String.join (segments.map fun s => s.gap ++ s.token.raw) = String.ofList rest := by
  induction h with
  | finish gap => simp [ending]
  | @token before gap cs c segments _ _ _ _ ih =>
    rw [List.map_cons, String.join_cons, ih]
    change String.ofList gap ++ String.ofList _ ++ _ = _
    rw [← String.ofList_append, ← String.ofList_append, List.append_assoc,
      Lexeme.ofSource_append]

theorem gaps_shape (h : Scans path before rest segments) (whole : source.toList = before ++ rest) :
    ∀ g ∈ gaps source (String.utf8Len before) (segments.map Segment.token),
      Gap g.1.toList g.2.toList := by
  induction h with
  | @finish before gap shape =>
    intro g hg
    rw [List.mem_singleton.mp hg, start_ending,
      slice_of_append before gap [] (by simpa using whole),
      slice_to_end (before ++ gap) [] (by simpa using whole)]
    simpa using shape
  | @token before gap cs c segments shape _ _ _ ih =>
    intro g hg
    rcases List.mem_cons.mp hg with rfl | hg
    · rw [start_starting, slice_of_append before gap (c :: cs) (by simpa using whole),
        slice_to_end (before ++ gap) (c :: cs) (by simpa using whole)]
      simpa using shape
    · rw [stop_starting] at hg
      exact ih (whole.trans (behind_token before gap c cs).symm) g hg

end Scans

end Token

/-- The end token is the last one and the only one of its kind, tokens stand in order and apart, and
nothing but gaps is between them. -/
structure Tiling (source : String) (tokens : List Token) : Prop where
  ended : ∃ body last, tokens = body ++ [last] ∧ (∀ t ∈ body, t.kind ≠ .eof) ∧ last.kind = .eof ∧
    last.start = source.utf8ByteSize ∧ last.stop = source.utf8ByteSize
  ordered : tokens.Pairwise fun t u => t.stop ≤ u.start
  inside : ∀ t ∈ tokens, t.start ≤ t.stop ∧ t.stop ≤ source.utf8ByteSize
  placed : ∀ t ∈ tokens, t.Placed source
  rebuilt : Token.rebuild source tokens = source
  gaps : ∀ g ∈ Token.gaps source 0 tokens, Gap g.1.toList g.2.toList

theorem tiling_scan (path source : String) : Tiling source (Token.all path source) := by
  have run := Token.scans_scan path source
  have placed : ∀ t ∈ Token.all path source, t.Placed source := by
    intro t ht
    obtain ⟨s, hs, rfl⟩ := List.mem_map.mp ht
    exact run.placed rfl s hs
  constructor
  · obtain ⟨body, tokens, others⟩ := run.ended
    refine ⟨body, _, tokens, others, rfl, ?_, ?_⟩
    · rw [Token.start_ending, List.nil_append, String.utf8Len_toList]
    · rw [Token.stop_ending, List.nil_append, String.utf8Len_toList]
  · exact run.ordered
  · intro t ht
    exact ⟨Nat.le_add_right _ _, (placed t ht).stops.le_utf8ByteSize⟩
  · exact placed
  · have cuts : Token.cuts source 0 (Token.all path source) = _ := run.cuts_eq rfl
    rw [Token.rebuild, cuts, List.map_map]
    exact run.concat.trans String.ofList_toList
  · exact run.gaps_shape rfl

end LineShell
