import LineShell.Proofs.Drawing
import LineShell.Proofs.Lines

/-!
Prompts on a screen. Of a prompt whose hidden parts are colours, the characters that count for its
length are the ones that are seen.
-/

namespace LineShell

open Text (isVisible)

namespace Prompt

/-- Characters that are seen, newlines, and colours between marks. -/
inductive Tame : List Char → Prop where
  | nil : Tame []
  | char {c : Char} {cs : List Char} : isVisible c = true ∨ c = '\n' → Tame cs → Tame (c :: cs)
  | region {colour cs : List Char} : Coloured colour [] → Tame cs →
      Tame (hideMark :: (colour ++ showMark :: cs))

/-- The characters outside the marks; the flag says whether they are hidden at the start. -/
def seenFrom : Bool → List Char → List Char
  | _, [] => []
  | hidden, c :: cs =>
    if c = hideMark then seenFrom true cs
    else if c = showMark then seenFrom false cs
    else if hidden then seenFrom hidden cs
    else c :: seenFrom hidden cs

/-- What is seen of the last line of a prompt. -/
def lastLine (prompt : String) : List Char :=
  seenFrom false (prompt.toList.rtakeWhile (· ≠ '\n'))

theorem length_seenFrom (hidden : Bool) (cs : List Char) :
    (seenFrom hidden cs).length = visibleFrom hidden cs := by
  fun_induction seenFrom hidden cs with
  | case1 => rfl
  | case2 _ _ ih => simpa [visibleFrom] using ih
  | case3 _ _ _ ih => simpa [visibleFrom, hideMark, showMark] using ih
  | case4 c cs other shown ih => simpa [visibleFrom, other, shown] using ih
  | case5 hidden c cs other shown free ih => simpa [visibleFrom, other, shown, free] using ih

theorem head_split (prompt : String) :
    (split prompt).head.toList =
      (prompt.toList.rdropWhile (· ≠ '\n')).filter fun c => !isMark c := by
  rw [split, dropMarks, String.toList_ofList, String.toList_ofList]
  rfl

theorem last_split (prompt : String) :
    (split prompt).last.toList =
      (prompt.toList.rtakeWhile (· ≠ '\n')).filter fun c => !isMark c := by
  simp only [split, dropMarks, String.toList_ofList]
  rfl

theorem length_split (prompt : String) : (split prompt).length = (lastLine prompt).length := by
  rw [lastLine, length_seenFrom]
  rfl

theorem mem_of_mem_seenFrom {hidden : Bool} {cs : List Char} {c : Char}
    (member : c ∈ seenFrom hidden cs) : c ∈ cs := by
  fun_induction seenFrom hidden cs with
  | case1 => exact member
  | case2 _ _ ih => exact List.mem_cons_of_mem _ (ih member)
  | case3 _ _ _ ih => exact List.mem_cons_of_mem _ (ih member)
  | case4 d cs other shown ih => exact List.mem_cons_of_mem d (ih member)
  | case5 hidden d cs other shown free ih =>
    rcases List.mem_cons.mp member with rfl | member
    · exact List.mem_cons_self
    · exact List.mem_cons_of_mem d (ih member)

theorem isMark_eq_false_iff {c : Char} : isMark c = false ↔ c ≠ hideMark ∧ c ≠ showMark := by
  simp [isMark]

/- Colours hold neither marks nor newlines. -/
theorem mem_colour {text source : List Char} (h : Coloured text source) :
    ∀ c ∈ text, c ∈ source ∨ isMark c = false ∧ c ≠ '\n' := by
  induction h with
  | nil => simp
  | @char text source d _ ih =>
    intro c member
    rcases List.mem_cons.mp member with rfl | member
    · exact .inl List.mem_cons_self
    · exact (ih c member).imp_left (List.mem_cons_of_mem d)
  | @sequence parameters text source inner _ ih =>
    intro c member
    simp only [List.mem_cons, List.mem_append] at member
    rcases member with rfl | rfl | parameter | rfl | member
    · exact .inr (by decide)
    · exact .inr (by decide)
    · have digit := inner c parameter
      refine .inr ⟨isMark_eq_false_iff.mpr ⟨?_, ?_⟩, ?_⟩ <;> rintro rfl <;> cases digit
    · exact .inr (by decide)
    · exact ih c member

theorem plain_colour {colour : List Char} (h : Coloured colour []) {c : Char} (member : c ∈ colour) :
    isMark c = false ∧ c ≠ '\n' :=
  (mem_colour h c member).resolve_left List.not_mem_nil

theorem seenFrom_region {colour : List Char} (plain : ∀ c ∈ colour, isMark c = false)
    (cs : List Char) : seenFrom true (colour ++ showMark :: cs) = seenFrom false cs := by
  induction colour with
  | nil => simp [seenFrom, hideMark, showMark]
  | cons c colour ih =>
    have first := isMark_eq_false_iff.mp (plain c List.mem_cons_self)
    have rest := ih fun d member => plain d (List.mem_cons_of_mem c member)
    simpa [seenFrom, first.1, first.2] using rest

namespace Tame

variable {cs : List Char}

theorem isMark_eq_false {c : Char} (shown : isVisible c = true ∨ c = '\n') : isMark c = false := by
  rw [isMark_eq_false_iff]
  constructor <;> rintro rfl <;> exact absurd shown (by decide)

/- Without its marks, a prompt is what is seen of it, in colours. -/
theorem coloured (h : Tame cs) :
    Coloured (cs.filter fun c => !isMark c) (seenFrom false cs) := by
  induction h with
  | nil => exact .nil
  | @char c cs shown _ ih =>
    have plain := isMark_eq_false shown
    have other := isMark_eq_false_iff.mp plain
    simp only [List.filter_cons, plain, seenFrom, other.1, other.2]
    exact .char c ih
  | @region colour cs hidden _ ih =>
    have plain : ∀ c ∈ colour, isMark c = false := fun c member => (plain_colour hidden member).1
    have kept : colour.filter (fun c => !isMark c) = colour :=
      List.filter_eq_self.mpr fun c member => by simp [plain c member]
    have text : (hideMark :: (colour ++ showMark :: cs)).filter (fun c => !isMark c) =
        colour ++ cs.filter fun c => !isMark c := by
      have hide : isMark hideMark = true := rfl
      have show' : isMark showMark = true := rfl
      simp [List.filter_append, hide, show', kept]
    rw [text, seenFrom, if_pos rfl, seenFrom_region plain]
    exact hidden.before ih

theorem seen (h : Tame cs) : ∀ c ∈ seenFrom false cs, isVisible c = true ∨ c = '\n' := by
  induction h with
  | nil => simp [seenFrom]
  | @char c cs shown _ ih =>
    have other := isMark_eq_false_iff.mp (isMark_eq_false shown)
    simp only [seenFrom, other.1, other.2]
    exact List.forall_mem_cons.mpr ⟨shown, ih⟩
  | @region colour cs hidden _ ih =>
    rw [seenFrom, if_pos rfl, seenFrom_region fun c member => (plain_colour hidden member).1]
    exact ih

/- A newline is never inside a region. -/
theorem cut (h : Tame cs) {before behind : List Char} (parts : cs = before ++ '\n' :: behind) :
    Tame (before ++ ['\n']) ∧ Tame behind := by
  induction h generalizing before with
  | nil => simp at parts
  | @char c cs shown tail ih =>
    cases before with
    | nil =>
      obtain ⟨rfl, rfl⟩ := List.cons.inj parts
      exact ⟨.char shown .nil, tail⟩
    | cons d before =>
      obtain ⟨rfl, rest⟩ := List.cons.inj parts
      obtain ⟨first, second⟩ := ih rest
      exact ⟨.char shown first, second⟩
  | @region colour cs hidden tail ih =>
    have inside : '\n' ∉ hideMark :: (colour ++ [showMark]) := by
      simp only [List.mem_cons, List.mem_append, List.not_mem_nil, or_false]
      rintro (mark | member | mark)
      · cases mark
      · exact (plain_colour hidden member).2 rfl
      · cases mark
    have text : hideMark :: (colour ++ [showMark]) ++ cs = before ++ '\n' :: behind := by
      simpa using parts
    rcases List.append_eq_append_iff.mp text with ⟨more, rfl, rest⟩ | ⟨more, block, rest⟩
    · obtain ⟨first, second⟩ := ih rest
      refine ⟨?_, second⟩
      simpa using Tame.region hidden first
    · cases more with
      | nil =>
        rw [List.append_nil] at block
        have next : cs = [] ++ '\n' :: behind := rest.symm
        refine ⟨?_, (ih next).2⟩
        rw [← block]
        simpa using Tame.region hidden (.char (.inr rfl) .nil)
      | cons d more =>
        obtain ⟨rfl, _⟩ := List.cons.inj rest
        rw [block] at inside
        exact absurd (List.mem_append_right before List.mem_cons_self) inside

/- Both parts of a prompt are tame: the first is empty or ends in a newline. -/
theorem parts (h : Tame cs) :
    Tame (cs.rdropWhile (· ≠ '\n')) ∧ Tame (cs.rtakeWhile (· ≠ '\n')) := by
  have whole := List.rdropWhile_append_rtakeWhile (p := fun c => decide (c ≠ '\n')) (l := cs)
  obtain single | ⟨front, ends⟩ := Text.rdropWhile_newline cs
  · rw [single, List.nil_append] at whole
    rw [single, whole]
    exact ⟨.nil, h⟩
  · rw [ends, List.append_assoc, List.singleton_append] at whole
    rw [ends]
    exact h.cut whole.symm

end Tame

variable {prompt : String}

theorem coloured_last (h : Tame prompt.toList) :
    Coloured (split prompt).last.toList (lastLine prompt) := by
  rw [last_split]
  exact h.parts.2.coloured

theorem visible_lastLine (h : Tame prompt.toList) : ∀ c ∈ lastLine prompt, isVisible c = true := by
  intro c member
  apply (h.parts.2.seen c member).resolve_right
  rintro rfl
  have inside := List.mem_rtakeWhile_imp (mem_of_mem_seenFrom member)
  exact absurd inside (by decide)

end Prompt

namespace Glass.Fresh

variable {g : Glass} {w : Nat}

theorem step (h : g.Fresh w) {c : Char} (shown : isVisible c = true ∨ c = '\n') :
    (g.step c).Fresh w := by
  rcases shown with visible | rfl
  · have lower : g.row ≤ g.wrap.row := by
      unfold wrap
      split
      · exact Nat.le_succ _
      · exact Nat.le_refl _
    have same : g.wrap.cells = g.cells ∧ g.wrap.width = g.width := by
      unfold wrap
      split <;> exact ⟨rfl, rfl⟩
    refine ⟨step_ground h.ground (ne_escape visible), ?_, ?_⟩
    · rw [step_visible h.ground visible]
      exact same.2.trans h.width
    · rw [step_visible h.ground visible]
      intro r k under inside
      have other : ¬ (r = g.wrap.row ∧ k = g.wrap.column) := fun here => Nat.ne_of_gt under here.1
      have old := h.below r k (Nat.lt_of_le_of_lt lower under) inside
      rw [← same.1] at old
      exact (if_neg other).trans old
  · have moved : g.step '\n' = g.moveTo (g.row + 1) g.column := by simp [Glass.step, h.ground]
    rw [moved]
    refine ⟨h.ground, h.width, ?_⟩
    intro r k under inside
    exact h.below r k (Nat.lt_trans (Nat.lt_succ_self _) under) inside

theorem feed (h : g.Fresh w) {text : List Char}
    (shown : ∀ c ∈ text, isVisible c = true ∨ c = '\n') : (g.feed text).Fresh w := by
  induction text generalizing g with
  | nil => exact h
  | cons c text ih =>
    have first := shown c List.mem_cons_self
    exact ih (h.step first) fun d member => shown d (List.mem_cons_of_mem c member)

/- The lines above the last one leave nothing under them. -/
theorem feed_head (h : g.Fresh w) {prompt : String} (tame : Prompt.Tame prompt.toList) :
    (g.feed (Prompt.split prompt).head.toList).Fresh w := by
  have shown := tame.parts.1.seen
  have plain : ∀ c ∈ Prompt.seenFrom false (prompt.toList.rdropWhile (· ≠ '\n')), c ≠ '\x1b' := by
    intro c member
    rintro rfl
    exact absurd (shown _ member) (by decide)
  rw [Prompt.head_split, feed_coloured h.ground tame.parts.1.coloured plain]
  exact h.feed shown

end Glass.Fresh

end LineShell
