import Mathlib.Data.List.DropRight
import LineShell.Text
import LineShell.Text.Utf8

/-!
Lines of bytes and lines of characters. No byte of a longer UTF-8 sequence looks like a newline or
a carriage return, so a text has the same lines whether it is cut before or after decoding.
-/

namespace LineShell.Text

section Splitting

variable {α : Type} [DecidableEq α] {newline ret : α}

/-- A text with its lines. A line end is a newline, with a carriage return in front of it or not. -/
inductive Lined (newline ret : α) : List α → List (List α) → Prop where
  | nil : Lined newline ret [] []
  | last {line : List α} : line ≠ [] → newline ∉ line → Lined newline ret line [line]
  | next {line ending rest : List α} {lines : List (List α)} :
      newline ∉ line → ending = [] ∨ ending = [ret] → Lined newline ret rest lines →
      Lined newline ret (line ++ (ending ++ newline :: rest)) (line :: lines)

theorem lined_splitLines (newline ret : α) :
    (xs : List α) → Lined newline ret xs (splitLines newline ret xs)
  | [] => .nil
  | x :: xs => by
    have tail := lined_splitLines newline ret xs
    rw [splitLines]
    split
    · rename_i ends
      subst ends
      exact @Lined.next _ _ _ [] [] xs _ (by simp) (.inl rfl) tail
    rename_i other
    split
    · rename_i returns
      obtain ⟨rfl, next⟩ := returns
      obtain ⟨ys, rfl⟩ := List.head?_eq_some_iff.mp next
      have behind := lined_splitLines newline x ys
      rw [splitLines, if_pos rfl]
      exact @Lined.next _ _ _ [] [x] ys _ (by simp) (.inr rfl) behind
    · have longer : ∀ {line : List α}, newline ∉ line → newline ∉ x :: line :=
        fun absent => List.not_mem_cons_of_ne_of_not_mem (Ne.symm other) absent
      generalize splitLines newline ret xs = lines at tail
      cases tail with
      | nil => exact .last (List.cons_ne_nil x []) (longer (by simp))
      | last _ absent => exact .last (List.cons_ne_nil x _) (longer absent)
      | next absent ending rest => exact Lined.next (longer absent) ending rest

/- A piece without line ends stays in one line with what follows it. -/
theorem splitLines_append {piece : List α} (nonempty : piece ≠ []) (plain : newline ∉ piece)
    (unreturned : ret ∉ piece) (xs : List α) :
    splitLines newline ret (piece ++ xs) =
      match splitLines newline ret xs with
      | [] => [piece]
      | line :: more => (piece ++ line) :: more := by
  induction piece with
  | nil => exact absurd rfl nonempty
  | cons x piece ih =>
    have ends : x ≠ newline := by
      rintro rfl
      exact plain List.mem_cons_self
    have returns : x ≠ ret := by
      rintro rfl
      exact unreturned List.mem_cons_self
    rw [List.cons_append, splitLines, if_neg ends, if_neg fun h => returns h.1]
    by_cases single : piece = []
    · subst single
      rw [List.nil_append]
      rfl
    · rw [ih single (fun h => plain (List.mem_cons_of_mem x h))
        fun h => unreturned (List.mem_cons_of_mem x h)]
      cases splitLines newline ret xs <;> rfl

/- A line that a newline ends, with no carriage return before it. -/
theorem splitLines_line {line : List α} (plain : newline ∉ line) (solid : line.getLast? ≠ some ret)
    (xs : List α) :
    splitLines newline ret (line ++ newline :: xs) = line :: splitLines newline ret xs := by
  induction line with
  | nil => rw [List.nil_append, splitLines, if_pos rfl]
  | cons x line ih =>
    obtain ⟨other, plain⟩ := List.ne_and_not_mem_of_not_mem_cons plain
    have within : ¬(x = ret ∧ (line ++ newline :: xs).head? = some newline) := by
      rintro ⟨rfl, next⟩
      cases line with
      | nil => exact solid rfl
      | cons y line => simp_all
    have tail : line.getLast? ≠ some ret := by
      intro last
      cases line with
      | nil => cases last
      | cons y line => exact solid (by rwa [List.getLast?_cons_cons])
    rw [List.cons_append, splitLines, if_neg (Ne.symm other), if_neg within, ih plain tail]

/- Behind a newline the lines start afresh. -/
theorem splitLines_behind (xs ys : List α) :
    splitLines newline ret (xs ++ newline :: ys) =
      splitLines newline ret (xs ++ [newline]) ++ splitLines newline ret ys := by
  induction xs with
  | nil => simp [splitLines]
  | cons x xs ih =>
    have head : (xs ++ newline :: ys).head? = (xs ++ [newline]).head? := by
      cases xs <;> rfl
    rw [List.cons_append, List.cons_append, splitLines, splitLines, head, ih]
    split
    · rfl
    split
    · rfl
    cases first : splitLines newline ret (xs ++ [newline]) with
    | cons line more => rfl
    | nil =>
      have lined := lined_splitLines newline ret (xs ++ [newline])
      rw [first] at lined
      generalize whole : xs ++ [newline] = text at lined
      cases lined
      simp at whole

theorem splitLines_single {line : List α} (nonempty : line ≠ []) (plain : newline ∉ line) :
    splitLines newline ret line = [line] := by
  induction line with
  | nil => exact absurd rfl nonempty
  | cons x line ih =>
    obtain ⟨other, plain⟩ := List.ne_and_not_mem_of_not_mem_cons plain
    have within : ¬(x = ret ∧ line.head? = some newline) :=
      fun h => plain (List.mem_of_head? h.2)
    rw [splitLines, if_neg (Ne.symm other), if_neg within]
    by_cases single : line = []
    · rw [single]
      rfl
    · rw [ih single plain]

variable {β : Type} [DecidableEq β] {newline' ret' : β}

/-- Lines survive an encoding in which line ends are written as themselves and nowhere else. -/
theorem splitLines_flatMap {encode : α → List β} (ends : encode newline = [newline'])
    (returns : encode ret = [ret']) (distinct : newline' ≠ ret')
    (other : ∀ x, x ≠ newline → x ≠ ret →
      encode x ≠ [] ∧ newline' ∉ encode x ∧ ret' ∉ encode x) (xs : List α) :
    splitLines newline' ret' (xs.flatMap encode) =
      (splitLines newline ret xs).map (List.flatMap encode) := by
  have apart : newline ≠ ret := by
    rintro rfl
    rw [ends] at returns
    exact distinct (List.singleton_inj.mp returns)
  -- An encoded text starts with a line end only where the text does.
  have first : ∀ ys : List α,
      (ys.flatMap encode).head? = some newline' ↔ ys.head? = some newline := by
    intro ys
    cases ys with
    | nil => simp
    | cons y ys =>
      by_cases same : y = newline
      · simp [same, ends]
      · by_cases back : y = ret
        · simp [back, returns, distinct.symm, apart.symm]
        · obtain ⟨nonempty, plain, _⟩ := other y same back
          obtain ⟨b, bs, written⟩ := List.exists_cons_of_ne_nil nonempty
          have differs : b ≠ newline' := by
            rintro rfl
            exact plain (written ▸ List.mem_cons_self)
          simp [written, differs, same]
  induction xs with
  | nil => rfl
  | cons x xs ih =>
    rw [List.flatMap_cons]
    by_cases same : x = newline
    · subst same
      rw [ends, List.singleton_append, splitLines, if_pos rfl, splitLines, if_pos rfl, ih]
      rfl
    by_cases back : x = ret
    · subst back
      rw [returns, List.singleton_append, splitLines, if_neg distinct.symm, splitLines,
        if_neg same, ih]
      simp only [first, true_and]
      split
      · rfl
      · cases splitLines newline x xs <;> simp [returns]
    · obtain ⟨nonempty, plain, unreturned⟩ := other x same back
      rw [splitLines_append nonempty plain unreturned, ih, splitLines, if_neg same,
        if_neg fun h => back h.1]
      cases splitLines newline ret xs <;> simp

end Splitting

/- The text up to its last newline. -/
theorem rdropWhile_newline (cs : List Char) :
    cs.rdropWhile (· ≠ '\n') = [] ∨ ∃ front, cs.rdropWhile (· ≠ '\n') = front ++ ['\n'] := by
  by_cases none : cs.rdropWhile (· ≠ '\n') = []
  · exact .inl none
  · have last : (cs.rdropWhile (· ≠ '\n')).getLast none = '\n' := by
      simpa using List.rdropWhile_last_not _ _ none
    have parts := List.dropLast_append_getLast none
    rw [last] at parts
    exact .inr ⟨_, parts.symm⟩

theorem newline_not_mem_rtakeWhile (cs : List Char) : '\n' ∉ cs.rtakeWhile (· ≠ '\n') := by
  intro member
  simpa using List.mem_rtakeWhile_imp member

theorem toList_eq_data (bytes : ByteArray) : bytes.toList = bytes.data.toList := by
  have loop (i : Nat) (taken : List UInt8) :
      ByteArray.toList.loop bytes i taken = taken.reverse ++ bytes.data.toList.drop i := by
    fun_induction ByteArray.toList.loop bytes i taken with
    | case1 i taken inside ih =>
      have bound : i < bytes.data.toList.length := by simpa using inside
      rw [ih, List.drop_eq_getElem_cons bound]
      simp [ByteArray.get!, inside]
    | case2 i taken outside =>
      rw [List.drop_eq_nil_of_le (by simpa using Nat.le_of_not_lt outside), List.append_nil]
  rw [ByteArray.toList, loop]
  rfl

/- A character above the seven bits of ASCII has no byte below them. -/
theorem utf8EncodeChar_high {c : Char} (high : 0x7f < c.val.toNat) :
    ∀ b ∈ String.utf8EncodeChar c, 0x80 ≤ b.toNat := by
  intro b member
  simp only [String.utf8EncodeChar, if_neg (Nat.not_le_of_lt high)] at member
  split at member
  · simp only [List.mem_cons, List.not_mem_nil, or_false] at member
    rcases member with rfl | rfl <;> simp only [UInt8.toNat_ofNat'] <;> omega
  split at member
  · simp only [List.mem_cons, List.not_mem_nil, or_false] at member
    rcases member with rfl | rfl | rfl <;> simp only [UInt8.toNat_ofNat'] <;> omega
  · simp only [List.mem_cons, List.not_mem_nil, or_false] at member
    rcases member with rfl | rfl | rfl | rfl <;> simp only [UInt8.toNat_ofNat'] <;> omega

theorem mem_utf8EncodeChar_low {c : Char} {b : UInt8} (low : b.toNat < 0x80)
    (member : b ∈ String.utf8EncodeChar c) : c.val.toNat = b.toNat := by
  by_cases high : 0x7f < c.val.toNat
  · have := utf8EncodeChar_high high b member
    omega
  · have single := Nat.le_of_not_lt high
    simp only [String.utf8EncodeChar, if_pos single, List.mem_singleton] at member
    rw [member, UInt8.toNat_ofNat']
    omega

theorem toList_toUTF8 (s : String) : s.toUTF8.toList = s.toList.flatMap String.utf8EncodeChar := by
  rw [toList_eq_data, String.toUTF8_eq_toByteArray, ← String.utf8Encode_toList,
    List.utf8Encode, List.toList_data_toByteArray]

theorem fromUTF8?_toUTF8 (s : String) : String.fromUTF8? s.toUTF8 = some s := by
  rw [String.fromUTF8?, String.toUTF8_eq_toByteArray, dif_pos s.isValidUTF8]
  rfl

theorem fromUTF8?_encode (cs : List Char) :
    String.fromUTF8? ⟨(cs.flatMap String.utf8EncodeChar).toArray⟩ = some (String.ofList cs) := by
  have bytes : (⟨(cs.flatMap String.utf8EncodeChar).toArray⟩ : ByteArray) =
      (String.ofList cs).toByteArray := by
    rw [String.toByteArray_ofList, List.utf8Encode]
    apply ByteArray.ext
    rw [List.data_toByteArray]
  rw [bytes]
  exact fromUTF8?_toUTF8 (String.ofList cs)

theorem byteLines_toUTF8 (s : String) : byteLines s.toUTF8 = (lines s).map some := by
  have other : ∀ c : Char, c ≠ '\n' → c ≠ '\r' → String.utf8EncodeChar c ≠ [] ∧
      (10 : UInt8) ∉ String.utf8EncodeChar c ∧ (13 : UInt8) ∉ String.utf8EncodeChar c := by
    intro c newline ret
    refine ⟨String.utf8EncodeChar_ne_nil, ?_, ?_⟩
    · intro member
      exact newline (Char.ext (UInt32.toNat_inj.mp (mem_utf8EncodeChar_low (by decide) member)))
    · intro member
      exact ret (Char.ext (UInt32.toNat_inj.mp (mem_utf8EncodeChar_low (by decide) member)))
  have split := @splitLines_flatMap Char _ '\n' '\r' UInt8 _ 10 13 String.utf8EncodeChar
    (by decide) (by decide) (by decide) other s.toList
  rw [byteLines, toList_toUTF8, split, lines, List.map_map, List.map_map]
  apply List.map_congr_left
  intro line _
  exact fromUTF8?_encode line

end LineShell.Text
