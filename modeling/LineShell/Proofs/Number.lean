import LineShell.Text

/-!
Which texts are numbers, and of which value.
-/

namespace LineShell.Text

def Digits (cs : List Char) : Prop :=
  cs ≠ [] ∧ ∀ c ∈ cs, c.isDigit = true

/-- A decimal number with an optional sign, and its value. -/
inductive Decimal : List Char → Int → Prop where
  | unsigned {cs : List Char} : Digits cs → Decimal cs (digitsValue cs)
  | plus {cs : List Char} : Digits cs → Decimal ('+' :: cs) (digitsValue cs)
  | minus {cs : List Char} : Digits cs → Decimal ('-' :: cs) (-digitsValue cs)

/-- The text of a signed number of 32 bits. -/
def Int32 (s : String) (n : Int) : Prop :=
  Decimal s.toList n ∧ -2147483648 ≤ n ∧ n ≤ 2147483647

/-- The text of a number of 64 bits, which has no minus sign. -/
def Word64 (s : String) (n : Nat) : Prop :=
  Decimal s.toList n ∧ s.toList.head? ≠ some '-' ∧ n < UInt64.size

theorem digits?_eq_some_iff {cs : List Char} {n : Nat} :
    digits? cs = some n ↔ Digits cs ∧ digitsValue cs = n := by
  simp only [digits?, List.all_eq_true]
  split
  · rename_i h
    exact ⟨fun e => ⟨h, Option.some.inj e⟩, fun e => congrArg some e.2⟩
  · rename_i h
    simp only [reduceCtorEq, false_iff]
    exact fun e => h e.1

/-- A sign is no digit, so a number is read in one way only. -/
theorem decimal_unsigned {cs : List Char} {n : Int} (plus : ∀ rest, cs ≠ '+' :: rest)
    (minus : ∀ rest, cs ≠ '-' :: rest) :
    Decimal cs n ↔ Digits cs ∧ n = digitsValue cs := by
  constructor
  · intro h
    cases h with
    | unsigned h => exact ⟨h, rfl⟩
    | plus h => exact absurd rfl (plus _)
    | minus h => exact absurd rfl (minus _)
  · rintro ⟨h, rfl⟩
    exact .unsigned h

theorem decimal_plus {cs : List Char} {n : Int} :
    Decimal ('+' :: cs) n ↔ Digits cs ∧ n = digitsValue cs := by
  constructor
  · intro h
    cases h with
    | unsigned h => exact absurd (h.2 '+' (by simp)) (by decide)
    | plus h => exact ⟨h, rfl⟩
  · rintro ⟨h, rfl⟩
    exact .plus h

theorem decimal_minus {cs : List Char} {n : Int} :
    Decimal ('-' :: cs) n ↔ Digits cs ∧ n = -digitsValue cs := by
  constructor
  · intro h
    cases h with
    | unsigned h => exact absurd (h.2 '-' (by simp)) (by decide)
    | minus h => exact ⟨h, rfl⟩
  · rintro ⟨h, rfl⟩
    exact .minus h

theorem int32?_eq_some_iff {s : String} {n : Int} : int32? s = some n ↔ Int32 s n := by
  simp only [int32?, Int32]
  split
  · rename_i rest hs
    simp only [hs, decimal_plus, Option.map_eq_some_iff, Option.filter_eq_some_iff,
      digits?_eq_some_iff, decide_eq_true_eq, Int.ofNat_eq_natCast]
    constructor
    · rintro ⟨m, ⟨⟨digits, rfl⟩, bound⟩, rfl⟩
      exact ⟨⟨digits, rfl⟩, by omega, by omega⟩
    · rintro ⟨⟨digits, rfl⟩, low, high⟩
      exact ⟨_, ⟨⟨digits, rfl⟩, by omega⟩, rfl⟩
  · rename_i rest hs
    simp only [hs, decimal_minus, Option.map_eq_some_iff, Option.bind_eq_some_iff, Option.pure_def,
      Option.bind_eq_bind, Option.filter_eq_some_iff, digits?_eq_some_iff, decide_eq_true_eq,
      Option.some.injEq]
    constructor
    · rintro ⟨_, ⟨m, ⟨⟨digits, rfl⟩, bound⟩, rfl⟩, rfl⟩
      exact ⟨⟨digits, rfl⟩, by omega, by omega⟩
    · rintro ⟨⟨digits, rfl⟩, low, high⟩
      exact ⟨_, ⟨_, ⟨⟨digits, rfl⟩, by omega⟩, rfl⟩, rfl⟩
  · rename_i plus minus
    simp only [decimal_unsigned plus minus, Option.map_eq_some_iff, Option.filter_eq_some_iff,
      digits?_eq_some_iff, decide_eq_true_eq, Int.ofNat_eq_natCast]
    constructor
    · rintro ⟨m, ⟨⟨digits, rfl⟩, bound⟩, rfl⟩
      exact ⟨⟨digits, rfl⟩, by omega, by omega⟩
    · rintro ⟨⟨digits, rfl⟩, low, high⟩
      exact ⟨_, ⟨⟨digits, rfl⟩, by omega⟩, rfl⟩

theorem word64?_eq_some_iff {s : String} {n : Nat} : word64? s = some n ↔ Word64 s n := by
  simp only [word64?, Word64, Option.filter_eq_some_iff, digits?_eq_some_iff, decide_eq_true_eq]
  split
  · rename_i rest hs
    simp only [hs, decimal_plus, Int.natCast_inj, List.head?_cons, ne_eq, Option.some.injEq]
    constructor
    · rintro ⟨⟨digits, value⟩, bound⟩
      exact ⟨⟨digits, value.symm⟩, by decide, bound⟩
    · rintro ⟨⟨digits, value⟩, -, bound⟩
      exact ⟨⟨digits, value.symm⟩, bound⟩
  · rename_i plus
    by_cases sign : s.toList.head? = some '-'
    · -- A minus sign is no digit.
      have minus : ¬ Digits s.toList := fun digits =>
        absurd (digits.2 '-' (List.mem_of_head? sign)) (by decide)
      simp [minus, sign]
    · have minus : ∀ rest, s.toList ≠ '-' :: rest := fun rest same => sign (by simp [same])
      simp only [decimal_unsigned plus minus, Int.natCast_inj]
      constructor
      · rintro ⟨⟨digits, value⟩, bound⟩
        exact ⟨⟨digits, value.symm⟩, sign, bound⟩
      · rintro ⟨⟨digits, value⟩, -, bound⟩
        exact ⟨⟨digits, value.symm⟩, bound⟩

end LineShell.Text
