import LineShell.Proofs.Inside
import LineShell.Proofs.Ledger

/-!
A history as a reel of slots, the empty one at its end included. On a reel every access and every
subtraction is partial: it has no value out of its range. A history is never out of range, whatever
is done with it, and browsing shows what the steps up and down since its last line come to.
-/

namespace LineShell

/- Subtraction and slices that have no value out of their range. -/
namespace Strict

variable {α : Type}

def minus (a b : Nat) : Option Nat :=
  if b ≤ a then some (a - b) else none

def front (xs : List α) (n : Nat) : Option (List α) :=
  if n ≤ xs.length then some (xs.take n) else none

def behind (xs : List α) (n : Nat) : Option (List α) :=
  if n ≤ xs.length then some (xs.drop n) else none

theorem minus_of_le {a b : Nat} (h : b ≤ a) : minus a b = some (a - b) :=
  if_pos h

theorem front_of_le {xs : List α} {n : Nat} (h : n ≤ xs.length) : front xs n = some (xs.take n) :=
  if_pos h

theorem behind_of_le {xs : List α} {n : Nat} (h : n ≤ xs.length) :
    behind xs n = some (xs.drop n) :=
  if_pos h

end Strict

/-- The last slot is the empty one; `place`, `limit` and `unsaved` are those of the history. -/
structure Reel where
  slots : List String
  place : Nat
  limit : Nat
  unsaved : Nat
  deriving DecidableEq, Repr

/-- What can be done with a history. The file takes the new lines of a save, or it refuses them. -/
inductive Move where
  | add (line : String)
  | up
  | down
  | toEnd
  | save (taken : Bool)
  deriving DecidableEq, Repr

/-- The line that a move adds. -/
def Move.line? : Move → Option String
  | .add line => some line
  | _ => none

namespace Reel

open Strict

def new (limit : Nat) : Reel := ⟨[""], 0, limit, 0⟩

/-- The number of committed lines. -/
def count (r : Reel) : Option Nat :=
  minus r.slots.length 1

def committed (r : Reel) : Option (List String) := do
  front r.slots (← r.count)

def toEnd (r : Reel) : Option Reel := do
  return { r with place := ← r.count }

/-- Goes to a place and gives what is shown there. -/
def turn (r : Reel) (place : Nat) : Option (String × Reel) := do
  return (← r.slots[place]?, { r with place := place })

def up (r : Reel) : Option (String × Reel) :=
  r.turn (r.place - 1)

def down (r : Reel) : Option (String × Reel) :=
  r.turn (if r.place + 1 < r.slots.length then r.place + 1 else r.place)

/-- Drops the oldest slots past a limit. -/
def shorten (limit : Nat) (slots : List String) : Option (List String) := do
  let count ← minus slots.length 1
  if 0 < limit ∧ limit < count then behind slots (← minus count limit) else return slots

/-- Fills the last slot and puts an empty one behind it. Tells whether the line was recorded. -/
def push (r : Reel) (line : String) : Option (Bool × Reel) :=
  if Text.trim line = "" then some (false, r)
  else do
    let filled := r.slots.set (r.slots.length - 1) (Text.trim line)
    let slots ← shorten r.limit (filled ++ [""])
    return (true, { r with slots := slots, place := min r.place (← minus slots.length 1) })

def add (r : Reel) (line : String) : Option Reel := do
  let (recorded, pushed) ← r.push line
  if recorded then
    let unsaved := min (pushed.unsaved + 1) (← pushed.count)
    Reel.toEnd { pushed with unsaved := unsaved }
  else pushed.toEnd

/-- The new lines, which a save appends to the file. -/
def fresh (r : Reel) : Option (List String) := do
  let lines ← r.committed
  behind lines (← minus lines.length r.unsaved)

/-- Without new lines the file is not asked. -/
def save (r : Reel) (taken : Bool) : Option Reel :=
  if r.unsaved = 0 then some r
  else do
    let _ ← r.fresh
    return if taken then { r with unsaved := 0 } else r

def move (r : Reel) : Move → Option Reel
  | .add line => r.add line
  | .up => r.up.map Prod.snd
  | .down => r.down.map Prod.snd
  | .toEnd => r.toEnd
  | .save taken => r.save taken

/-- The history of a reel, without its empty slot. -/
def history (r : Reel) : History := ⟨r.slots.dropLast, r.place, r.limit, r.unsaved⟩

end Reel

namespace History

open Strict

def reel (h : History) : Reel := ⟨h.slots, h.place, h.limit, h.unsaved⟩

def move (h : History) : Move → History
  | .add line => h.add line
  | .up => h.up
  | .down => h.down
  | .toEnd => h.toEnd
  | .save taken => if taken then h.markSaved else h

variable {h : History}

theorem history_reel (h : History) : h.reel.history = h := by
  simp [reel, Reel.history, slots]

theorem length_slots (h : History) : h.slots.length = h.entries.length + 1 := by
  simp [slots]

theorem minus_slots (lines : List String) : minus (lines ++ [""]).length 1 = some lines.length := by
  rw [List.length_append, List.length_singleton, minus_of_le (Nat.le_add_left 1 _),
    Nat.add_sub_cancel]

theorem count_reel (h : History) : h.reel.count = some h.entries.length :=
  minus_slots h.entries

theorem committed_reel (h : History) : h.reel.committed = some h.entries := by
  have within : h.entries.length ≤ h.slots.length := by simp [slots]
  simp only [Reel.committed, count_reel, Option.bind_eq_bind, Option.bind_some]
  rw [reel, front_of_le within, slots, List.take_left]

theorem toEnd_reel (h : History) : h.reel.toEnd = some h.toEnd.reel := by
  simp only [Reel.toEnd, count_reel]
  rfl

theorem slot_shown {place : Nat} (valid : place ≤ h.entries.length) :
    h.slots[place]? = some { h with place := place }.shown := by
  have inside : place < h.slots.length := by
    rw [length_slots]
    omega
  change _ = some (h.slots.getD place "")
  rw [List.getD_eq_getElem?_getD, List.getElem?_eq_getElem inside, Option.getD_some]

theorem turn_reel {place : Nat} (valid : place ≤ h.entries.length) :
    h.reel.turn place =
      some ({ h with place := place }.shown, { h with place := place }.reel) := by
  simp only [Reel.turn, reel, slot_shown valid]
  rfl

theorem up_reel (valid : h.place ≤ h.entries.length) : h.reel.up = some (h.up.shown, h.up.reel) :=
  turn_reel (Nat.le_trans (Nat.sub_le _ _) valid)

theorem down_reel (valid : h.place ≤ h.entries.length) :
    h.reel.down = some (h.down.shown, h.down.reel) := by
  have below : h.reel.place + 1 < h.reel.slots.length ↔ h.place < h.entries.length := by
    simp [reel, length_slots]
  have inside := down_valid valid
  rw [down_place h h.place] at inside ⊢
  simp only [Reel.down, below]
  exact turn_reel inside

theorem shorten_slots (limit : Nat) (lines : List String) :
    Reel.shorten limit (lines ++ [""]) = some (cut limit lines ++ [""]) := by
  simp only [Reel.shorten, minus_slots, Option.bind_eq_bind, Option.bind_some, cut]
  by_cases free : limit = 0
  · simp [free]
  by_cases long : limit < lines.length
  · have excess : lines.length - limit ≤ (lines ++ [""]).length := by
      rw [List.length_append]
      omega
    rw [if_pos ⟨Nat.pos_of_ne_zero free, long⟩, if_neg free, minus_of_le (Nat.le_of_lt long),
      Option.bind_some, behind_of_le excess, List.drop_append_of_le_length (Nat.sub_le _ _)]
  · rw [if_neg fun h => long h.2, if_neg free, Nat.sub_eq_zero_of_le (Nat.le_of_not_lt long)]
    rfl

theorem push_reel (h : History) (line : String) :
    h.reel.push line =
      some (match h.push? line with
        | some pushed => (true, pushed.reel)
        | none => (false, h.reel)) := by
  unfold Reel.push push?
  by_cases blank : Text.trim line = ""
  · simp only [if_pos blank]
  have filled : h.reel.slots.set (h.reel.slots.length - 1) (Text.trim line) =
      h.entries ++ [Text.trim line] := by
    simp [reel, slots]
  simp only [if_neg blank, filled, shorten_slots, Option.bind_eq_bind, Option.bind_some,
    minus_slots]
  rfl

theorem add_reel (h : History) (line : String) : h.reel.add line = some (h.add line).reel := by
  simp only [Reel.add, push_reel, Option.bind_eq_bind, Option.bind_some, add]
  cases pushes : h.push? line with
  | none => exact toEnd_reel h
  | some pushed =>
    have kept : pushed.unsaved = h.unsaved := by
      simp only [push?] at pushes
      split at pushes
      · cases pushes
      · cases pushes
        rfl
    simp only [count_reel, ← kept, if_true, Option.bind_some]
    exact toEnd_reel { pushed with unsaved := min (pushed.unsaved + 1) pushed.entries.length }

theorem save_reel (valid : h.unsaved ≤ h.entries.length) (taken : Bool) :
    h.reel.save taken = some (h.move (.save taken)).reel := by
  have fresh : h.reel.fresh = some h.unsavedLines := by
    simp only [Reel.fresh, committed_reel, Option.bind_eq_bind, Option.bind_some]
    rw [show h.reel.unsaved = h.unsaved from rfl, minus_of_le valid]
    exact behind_of_le (Nat.sub_le _ _)
  unfold Reel.save
  by_cases none : h.reel.unsaved = 0
  · have saved : h.markSaved = h := by
      rw [markSaved, ← show h.unsaved = 0 from none]
    rw [if_pos none]
    cases taken with
    | false => rfl
    | true => rw [move, if_pos rfl, saved]
  · rw [if_neg none, fresh]
    cases taken <;> rfl

end History

/-- What a user knows of a history: the lines that went in, and how far browsing is up from the
empty slot. -/
structure View where
  lines : List String
  depth : Nat

namespace View

def start : View := ⟨[], 0⟩

def next (limit : Nat) (v : View) : Move → View
  | .add line => ⟨v.lines ++ History.recorded [line], 0⟩
  | .up => { v with depth := min (v.depth + 1) (newest limit v.lines).length }
  | .down => { v with depth := v.depth - 1 }
  | .toEnd => { v with depth := 0 }
  | .save _ => v

/-- A history that looks like a view. -/
structure Shows (limit : Nat) (v : View) (h : History) : Prop where
  held : ∃ old added, v.lines = old ++ added ∧ History.Holds limit old added h
  depth : v.depth ≤ h.entries.length
  place : h.place = h.entries.length - v.depth

variable {limit : Nat} {v : View} {h : History}

theorem Shows.entries (shows : v.Shows limit h) : h.entries = newest limit v.lines := by
  obtain ⟨old, added, lines, holds⟩ := shows.held
  rw [lines, holds.entries]

theorem Shows.unsaved (shows : v.Shows limit h) : h.unsaved ≤ h.entries.length := by
  obtain ⟨old, added, -, holds⟩ := shows.held
  rw [holds.unsaved, holds.entries]
  exact (newest_suffix_append limit old added).length_le

theorem Shows.valid (shows : v.Shows limit h) : h.place ≤ h.entries.length := by
  rw [shows.place]
  exact Nat.sub_le _ _

/- Browsing leaves the lines alone. -/
theorem Shows.browse (shows : v.Shows limit h) {place depth : Nat}
    (bound : depth ≤ h.entries.length) (same : place = h.entries.length - depth) :
    Shows limit { v with depth := depth } { h with place := place } := by
  obtain ⟨old, added, lines, holds⟩ := shows.held
  exact ⟨⟨old, added, lines, holds.browse place⟩, bound, same⟩

theorem Shows.add (shows : v.Shows limit h) (line : String) :
    (v.next limit (.add line)).Shows limit (h.add line) := by
  obtain ⟨old, added, lines, holds⟩ := shows.held
  have ends (h : History) : h.toEnd.place = h.entries.length := rfl
  have place : (h.add line).place = (h.add line).entries.length - 0 := by
    rw [Nat.sub_zero, ← ends, History.toEnd_add]
  refine ⟨⟨old, added ++ History.recorded [line], ?_, holds.add line⟩, Nat.zero_le _, place⟩
  rw [next, lines, List.append_assoc]

theorem Shows.save (shows : v.Shows limit h) (taken : Bool) :
    v.Shows limit (h.move (.save taken)) := by
  cases taken with
  | false => exact shows
  | true =>
    obtain ⟨old, added, lines, holds⟩ := shows.held
    exact ⟨⟨old ++ added, [], by rw [lines, List.append_nil], holds.markSaved⟩, shows.depth,
      shows.place⟩

theorem Shows.move (shows : v.Shows limit h) (m : Move) :
    h.reel.move m = some (h.move m).reel ∧ (v.next limit m).Shows limit (h.move m) := by
  have depth := shows.depth
  have place := shows.place
  cases m with
  | add line => exact ⟨History.add_reel h line, shows.add line⟩
  | up =>
    refine ⟨by rw [Reel.move, History.up_reel shows.valid]; rfl, ?_⟩
    rw [next, ← shows.entries]
    exact shows.browse (Nat.min_le_right _ _) (by omega)
  | down =>
    refine ⟨by rw [Reel.move, History.down_reel shows.valid]; rfl, ?_⟩
    rw [History.move, History.down_place h h.place]
    refine shows.browse (Nat.le_trans (Nat.sub_le _ _) depth) ?_
    split <;> omega
  | toEnd => exact ⟨History.toEnd_reel h, shows.browse (Nat.zero_le _) rfl⟩
  | save taken => exact ⟨History.save_reel shows.unsaved taken, shows.save taken⟩

theorem Shows.run (shows : v.Shows limit h) (moves : List Move) :
    moves.foldlM Reel.move h.reel = some (moves.foldl History.move h).reel ∧
      (moves.foldl (next limit) v).Shows limit (moves.foldl History.move h) := by
  induction moves generalizing v h with
  | nil => exact ⟨rfl, shows⟩
  | cons m moves ih =>
    obtain ⟨moved, after⟩ := shows.move m
    rw [List.foldlM_cons, moved]
    exact ih after

theorem lines_foldl (limit : Nat) (v : View) (moves : List Move) :
    (moves.foldl (next limit) v).lines =
      v.lines ++ History.recorded (moves.filterMap Move.line?) := by
  induction moves generalizing v with
  | nil => simp [History.recorded]
  | cons m moves ih =>
    rw [List.foldl_cons, ih]
    cases m with
    | add line =>
      rw [next, List.append_assoc, ← History.recorded_append, List.singleton_append]
      rfl
    | up | down | toEnd | save => rfl

end View

/-- A new history under any run of moves. The reel behind it never goes out of range. Its slots are
the lines that were added, trimmed, without the blank ones and cut to the limit, and an empty slot
behind them, so that neither browsing nor saving changes them. The place is a slot, and there are
no more unsaved lines than lines. What is shown is the slot that is as far up from the empty one as
the moves since the last line lead, and at most at the oldest line. -/
theorem reel_shows (limit : Nat) (moves : List Move) :
    let h := moves.foldl History.move (History.empty limit)
    let entries := newest limit (History.recorded (moves.filterMap Move.line?))
    let depth := (moves.foldl (View.next limit) View.start).depth
    ∃ reel, moves.foldlM Reel.move (Reel.new limit) = some reel ∧ h.reel = reel ∧
      reel.slots = entries ++ [""] ∧ reel.committed = some entries ∧
      reel.place < reel.slots.length ∧ reel.unsaved ≤ entries.length ∧ depth ≤ entries.length ∧
      reel.slots[reel.place]? = some h.shown ∧
      reel.slots[reel.place]? = reel.slots[entries.length - depth]? := by
  intro h entries depth
  have fresh : View.start.Shows limit (History.empty limit) := by
    refine ⟨⟨[], [], rfl, rfl, ?_, ?_⟩, Nat.zero_le _, rfl⟩
    · simp [History.empty, newest]
    · simp [History.empty, newest]
  obtain ⟨ran, shows⟩ := fresh.run moves
  have same : h.entries = entries := by
    have lines := View.lines_foldl limit View.start moves
    rw [shows.entries, lines]
    rfl
  have slots : h.reel.slots = entries ++ [""] := by rw [← same]; rfl
  have valid : h.reel.place < h.reel.slots.length := by
    rw [slots, ← same, List.length_append]
    exact Nat.lt_succ_of_le shows.valid
  have committed : h.reel.committed = some entries := same ▸ History.committed_reel h
  refine ⟨h.reel, ran, rfl, slots, committed, valid, same ▸ shows.unsaved, same ▸ shows.depth,
    History.slot_shown shows.valid, ?_⟩
  have place : h.reel.place = entries.length - depth := same ▸ shows.place
  rw [place]

end LineShell
