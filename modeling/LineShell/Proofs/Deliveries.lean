import LineShell.Keyboard
import Mathlib.Data.List.Basic
import Mathlib.Data.List.Induction

/-!
A keyboard while reads arrive and the window changes its size. A call for a key looks for what can
be delivered and only then reads, and signals and reads can come between any two such steps. Each
read is delivered whole and in order, and a resize only where no key waits.
-/

namespace LineShell

structure Read where
  bytes : List UInt8
  nonempty : bytes ≠ []
  short : bytes.length ≤ Pipe.readSize
  deriving DecidableEq

namespace Read

/-- What calls answer for a read, one after the other. -/
def answers (r : Read) : List (Option Key) :=
  if r.bytes.head? = some Key.escapeByte then [Key.decode? r.bytes]
  else r.bytes.map fun b => some (Key.ofByte b)

end Read

/-- `reads` have arrived and have not been taken, oldest first; `reading` tells that a call has found
nothing to deliver and is about to read. -/
structure Console where
  keyboard : Keyboard
  reads : List Read
  reading : Bool

namespace Console

def idle : Console := ⟨Keyboard.idle, [], false⟩

/-- What can happen next: the window changes its size, bytes arrive, or the program makes its next
step, which starts a call or goes on with the one that it is in. -/
inductive Turn where
  | signal
  | arrival (read : Read)
  | advance

/-- What has happened. A call that finds something ends with an answer; one that does not looks, and
then reads or finds nothing. -/
inductive Entry where
  | signal
  | arrival (read : Read)
  | look
  | answer (key : Option Key)
  | nothing
  deriving DecidableEq

/-- The first half of a call delivers what waits, and the second half takes a read. A call that
blocks makes its second half when there is a read. -/
def step (c : Console) : Turn → Entry × Console
  | .signal => (.signal, { c with keyboard := c.keyboard.signal })
  | .arrival read => (.arrival read, { c with reads := c.reads ++ [read] })
  | .advance =>
    if c.reading then
      match c.reads with
      | [] => (.nothing, { c with reading := false })
      | read :: rest =>
        let (key, keyboard) := c.keyboard.accept read.bytes
        (.answer key, ⟨keyboard, rest, false⟩)
    else
      match c.keyboard.waiting? with
      | some (key, keyboard) => (.answer (some key), { c with keyboard := keyboard })
      | none => (.look, { c with reading := true })

def call (c : Console) : Entry × Console :=
  match c.step .advance with
  | (.look, next) => next.step .advance
  | done => done

def record (s : List Entry × Console) (t : Turn) : List Entry × Console :=
  let (entry, next) := s.2.step t
  (s.1 ++ [entry], next)

def run (turns : List Turn) : List Entry × Console :=
  turns.foldl record ([], idle)

namespace Entry

def key? : Entry → Option Key
  | answer key => key
  | _ => none

def read? : Entry → Option Read
  | arrival read => some read
  | _ => none

/-- The answer that a call gives for a read; a resize is none. -/
def answer? : Entry → Option (Option Key)
  | answer key => if key = some .resize then none else some key
  | _ => none

end Entry

def arrivals (log : List Entry) : List Read :=
  log.filterMap Entry.read?

def answers (log : List Entry) : List (Option Key) :=
  log.filterMap Entry.answer?

def Due (log : List Entry) : Prop :=
  ∃ front back, log = front ++ .signal :: back ∧ .answer (some .resize) ∉ back

/-- The next step of a call, by what waits and by whether a resize is due. -/
inductive Advances (due : Prop) : Console → Entry → Console → Prop where
  | deliver {key : Key} {rest : List Key} {resized : Bool} {reads : List Read} :
      Advances due ⟨⟨key :: rest, resized⟩, reads, false⟩ (.answer (some key))
        ⟨⟨rest, resized⟩, reads, false⟩
  | resize {resized : Bool} {reads : List Read} : due →
      Advances due ⟨⟨[], resized⟩, reads, false⟩ (.answer (some .resize))
        ⟨⟨[], false⟩, reads, false⟩
  | look {resized : Bool} {reads : List Read} : ¬ due →
      Advances due ⟨⟨[], resized⟩, reads, false⟩ .look ⟨⟨[], resized⟩, reads, true⟩
  | take {read : Read} {first : Option Key} {others : List Key} {resized : Bool}
      {reads : List Read} : read.answers = first :: others.map some →
      Advances due ⟨⟨[], resized⟩, read :: reads, true⟩ (.answer first)
        ⟨⟨others, resized⟩, reads, false⟩
  | nothing {resized : Bool} :
      Advances due ⟨⟨[], resized⟩, [], true⟩ .nothing ⟨⟨[], resized⟩, [], false⟩

/-- Reads are taken in the order of their arrival, and all but the last one taken have been answered
whole; what waits is the rest of the last one. -/
def Accounted (log : List Entry) (c : Console) : Prop :=
  ∃ (earlier : List Read) (current : Option Read) (given : List (Option Key)),
    arrivals log = earlier ++ current.toList ++ c.reads ∧
      answers log = earlier.flatMap Read.answers ++ given ∧
      given ++ c.keyboard.pending.map some = current.toList.flatMap Read.answers

section Answers

theorem ofByte_ne_resize (b : UInt8) : Key.ofByte b ≠ .resize := by
  unfold Key.ofByte
  repeat' split
  all_goals nofun

theorem arrow?_ne_resize {b : UInt8} {key : Key} (found : Key.arrow? b = some key) :
    key ≠ .resize ∧ key.withCtrl ≠ .resize := by
  unfold Key.arrow? at found
  repeat' split at found
  all_goals cases found
  all_goals decide

theorem ofSequence?_ne_resize (bytes : List UInt8) : Key.ofSequence? bytes ≠ some .resize := by
  intro resize
  unfold Key.ofSequence? at resize
  split at resize
  · cases resize
  · exact (arrow?_ne_resize resize).1 rfl
  · obtain ⟨key, found, same⟩ := Option.map_eq_some_iff.mp resize
    exact (arrow?_ne_resize found).2 same
  · cases resize

theorem answers_ne_resize (r : Read) : some .resize ∉ r.answers := by
  obtain ⟨bytes, nonempty, -⟩ := r
  obtain ⟨b, bs, rfl⟩ := List.exists_cons_of_ne_nil nonempty
  unfold Read.answers
  split
  · rename_i escape
    have first : b = Key.escapeByte := by simpa using escape
    intro member
    rw [List.mem_singleton, Key.decode?, if_pos first] at member
    exact ofSequence?_ne_resize bs member.symm
  · intro member
    obtain ⟨b, -, same⟩ := List.mem_map.mp member
    exact ofByte_ne_resize b (Option.some.inj same)

theorem accept_answers (r : Read) (resized : Bool) :
    ∃ others, r.answers = (Keyboard.accept ⟨[], resized⟩ r.bytes).1 :: others.map some ∧
      (Keyboard.accept ⟨[], resized⟩ r.bytes).2 = ⟨others, resized⟩ := by
  obtain ⟨bytes, nonempty, -⟩ := r
  obtain ⟨b, bs, rfl⟩ := List.exists_cons_of_ne_nil nonempty
  by_cases escape : b = Key.escapeByte
  · exact ⟨[], by simp [Read.answers, Keyboard.accept, escape],
      by simp [Keyboard.accept, escape]⟩
  · exact ⟨bs.map Key.ofByte, by simp [Read.answers, Keyboard.accept, escape],
      by simp [Keyboard.accept, escape]⟩

end Answers

section Logs

variable {log : List Entry} {e : Entry}

@[simp] theorem arrivals_concat (log : List Entry) (e : Entry) :
    arrivals (log ++ [e]) = arrivals log ++ e.read?.toList := by
  cases found : e.read? <;> simp [arrivals, found]

@[simp] theorem answers_concat (log : List Entry) (e : Entry) :
    answers (log ++ [e]) = answers log ++ e.answer?.toList := by
  cases found : e.answer? <;> simp [answers, found]

/-- A resize is due behind a signal, and stays due until it is delivered. -/
theorem due_concat (log : List Entry) (e : Entry) :
    Due (log ++ [e]) ↔ e = .signal ∨ Due log ∧ e ≠ .answer (some .resize) := by
  constructor
  · rintro ⟨front, back, parts, free⟩
    rcases List.eq_nil_or_concat' back with rfl | ⟨rest, last, rfl⟩
    · exact .inl (List.singleton_inj.mp (List.append_inj_right' parts rfl))
    · rw [← List.cons_append, ← List.append_assoc] at parts
      obtain rfl : log = front ++ .signal :: rest := List.append_inj_left' parts rfl
      obtain rfl : e = last := List.singleton_inj.mp (List.append_inj_right' parts rfl)
      refine .inr ⟨⟨front, rest, rfl, fun member => free (by simp [member])⟩, ?_⟩
      rintro rfl
      exact free (by simp)
  · rintro (rfl | ⟨⟨front, back, rfl, free⟩, other⟩)
    · exact ⟨log, [], rfl, List.not_mem_nil⟩
    · refine ⟨front, back ++ [e], by simp, ?_⟩
      intro member
      rcases List.mem_append.mp member with old | new
      · exact free old
      · exact other (List.mem_singleton.mp new).symm

end Logs

structure Kept (log : List Entry) (c : Console) : Prop where
  due : c.keyboard.resized = true ↔ Due log
  /-- A call reads only where nothing waits. -/
  empty : c.reading = true → c.keyboard.pending = []
  accounted : Accounted log c

section Steps

variable {log : List Entry} {c next : Console} {e : Entry}

theorem Kept.advances (kept : Kept log c) :
    Advances (Due log) c (c.step .advance).1 (c.step .advance).2 := by
  obtain ⟨due, empty, -⟩ := kept
  obtain ⟨⟨pending, resized⟩, reads, reading⟩ := c
  cases reading with
  | true =>
    obtain rfl : pending = [] := empty rfl
    cases reads with
    | nil => exact .nothing
    | cons read rest =>
      obtain ⟨others, answers, left⟩ := accept_answers read resized
      have taken : Advances (Due log) ⟨⟨[], resized⟩, read :: rest, true⟩ (.answer _)
          ⟨⟨others, resized⟩, rest, false⟩ := .take answers
      rw [← left] at taken
      exact taken
  | false =>
    cases pending with
    | cons key rest => exact .deliver
    | nil =>
      cases resized with
      | true => exact .resize (due.mp rfl)
      | false => exact .look fun h => absurd (due.mpr h) nofun

theorem Accounted.pending_ne_resize (accounted : Accounted log c) :
    Key.resize ∉ c.keyboard.pending := by
  obtain ⟨earlier, current, given, -, -, rest⟩ := accounted
  intro waits
  have member : some Key.resize ∈ current.toList.flatMap Read.answers := by
    rw [← rest]
    exact List.mem_append_right _ (List.mem_map_of_mem waits)
  obtain ⟨read, -, answered⟩ := List.mem_flatMap.mp member
  exact answers_ne_resize read answered

/- What is neither a read nor an answer to one leaves the account as it is. -/
theorem Accounted.quiet (accounted : Accounted log c) (reads : next.reads = c.reads)
    (pending : next.keyboard.pending = c.keyboard.pending) (arrival : e.read? = none)
    (answer : e.answer? = none) : Accounted (log ++ [e]) next := by
  obtain ⟨earlier, current, given, arrived, answered, rest⟩ := accounted
  refine ⟨earlier, current, given, ?_, ?_, ?_⟩
  · simpa [arrival, reads] using arrived
  · simpa [answer] using answered
  · rw [pending]
    exact rest

/-- Where no key waits, all reads that have been taken are answered whole. -/
theorem Accounted.whole (accounted : Accounted log c) (empty : c.keyboard.pending = []) :
    ∃ taken, arrivals log = taken ++ c.reads ∧ answers log = taken.flatMap Read.answers := by
  obtain ⟨earlier, current, given, arrived, answered, rest⟩ := accounted
  refine ⟨earlier ++ current.toList, arrived, ?_⟩
  rw [empty, List.map_nil, List.append_nil] at rest
  rw [answered, rest, List.flatMap_append]

theorem Kept.advance (kept : Kept log c) (advances : Advances (Due log) c e next) :
    Kept (log ++ [e]) next := by
  obtain ⟨due, -, accounted⟩ := kept
  cases advances with
  | @deliver key others resized reads =>
    have other : key ≠ .resize := fun same => accounted.pending_ne_resize (by simp [same])
    obtain ⟨earlier, current, given, arrived, answered, rest⟩ := accounted
    refine ⟨by simpa [due_concat, other] using due, nofun, ?_⟩
    refine ⟨earlier, current, given ++ [some key], ?_, ?_, ?_⟩
    · simpa [Entry.read?] using arrived
    · simp [Entry.answer?, other, answered]
    · simpa using rest
  | resize =>
    exact ⟨by simp [due_concat], nofun, accounted.quiet rfl rfl rfl rfl⟩
  | look =>
    exact ⟨by simpa [due_concat] using due, fun _ => rfl, accounted.quiet rfl rfl rfl rfl⟩
  | @take read first others resized reads answers =>
    have other : first ≠ some .resize := fun same => answers_ne_resize read (by simp [answers, same])
    obtain ⟨taken, arrived, answered⟩ := accounted.whole rfl
    refine ⟨by simpa [due_concat, other] using due, nofun, taken, some read, [first], ?_, ?_, ?_⟩
    · simpa [Entry.read?] using arrived
    · simp [Entry.answer?, other, answered]
    · simp [answers]
  | nothing =>
    exact ⟨by simpa [due_concat] using due, nofun, accounted.quiet rfl rfl rfl rfl⟩

theorem Kept.step (kept : Kept log c) (t : Turn) : Kept (log ++ [(c.step t).1]) (c.step t).2 := by
  cases t with
  | signal =>
    exact ⟨by simp [Console.step, due_concat, Keyboard.signal], kept.empty,
      kept.accounted.quiet rfl rfl rfl rfl⟩
  | arrival read =>
    obtain ⟨due, empty, earlier, current, given, arrived, answered, rest⟩ := kept
    refine ⟨by simpa [Console.step, due_concat] using due, empty,
      earlier, current, given, ?_, ?_, rest⟩
    · simp [Console.step, Entry.read?, arrived]
    · simpa [Console.step, Entry.answer?] using answered
  | advance => exact kept.advance kept.advances

theorem kept_idle : Kept [] idle := by
  refine ⟨iff_of_false nofun ?_, nofun, [], none, [], rfl, rfl, rfl⟩
  rintro ⟨front, back, parts, -⟩
  simp at parts

theorem run_concat (turns : List Turn) (t : Turn) :
    run (turns ++ [t]) =
      ((run turns).1 ++ [((run turns).2.step t).1], ((run turns).2.step t).2) := by
  simp [run, record]

theorem kept_run (turns : List Turn) : Kept (run turns).1 (run turns).2 := by
  induction turns using List.reverseRecOn with
  | nil => exact kept_idle
  | append_singleton turns t ih =>
    rw [run_concat]
    exact ih.step t

/- Each turn leaves one entry, so a log is cut where its turns are. -/
theorem run_cut {turns : List Turn} {front back : List Entry}
    (parts : (run turns).1 = front ++ e :: back) :
    ∃ before t, (run before).1 = front ∧ ((run before).2.step t).1 = e := by
  induction turns using List.reverseRecOn generalizing back with
  | nil => simp [run] at parts
  | append_singleton turns t ih =>
    rw [run_concat] at parts
    rcases List.eq_nil_or_concat' back with rfl | ⟨rest, last, rfl⟩
    · exact ⟨turns, t, List.append_inj_left' parts rfl,
        List.singleton_inj.mp (List.append_inj_right' parts rfl)⟩
    · rw [← List.cons_append, ← List.append_assoc] at parts
      exact ih (List.append_inj_left' parts rfl)

/-- A resize is delivered only where it is due and all reads taken so far are answered whole. -/
theorem Kept.resize (kept : Kept log c) {t : Turn}
    (resize : (c.step t).1 = .answer (some .resize)) :
    Due log ∧ ∃ taken, taken <+: arrivals log ∧ answers log = taken.flatMap Read.answers := by
  cases t with
  | signal | arrival => cases resize
  | advance =>
    have advances := kept.advances
    have accounted := kept.accounted
    rw [resize] at advances
    generalize (c.step .advance).2 = next at advances
    cases advances with
    | deliver => exact absurd List.mem_cons_self accounted.pending_ne_resize
    | resize due =>
      obtain ⟨taken, arrived, answered⟩ := accounted.whole rfl
      exact ⟨due, taken, ⟨_, arrived.symm⟩, answered⟩
    | @take read _ _ _ _ answers =>
      exact absurd (answers ▸ List.mem_cons_self) (answers_ne_resize read)

end Steps

/-- The bytes that a call finds if it comes to read. -/
def front (c : Console) : Pipe :=
  ⟨(c.reads.head?.map Read.bytes).getD [], false⟩

theorem read_front (read : Read) (rest : List Read) (k : Keyboard) (reading : Bool) :
    (front ⟨k, read :: rest, reading⟩).read = (.ok read.bytes, ⟨[], false⟩) := by
  have whole : read.bytes.take Pipe.readSize = read.bytes := List.take_of_length_le read.short
  have none : read.bytes.drop Pipe.readSize = [] := List.drop_eq_nil_of_le read.short
  simp [front, Pipe.read, whole, none]

/-- A call with nothing in between is a call of the keyboard, and it takes the oldest read if it
leaves nothing of it. -/
theorem call_eq_readKey {c : Console} (ready : c.reading = false) :
    ∃ left, c.keyboard.readKey c.front = (.ok c.call.1.key?, c.call.2.keyboard, ⟨left, false⟩) ∧
      c.call.2.reads = if left = [] then c.reads.tail else c.reads := by
  obtain ⟨k, reads, reading⟩ := c
  obtain rfl : reading = false := ready
  cases waits : k.waiting? with
  | some found =>
    obtain ⟨key, next⟩ := found
    refine ⟨(front ⟨k, reads, false⟩).bytes, ?_, ?_⟩
    · simp [call, Console.step, Keyboard.readKey, waits, Entry.key?, front]
    · cases reads with
      | nil => simp [call, Console.step, waits]
      | cons read rest => simp [call, Console.step, waits, front, read.nonempty]
  | none =>
    refine ⟨[], ?_, ?_⟩
    · cases reads with
      | nil =>
        obtain ⟨pending, resized⟩ := k
        cases pending with
        | cons key rest => cases waits
        | nil =>
          simp [call, Console.step, Keyboard.readKey, waits, Entry.key?, front, Pipe.read,
            Keyboard.accept]
      | cons read rest =>
        simp [call, Console.step, Keyboard.readKey, waits, read_front, Entry.key?]
    · cases reads <;> simp [call, Console.step, waits]

/-- In every interleaving of signals, reads and steps of calls: reads are taken in order, and each
is answered whole before the next one is taken; the next step of a call is the one that waiting
keys, a due resize and the reads determine; each resize stands behind whole reads and behind a
signal since the last resize. Calls with nothing in between are calls of the keyboard. -/
theorem run_delivers (turns : List Turn) :
    let log := (run turns).1
    let c := (run turns).2
    Accounted log c ∧
      Advances (Due log) c (c.step .advance).1 (c.step .advance).2 ∧
      (∀ before after, log = before ++ .answer (some .resize) :: after →
        Due before ∧ ∃ taken, taken <+: arrivals before ∧
          answers before = taken.flatMap Read.answers) ∧
      (c.reading = false → ∃ left,
        c.keyboard.readKey c.front = (.ok c.call.1.key?, c.call.2.keyboard, ⟨left, false⟩) ∧
          c.call.2.reads = if left = [] then c.reads.tail else c.reads) := by
  intro log c
  have kept : Kept log c := kept_run turns
  refine ⟨kept.accounted, kept.advances, ?_, call_eq_readKey⟩
  intro before after parts
  obtain ⟨turns', t, rfl, resize⟩ := run_cut parts
  exact (kept_run turns').resize resize

/- Two signals while a text is half delivered make one resize, behind the text. -/
theorem run_delivers_text :
    let text : Read := ⟨[108, 115], by decide, by decide⟩
    let turns : List Turn :=
      [.arrival text, .advance, .advance, .signal, .signal, .advance, .advance]
    let before : List Entry := [.arrival text, .look, .answer (some (.char 108)), .signal, .signal,
      .answer (some (.char 115))]
    let c := (run turns).2
    (run turns).1 = before ++ [.answer (some .resize)] ∧
      (Due before ∧ ∃ taken, taken <+: arrivals before ∧
        answers before = taken.flatMap Read.answers) ∧
      c.reading = false ∧ ∃ left,
        c.keyboard.readKey c.front = (.ok c.call.1.key?, c.call.2.keyboard, ⟨left, false⟩) ∧
          c.call.2.reads = if left = [] then c.reads.tail else c.reads := by
  intro text turns before c
  have log : (run turns).1 = before ++ [.answer (some .resize)] := by decide +kernel
  have ready : c.reading = false := by decide +kernel
  obtain ⟨-, -, resizes, calls⟩ := run_delivers turns
  exact ⟨log, resizes before [] log, ready, calls ready⟩

end Console

end LineShell
