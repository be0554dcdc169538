import LineShell.Proofs.Deliveries

/-!
Keys as a terminal sends them, and how many of them share a read. A key that is one byte is
delivered whatever stands with it, but an escape sequence only where it is alone in its read: a read
that starts with the escape byte is one key by its length, and in any other read each byte is a key.
-/

namespace LineShell

inductive Direction where
  | up
  | down
  | right
  | left
  deriving DecidableEq

namespace Direction

def byte : Direction → UInt8
  | up => 65
  | down => 66
  | right => 67
  | left => 68

def key : Direction → Key
  | up => .up
  | down => .down
  | right => .right
  | left => .left

def ctrlKey : Direction → Key
  | up => .ctrlUp
  | down => .ctrlDown
  | right => .ctrlRight
  | left => .ctrlLeft

end Direction

/-- A key as it is sent: a byte that is not the escape byte, or an escape sequence. -/
inductive Stroke where
  | byte (b : UInt8) (plain : b ≠ Key.escapeByte)
  | arrow (d : Direction)
  | ctrlArrow (d : Direction)

namespace Stroke

def bytes : Stroke → List UInt8
  | byte b _ => [b]
  | arrow d => [Key.escapeByte, 91, d.byte]
  | ctrlArrow d => [Key.escapeByte, 91, 49, 59, 53, d.byte]

def key : Stroke → Key
  | byte b _ => .ofByte b
  | arrow d => d.key
  | ctrlArrow d => d.ctrlKey

def isSequence : Stroke → Bool
  | byte _ _ => false
  | arrow _ | ctrlArrow _ => true

theorem bytes_ne_nil (s : Stroke) : s.bytes ≠ [] := by
  cases s <;> simp [bytes]

end Stroke

/-- Strokes that one read holds. -/
structure Chunk where
  strokes : List Stroke
  nonempty : strokes ≠ []
  short : (strokes.flatMap Stroke.bytes).length ≤ Pipe.readSize

namespace Chunk

def keys (c : Chunk) : List Key :=
  c.strokes.map Stroke.key

def read (c : Chunk) : Read where
  bytes := c.strokes.flatMap Stroke.bytes
  nonempty := by
    obtain ⟨s, rest, parts⟩ := List.exists_cons_of_ne_nil c.nonempty
    simp [parts, s.bytes_ne_nil]
  short := c.short

/-- No escape sequence shares the read with another key. -/
def Apart (c : Chunk) : Prop :=
  (∀ s ∈ c.strokes, s.isSequence = false) ∨ ∃ s, c.strokes = [s]

end Chunk

/-- The keys that only escape sequences stand for. -/
def Key.isArrow : Key → Bool
  | .up | .down | .left | .right | .ctrlUp | .ctrlDown | .ctrlLeft | .ctrlRight => true
  | _ => false

namespace Console

/-- The keys that have been delivered for reads. -/
def keys (log : List Entry) : List Key :=
  (answers log).filterMap id

/-- All reads are taken, and all that was in them is delivered. -/
def Consumed (c : Console) : Prop :=
  c.reads = [] ∧ c.keyboard.pending = []

end Console

section Chunks

theorem isArrow_ofByte (b : UInt8) : (Key.ofByte b).isArrow = false := by
  unfold Key.ofByte
  repeat' split
  all_goals rfl

theorem Stroke.isArrow_key (s : Stroke) : s.key.isArrow = s.isSequence := by
  cases s with
  | byte b => exact isArrow_ofByte b
  | arrow d => cases d <;> rfl
  | ctrlArrow d => cases d <;> rfl

theorem Stroke.decode?_bytes {s : Stroke} (sequence : s.isSequence = true) :
    Key.decode? s.bytes = some s.key := by
  cases s with
  | byte b => cases sequence
  | arrow d => cases d <;> rfl
  | ctrlArrow d => cases d <;> rfl

/- A sequence with more behind it has the length of none, or not its bytes. -/
theorem Stroke.decode?_append {s : Stroke} (sequence : s.isSequence = true) {more : List UInt8}
    (nonempty : more ≠ []) : Key.decode? (s.bytes ++ more) = none := by
  obtain ⟨b, rest, rfl⟩ := List.exists_cons_of_ne_nil nonempty
  cases s with
  | byte b => cases sequence
  | arrow d => cases d <;> simp [Stroke.bytes, Direction.byte, Key.decode?, Key.ofSequence?]
  | ctrlArrow d => cases d <;> simp [Stroke.bytes, Direction.byte, Key.decode?, Key.ofSequence?]

theorem Stroke.head?_bytes (s : Stroke) :
    s.bytes.head? = some Key.escapeByte ↔ s.isSequence = true := by
  cases s with
  | byte b plain => simp [Stroke.bytes, Stroke.isSequence, plain]
  | arrow d | ctrlArrow d => simp [Stroke.bytes, Stroke.isSequence]

theorem Stroke.map_bytes {s : Stroke} (plain : s.isSequence = false) :
    s.bytes.map Key.ofByte = [s.key] := by
  cases s with
  | byte b => rfl
  | arrow d | ctrlArrow d => cases plain

namespace Chunk

variable {c : Chunk} {s : Stroke} {rest : List Stroke}

theorem head?_bytes (parts : c.strokes = s :: rest) :
    c.read.bytes.head? = some Key.escapeByte ↔ s.isSequence = true := by
  rw [← s.head?_bytes]
  obtain ⟨b, bs, first⟩ := List.exists_cons_of_ne_nil s.bytes_ne_nil
  simp [read, parts, first]

/- What a read delivers is decided by its first stroke. -/
theorem delivered_of_plain (parts : c.strokes = s :: rest) (plain : s.isSequence = false) :
    c.read.answers.filterMap id = c.read.bytes.map Key.ofByte := by
  have other : c.read.bytes.head? ≠ some Key.escapeByte := by
    rw [ne_eq, head?_bytes parts, plain]
    nofun
  rw [Read.answers, if_neg other, List.filterMap_map]
  exact congrFun List.filterMap_eq_map' _

theorem delivered_of_sequence (parts : c.strokes = s :: rest) (sequence : s.isSequence = true) :
    c.read.answers = [Key.decode? (s.bytes ++ rest.flatMap Stroke.bytes)] := by
  rw [Read.answers, if_pos ((head?_bytes parts).mpr sequence)]
  simp [read, parts]

theorem delivered_of_apart (apart : c.Apart) : c.read.answers.filterMap id = c.keys := by
  obtain ⟨s, rest, parts⟩ := List.exists_cons_of_ne_nil c.nonempty
  have ofPlain (plain : ∀ s ∈ c.strokes, s.isSequence = false) :
      c.read.answers.filterMap id = c.keys := by
    have single : c.strokes.flatMap (fun s => s.bytes.map Key.ofByte) =
        c.strokes.flatMap fun s => [s.key] :=
      List.flatMap_congr fun s member => s.map_bytes (plain s member)
    rw [delivered_of_plain parts (plain s (by simp [parts])), read, List.map_flatMap, single, keys,
      List.map_eq_flatMap]
  rcases apart with plain | ⟨s', single⟩
  · exact ofPlain plain
  · obtain ⟨rfl, rfl⟩ : s = s' ∧ rest = [] := by simpa [parts] using single
    cases sequence : s.isSequence with
    | false => exact ofPlain (by simp [single, sequence])
    | true => simp [delivered_of_sequence parts sequence, s.decode?_bytes sequence, keys, parts]

/- A sequence that is not alone is not delivered, and no other key of the read is an arrow. -/
theorem delivered_of_mixed (mixed : ¬ c.Apart) :
    (c.read.answers.filterMap id).countP Key.isArrow < c.keys.countP Key.isArrow := by
  obtain ⟨s, rest, parts⟩ := List.exists_cons_of_ne_nil c.nonempty
  obtain ⟨shared, crowd⟩ := not_or.mp mixed
  have sent : 0 < c.keys.countP Key.isArrow := by
    push Not at shared
    obtain ⟨s', member, sequence⟩ := shared
    rw [List.countP_pos_iff]
    exact ⟨s'.key, List.mem_map_of_mem member, by simpa [s'.isArrow_key] using sequence⟩
  have none : (c.read.answers.filterMap id).countP Key.isArrow = 0 := by
    cases sequence : s.isSequence with
    | false =>
      rw [delivered_of_plain parts sequence, List.countP_eq_zero]
      intro key member
      obtain ⟨b, -, rfl⟩ := List.mem_map.mp member
      simp [isArrow_ofByte b]
    | true =>
      have more : rest.flatMap Stroke.bytes ≠ [] := by
        obtain ⟨s', rest', rfl⟩ := List.exists_cons_of_ne_nil (l := rest) fun empty =>
          crowd ⟨s, by rw [parts, empty]⟩
        simp [s'.bytes_ne_nil]
      rw [delivered_of_sequence parts sequence, s.decode?_append sequence more]
      rfl
  omega

/- Arrows are only lost, never invented. -/
theorem delivered_cases (chunks : List Chunk) :
    (∀ c ∈ chunks, c.Apart) ∨
      (chunks.flatMap fun c => c.read.answers.filterMap id).countP Key.isArrow <
        (chunks.flatMap keys).countP Key.isArrow := by
  induction chunks with
  | nil => exact .inl (by simp)
  | cons c rest ih =>
    simp only [List.flatMap_cons, List.countP_append, List.forall_mem_cons]
    by_cases here : c.Apart
    · rcases ih with apart | fewer
      · exact .inl ⟨here, apart⟩
      · rw [delivered_of_apart here]
        exact .inr (Nat.add_lt_add_left fewer _)
    · have strict := delivered_of_mixed here
      right
      rcases ih with apart | fewer
      · have same := List.flatMap_congr fun c member => delivered_of_apart (apart c member)
        rw [same]
        exact Nat.add_lt_add_right strict _
      · exact Nat.add_lt_add strict fewer

/-- Chunks deliver what was sent exactly if no sequence shares a read. -/
theorem delivered_iff (chunks : List Chunk) :
    chunks.flatMap (fun c => c.read.answers.filterMap id) = chunks.flatMap keys ↔
      ∀ c ∈ chunks, c.Apart := by
  constructor
  · intro same
    rcases delivered_cases chunks with apart | fewer
    · exact apart
    · rw [same] at fewer
      exact absurd fewer (Nat.lt_irrefl _)
  · intro apart
    exact List.flatMap_congr fun c member => delivered_of_apart (apart c member)

end Chunk

end Chunks

namespace Console

section Progress

theorem length_answers_le (r : Read) : r.answers.length ≤ r.bytes.length := by
  unfold Read.answers
  split
  · exact List.length_pos_iff.mpr r.nonempty
  · simp

/-- An upper bound for the steps that are left. -/
def load (c : Console) : Nat :=
  2 * (c.keyboard.pending.length + (c.reads.flatMap Read.bytes).length +
    c.keyboard.resized.toNat) + (!c.reading).toNat

variable {log : List Entry} {c : Console}

theorem Kept.load_lt (kept : Kept log c) (busy : ¬ c.Consumed) :
    (c.step .advance).2.load < c.load := by
  have advances := kept.advances
  have due := kept.due
  generalize (c.step .advance).1 = entry at advances
  generalize (c.step .advance).2 = next at advances ⊢
  cases advances with
  | deliver => simp [load]
  | @resize resized reads here =>
    obtain rfl : resized = true := due.mpr here
    simp [load]
  | look => simp [load]
  | @take read first others resized reads answers =>
    have bound := length_answers_le read
    rw [answers, List.length_cons, List.length_map] at bound
    simp only [load, List.flatMap_cons, List.length_append, List.length_nil, Bool.not_true,
      Bool.not_false, Bool.toNat_true, Bool.toNat_false]
    omega
  | nothing => exact absurd ⟨rfl, rfl⟩ busy

/-- Calls consume all that has arrived. -/
theorem exists_consumed {steps : Nat} {turns : List Turn} (bound : (run turns).2.load < steps) :
    ∃ n, (run (turns ++ List.replicate n .advance)).2.Consumed := by
  induction steps generalizing turns with
  | zero => exact absurd bound (Nat.not_lt_zero _)
  | succ steps ih =>
    by_cases done : (run turns).2.Consumed
    · exact ⟨0, by simpa using done⟩
    · have less : (run (turns ++ [.advance])).2.load < steps := by
        rw [run_concat]
        exact Nat.lt_of_lt_of_le ((kept_run turns).load_lt done) (Nat.le_of_lt_succ bound)
      obtain ⟨n, consumed⟩ := ih less
      refine ⟨n + 1, ?_⟩
      rwa [List.replicate_succ, List.append_cons]

end Progress

theorem Accounted.keys_eq {log : List Entry} {c : Console} (accounted : Accounted log c)
    (consumed : c.Consumed) : keys log = (arrivals log).flatMap fun r => r.answers.filterMap id := by
  obtain ⟨none, empty⟩ := consumed
  obtain ⟨taken, arrived, answered⟩ := accounted.whole empty
  rw [keys, answered, arrived, none, List.append_nil, List.filterMap_flatMap]

/-- Whatever keys are sent, and however they share reads: calls consume all reads, and then exactly
what was sent has been delivered, in order, if and only if no escape sequence shared its read with
another key. -/
theorem keys_sent (chunks : List Chunk) (turns : List Turn)
    (arrived : arrivals (run turns).1 = chunks.map Chunk.read) :
    (∃ n, (run (turns ++ List.replicate n .advance)).2.Consumed) ∧
      ((run turns).2.Consumed →
        (keys (run turns).1 = chunks.flatMap Chunk.keys ↔ ∀ c ∈ chunks, c.Apart)) := by
  refine ⟨exists_consumed (Nat.lt_succ_self _), ?_⟩
  intro consumed
  rw [← Chunk.delivered_iff, (kept_run turns).accounted.keys_eq consumed, arrived,
    List.flatMap_map]

/- Text in one read, a resize while it is half delivered, and an arrow in a read of its own. -/
theorem keys_sent_paste :
    let text : Chunk := ⟨[.byte 108 (by decide), .byte 115 (by decide)], by simp, by decide⟩
    let arrow : Chunk := ⟨[.ctrlArrow .left], by simp, by decide⟩
    let turns : List Turn :=
      [.arrival text.read, .advance, .advance, .signal, .arrival arrow.read] ++
        List.replicate 4 .advance
    arrivals (run turns).1 = [text, arrow].map Chunk.read ∧ (run turns).2.Consumed ∧
      keys (run turns).1 = [.char 108, .char 115, .ctrlLeft] := by
  intro text arrow turns
  have arrived : arrivals (run turns).1 = [text, arrow].map Chunk.read := by decide +kernel
  have consumed : (run turns).2.Consumed := ⟨by decide +kernel, by decide +kernel⟩
  have apart : ∀ c ∈ [text, arrow], c.Apart := by
    intro c member
    rcases List.mem_pair.mp member with rfl | rfl
    · exact .inl (by decide)
    · exact .inr ⟨_, rfl⟩
  exact ⟨arrived, consumed, ((keys_sent [text, arrow] turns arrived).2 consumed).mpr apart⟩

/- Behind text the bytes of an arrow are keys of their own; two arrows in one read are no key. -/
theorem arrows_sharing_reads :
    let mixed : Chunk := ⟨[.byte 97 (by decide), .arrow .up], by simp, by decide⟩
    let arrows : Chunk := ⟨[.arrow .up, .arrow .down], by simp, by decide⟩
    let turns (c : Chunk) : List Turn := .arrival c.read :: List.replicate 5 .advance
    (∀ c ∈ [mixed, arrows], arrivals (run (turns c)).1 = [c.read] ∧ (run (turns c)).2.Consumed ∧
      keys (run (turns c)).1 ≠ c.keys) ∧
      keys (run (turns mixed)).1 = [.char 97, .escape, .char 91, .char 65] ∧
      keys (run (turns arrows)).1 = [] := by
  intro mixed arrows turns
  refine ⟨?_, by decide +kernel, by decide +kernel⟩
  intro c member
  rcases List.mem_pair.mp member with rfl | rfl
  all_goals
    exact ⟨by decide +kernel, ⟨by decide +kernel, by decide +kernel⟩, by decide +kernel⟩

end Console

end LineShell
