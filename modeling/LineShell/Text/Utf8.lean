/-!
Showing bytes as text. Each longest broken start of a UTF-8 sequence becomes one replacement
character.
-/

namespace LineShell.Text

def replacement : Char := '\ufffd'

/-- An open sequence: how many bytes are due, the bounds of the next one and the bits so far. -/
structure OpenSequence where
  due : Nat
  low : UInt8
  high : UInt8
  bits : Nat

def OpenSequence.lead? (b : UInt8) : Option OpenSequence :=
  if 0xc2 ≤ b ∧ b ≤ 0xdf then some ⟨1, 0x80, 0xbf, b.toNat % 32⟩
  else if b = 0xe0 then some ⟨2, 0xa0, 0xbf, b.toNat % 16⟩
  else if b = 0xed then some ⟨2, 0x80, 0x9f, b.toNat % 16⟩
  else if 0xe1 ≤ b ∧ b ≤ 0xef then some ⟨2, 0x80, 0xbf, b.toNat % 16⟩
  else if b = 0xf0 then some ⟨3, 0x90, 0xbf, b.toNat % 8⟩
  else if 0xf1 ≤ b ∧ b ≤ 0xf3 then some ⟨3, 0x80, 0xbf, b.toNat % 8⟩
  else if b = 0xf4 then some ⟨3, 0x80, 0x8f, b.toNat % 8⟩
  else none

def decodeLead (b : UInt8) : List Char × Option OpenSequence :=
  if b < 0x80 then ([Char.ofNat b.toNat], none)
  else
    match OpenSequence.lead? b with
    | some sequence => ([], some sequence)
    | none => ([replacement], none)

/-- A byte that cannot continue the open sequence ends it and starts anew. -/
def decodeByte (pending : Option OpenSequence) (b : UInt8) : List Char × Option OpenSequence :=
  match pending with
  | none => decodeLead b
  | some sequence =>
    if sequence.low ≤ b ∧ b ≤ sequence.high then
      let bits := 64 * sequence.bits + b.toNat % 64
      if sequence.due = 1 then ([Char.ofNat bits], none)
      else ([], some ⟨sequence.due - 1, 0x80, 0xbf, bits⟩)
    else
      let (out, opened) := decodeLead b
      (replacement :: out, opened)

def decodeFrom : Option OpenSequence → List UInt8 → List Char
  | none, [] => []
  | some _, [] => [replacement]
  | pending, b :: bs =>
    let (out, next) := decodeByte pending b
    out ++ decodeFrom next bs

def decode (bytes : ByteArray) : String :=
  match String.fromUTF8? bytes with
  | some text => text
  | none => String.ofList (decodeFrom none bytes.toList)

end LineShell.Text
