import CivicLedger.Bytes.Basic

/-!
# UTF-8 text

Bytes are read as text where they are well-formed UTF-8. Otherwise the fault tells where the first
ill-formed sequence begins and how long it is, or that the bytes end inside a character.
-/

namespace CivicLedger

/-- The first ill-formed sequence: its offset, and its length unless the bytes end inside it. -/
structure Utf8Fault where
  offset : Nat
  length? : Option Nat
  deriving DecidableEq, Repr

def Utf8Fault.message (f : Utf8Fault) : String :=
  match f.length? with
  | some n =>
    "invalid utf-8 sequence of " ++ toString n ++ " bytes from index " ++ toString f.offset
  | none => "incomplete utf-8 byte sequence from index " ++ toString f.offset

namespace Utf8

/-- The ranges that the bytes after a leading byte must lie in, or none for a byte that begins no
character. -/
def tailRanges (b : UInt8) : Option (List (UInt8 × UInt8)) :=
  if b < 0x80 then some []
  else if 0xC2 ≤ b ∧ b ≤ 0xDF then some [(0x80, 0xBF)]
  else if b = 0xE0 then some [(0xA0, 0xBF), (0x80, 0xBF)]
  else if b = 0xED then some [(0x80, 0x9F), (0x80, 0xBF)]
  else if 0xE1 ≤ b ∧ b ≤ 0xEF then some [(0x80, 0xBF), (0x80, 0xBF)]
  else if b = 0xF0 then some [(0x90, 0xBF), (0x80, 0xBF), (0x80, 0xBF)]
  else if 0xF1 ≤ b ∧ b ≤ 0xF3 then some [(0x80, 0xBF), (0x80, 0xBF), (0x80, 0xBF)]
  else if b = 0xF4 then some [(0x80, 0x8F), (0x80, 0xBF), (0x80, 0xBF)]
  else none

/-- Follows the bytes from `offset`; the character under way began at `start` and is owed the
ranges in `owed`. -/
def scan : List (UInt8 × UInt8) → Nat → Nat → Bytes → Option Utf8Fault
  | [], _, _, [] => none
  | _ :: _, start, _, [] => some ⟨start, none⟩
  | [], _, offset, b :: rest =>
    match tailRanges b with
    | some owed => scan owed offset (offset + 1) rest
    | none => some ⟨offset, some 1⟩
  | (low, high) :: owed, start, offset, b :: rest =>
    if low ≤ b ∧ b ≤ high then scan owed start (offset + 1) rest
    else some ⟨start, some (offset - start)⟩

def fault? (b : Bytes) : Option Utf8Fault := scan [] 0 0 b

def decode (b : Bytes) : Except Utf8Fault String :=
  match String.fromUTF8? ⟨b.toArray⟩ with
  | some s => .ok s
  | none => .error ((fault? b).getD ⟨0, none⟩)

end Utf8

end CivicLedger
