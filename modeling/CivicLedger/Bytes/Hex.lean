import CivicLedger.Bytes.Basic

/-!
# Hexadecimal text

Bytes are written as two lower-case digits each. Reading takes digits of either case and reports the
first fault: an odd number of bytes first of all, then the first byte that is no digit.
-/

namespace CivicLedger

inductive HexFault where
  | oddLength
  | badDigit (byte : UInt8) (position : Nat)
  deriving DecidableEq, Repr

namespace Hex

def digit (n : Nat) : Char :=
  if n < 10 then Char.ofNat (48 + n) else Char.ofNat (87 + n)

def digits (b : UInt8) : List Char := [digit (b.toNat / 16), digit (b.toNat % 16)]

def encode (b : Bytes) : String := String.ofList (b.flatMap digits)

def digitValue? (b : UInt8) : Option UInt8 :=
  if 48 ≤ b ∧ b ≤ 57 then some (b - 48)
  else if 97 ≤ b ∧ b ≤ 102 then some (b - 87)
  else if 65 ≤ b ∧ b ≤ 70 then some (b - 55)
  else none

/-- Reads digits in pairs; `position` is that of the first byte left. -/
def decodePairs (position : Nat) : Bytes → Except HexFault Bytes
  | hi :: lo :: rest =>
    match digitValue? hi, digitValue? lo with
    | none, _ => .error (.badDigit hi position)
    | some _, none => .error (.badDigit lo (position + 1))
    | some h, some l => (decodePairs (position + 2) rest).map ((h * 16 + l) :: ·)
  | _ => .ok []

def decodeBytes (b : Bytes) : Except HexFault Bytes :=
  if b.length % 2 = 1 then .error .oddLength else decodePairs 0 b

def decode (s : String) : Except HexFault Bytes := decodeBytes (utf8 s)

def ofNat (n : Nat) : String := String.ofList (Nat.toDigits 16 n)

/-- A byte as a Latin-1 character between quotes: quote and backslash are escaped, and so is what
does not print. -/
def quoteByte (b : UInt8) : String :=
  let body :=
    if b = 0 then "\\0"
    else if b = 9 then "\\t"
    else if b = 10 then "\\n"
    else if b = 13 then "\\r"
    else if b = 39 then "\\'"
    else if b = 92 then "\\\\"
    else if b < 32 ∨ (127 ≤ b ∧ b ≤ 160) ∨ b = 173 then "\\u\x7b" ++ ofNat b.toNat ++ "\x7d"
    else (Char.ofNat b.toNat).toString
  "'" ++ body ++ "'"

end Hex

def HexFault.message : HexFault → String
  | .oddLength => "Odd number of digits"
  | .badDigit byte position =>
    "Invalid character " ++ Hex.quoteByte byte ++ " at position " ++ toString position

end CivicLedger
