import CivicLedger.Bytes.Word

/-!
# RIPEMD-160

The 160-bit hash of the RIPE project. Two lines of 80 steps run over each block of 64 bytes with
different orders of its words, and their results are added crosswise to the five words so far.
-/

namespace CivicLedger.Ripemd160

structure State where
  a : UInt32
  b : UInt32
  c : UInt32
  d : UInt32
  e : UInt32

def initial : State where
  a := 0x67452301
  b := 0xefcdab89
  c := 0x98badcfe
  d := 0x10325476
  e := 0xc3d2e1f0

/-- What a step does: which word it takes, how far it turns, which function it applies (counted
from 0) and which constant it adds. -/
structure Step where
  word : Nat
  turn : UInt32
  function : Nat
  constant : UInt32

def leftWords : List Nat :=
  [0, 1, 2, 3, 4, 5, 6, 7, 8, 9, 10, 11, 12, 13, 14, 15,
   7, 4, 13, 1, 10, 6, 15, 3, 12, 0, 9, 5, 2, 14, 11, 8,
   3, 10, 14, 4, 9, 15, 8, 1, 2, 7, 0, 6, 13, 11, 5, 12,
   1, 9, 11, 10, 0, 8, 12, 4, 13, 3, 7, 15, 14, 5, 6, 2,
   4, 0, 5, 9, 7, 12, 2, 10, 14, 1, 3, 8, 11, 6, 15, 13]

def rightWords : List Nat :=
  [5, 14, 7, 0, 9, 2, 11, 4, 13, 6, 15, 8, 1, 10, 3, 12,
   6, 11, 3, 7, 0, 13, 5, 10, 14, 15, 8, 12, 4, 9, 1, 2,
   15, 5, 1, 3, 7, 14, 6, 9, 11, 8, 12, 2, 10, 0, 4, 13,
   8, 6, 4, 1, 3, 11, 15, 0, 5, 12, 2, 13, 9, 7, 10, 14,
   12, 15, 10, 4, 1, 5, 8, 7, 6, 2, 13, 14, 0, 3, 9, 11]

def leftTurns : List UInt32 :=
  [11, 14, 15, 12, 5, 8, 7, 9, 11, 13, 14, 15, 6, 7, 9, 8,
   7, 6, 8, 13, 11, 9, 7, 15, 7, 12, 15, 9, 11, 7, 13, 12,
   11, 13, 6, 7, 14, 9, 13, 15, 14, 8, 13, 6, 5, 12, 7, 5,
   11, 12, 14, 15, 14, 15, 9, 8, 9, 14, 5, 6, 8, 6, 5, 12,
   9, 15, 5, 11, 6, 8, 13, 12, 5, 12, 13, 14, 11, 8, 5, 6]

def rightTurns : List UInt32 :=
  [8, 9, 9, 11, 13, 15, 15, 5, 7, 7, 8, 11, 14, 14, 12, 6,
   9, 13, 15, 7, 12, 8, 9, 11, 7, 7, 12, 7, 6, 15, 13, 11,
   9, 7, 15, 11, 8, 6, 6, 14, 12, 13, 5, 14, 13, 13, 7, 5,
   15, 5, 8, 11, 14, 14, 6, 14, 6, 9, 12, 9, 12, 5, 15, 8,
   8, 5, 12, 9, 12, 5, 14, 6, 8, 13, 6, 5, 15, 13, 11, 11]

/-- The same value for each of sixteen steps, five times. -/
def spread {α : Type} (l : List α) : List α := l.flatMap (List.replicate 16)

def steps (words : List Nat) (turns : List UInt32) (functions : List Nat)
    (constants : List UInt32) : List Step :=
  ((words.zip turns).zip ((spread functions).zip (spread constants))).map fun s =>
    ⟨s.1.1, s.1.2, s.2.1, s.2.2⟩

def leftSteps : List Step :=
  steps leftWords leftTurns [0, 1, 2, 3, 4]
    [0, 0x5a827999, 0x6ed9eba1, 0x8f1bbcdc, 0xa953fd4e]

def rightSteps : List Step :=
  steps rightWords rightTurns [4, 3, 2, 1, 0]
    [0x50a28be6, 0x5c4dd124, 0x6d703ef3, 0x7a6d76e9, 0]

def mix (function : Nat) (x y z : UInt32) : UInt32 :=
  match function with
  | 0 => x ^^^ y ^^^ z
  | 1 => (x &&& y) ||| (~~~x &&& z)
  | 2 => (x ||| ~~~y) ^^^ z
  | 3 => (x &&& z) ||| (y &&& ~~~z)
  | _ => x ^^^ (y ||| ~~~z)

def rotateLeft (x : UInt32) (n : UInt32) : UInt32 := (x <<< n) ||| (x >>> (32 - n))

def step (words : Array UInt32) (s : State) (t : Step) : State :=
  let mixed := s.a + mix t.function s.b s.c s.d + words.getD t.word 0 + t.constant
  let turned := rotateLeft mixed t.turn
  ⟨s.e, turned + s.e, s.b, rotateLeft s.c 10, s.d⟩

/-- The 32-bit words of a block, each written with its lowest byte first. -/
def wordsOf : Bytes → List UInt32
  | b₀ :: b₁ :: b₂ :: b₃ :: rest =>
    (b₀.toUInt32 ||| b₁.toUInt32 <<< 8 ||| b₂.toUInt32 <<< 16 ||| b₃.toUInt32 <<< 24) ::
      wordsOf rest
  | _ => []

def compress (s : State) (block : Bytes) : State :=
  let words := (wordsOf block).toArray
  let l := leftSteps.foldl (step words) s
  let r := rightSteps.foldl (step words) s
  ⟨s.b + l.c + r.d, s.c + l.d + r.e, s.d + l.e + r.a, s.e + l.a + r.b, s.a + l.b + r.c⟩

def pad (message : Bytes) : Bytes :=
  let n := message.length
  message ++ 0x80 :: List.replicate ((119 - n % 64) % 64) 0 ++ Bytes.ofNatLE 8 (8 * n)

/-- Folds the bytes in blocks of 64; `fuel` bounds the number of blocks. -/
def fold : Nat → State → Bytes → State
  | 0, s, _ => s
  | _ + 1, s, [] => s
  | fuel + 1, s, bytes => fold fuel (compress s (bytes.take 64)) (bytes.drop 64)

def wordBytes (x : UInt32) : Bytes := Bytes.ofUInt32LE x

def hash (message : Bytes) : FixedBytes 20 :=
  let padded := pad message
  let s := fold (padded.length / 64 + 1) initial padded
  ⟨wordBytes s.a ++ wordBytes s.b ++ wordBytes s.c ++ wordBytes s.d ++ wordBytes s.e, by
    simp [wordBytes, Bytes.ofUInt32LE]⟩

end CivicLedger.Ripemd160
