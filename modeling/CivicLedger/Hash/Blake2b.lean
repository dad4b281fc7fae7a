import CivicLedger.Bytes.Word

/-!
# BLAKE2b

The unkeyed hash of RFC 7693 with 32 bytes of output. Blocks of 128 bytes are mixed into eight words
together with the count of bytes so far and a mark on the last block.
-/

namespace CivicLedger.Blake2b

def initial : Vector UInt64 8 :=
  #v[0x6a09e667f3bcc908, 0xbb67ae8584caa73b, 0x3c6ef372fe94f82b, 0xa54ff53a5f1d36f1,
     0x510e527fade682d1, 0x9b05688c2b3e6c1f, 0x1f83d9abfb41bd6b, 0x5be0cd19137e2179]

/-- The orders in which the rounds take the sixteen words of a block. -/
def orders : List (Vector Nat 16) :=
  [#v[0, 1, 2, 3, 4, 5, 6, 7, 8, 9, 10, 11, 12, 13, 14, 15],
   #v[14, 10, 4, 8, 9, 15, 13, 6, 1, 12, 0, 2, 11, 7, 5, 3],
   #v[11, 8, 12, 0, 5, 2, 15, 13, 10, 14, 3, 6, 7, 1, 9, 4],
   #v[7, 9, 3, 1, 13, 12, 11, 14, 2, 6, 5, 10, 4, 0, 15, 8],
   #v[9, 0, 5, 7, 2, 4, 10, 15, 14, 1, 11, 12, 6, 8, 3, 13],
   #v[2, 12, 6, 10, 0, 11, 8, 3, 4, 13, 7, 5, 15, 14, 1, 9],
   #v[12, 5, 1, 15, 14, 13, 4, 10, 0, 7, 6, 3, 9, 2, 8, 11],
   #v[13, 11, 7, 14, 12, 1, 3, 9, 5, 0, 15, 4, 8, 6, 2, 10],
   #v[6, 15, 14, 9, 11, 3, 0, 8, 12, 2, 13, 7, 1, 4, 10, 5],
   #v[10, 2, 8, 4, 7, 6, 1, 5, 15, 11, 9, 14, 3, 12, 13, 0],
   #v[0, 1, 2, 3, 4, 5, 6, 7, 8, 9, 10, 11, 12, 13, 14, 15],
   #v[14, 10, 4, 8, 9, 15, 13, 6, 1, 12, 0, 2, 11, 7, 5, 3]]

def rotateRight (x : UInt64) (n : UInt64) : UInt64 := (x >>> n) ||| (x <<< (64 - n))

def mix (v : Vector UInt64 16) (a b c d : Fin 16) (x y : UInt64) : Vector UInt64 16 :=
  let va := v[a] + v[b] + x
  let vd := rotateRight (v[d] ^^^ va) 32
  let vc := v[c] + vd
  let vb := rotateRight (v[b] ^^^ vc) 24
  let va := va + vb + y
  let vd := rotateRight (vd ^^^ va) 16
  let vc := vc + vd
  let vb := rotateRight (vb ^^^ vc) 63
  (((v.set a va).set b vb).set c vc).set d vd

def round (words : Array UInt64) (v : Vector UInt64 16) (order : Vector Nat 16) :
    Vector UInt64 16 :=
  let w (i : Fin 16) : UInt64 := words.getD order[i] 0
  let v := mix v 0 4 8 12 (w 0) (w 1)
  let v := mix v 1 5 9 13 (w 2) (w 3)
  let v := mix v 2 6 10 14 (w 4) (w 5)
  let v := mix v 3 7 11 15 (w 6) (w 7)
  let v := mix v 0 5 10 15 (w 8) (w 9)
  let v := mix v 1 6 11 12 (w 10) (w 11)
  let v := mix v 2 7 8 13 (w 12) (w 13)
  mix v 3 4 9 14 (w 14) (w 15)

def wordOf (b : Bytes) : UInt64 := UInt64.ofNat (Bytes.toNatLE b)

/-- The words of a block of at most 128 bytes; what is missing counts as zero. -/
def wordsOf (block : Bytes) : Array UInt64 :=
  ((List.range 16).map fun i => wordOf ((block.drop (8 * i)).take 8)).toArray

def compress (h : Vector UInt64 8) (block : Bytes) (count : Nat) (last : Bool) : Vector UInt64 8 :=
  let low := UInt64.ofNat count
  let high := UInt64.ofNat (count / UInt64.size)
  let v := h ++ initial
  let v := v.set 12 (v[12] ^^^ low)
  let v := v.set 13 (v[13] ^^^ high)
  let v := if last then v.set 14 (~~~v[14]) else v
  let v := orders.foldl (round (wordsOf block)) v
  Vector.ofFn fun i => h[i] ^^^ v[i] ^^^ v[i.val + 8]

/-- Folds the bytes in blocks of 128, the last of which may be short; `fuel` bounds the number of
blocks and `count` is the number of bytes before. -/
def fold : Nat → Vector UInt64 8 → Nat → Bytes → Vector UInt64 8
  | 0, h, _, _ => h
  | fuel + 1, h, count, bytes =>
    let rest := bytes.drop 128
    if rest.isEmpty then compress h bytes (count + bytes.length) true
    else fold fuel (compress h (bytes.take 128) (count + 128) false) (count + 128) rest

/-- The eight words before any byte: the first one tells the output length. -/
def start : Vector UInt64 8 := initial.set 0 (initial[0] ^^^ 0x01010020)

def hash (message : Bytes) : FixedBytes 32 :=
  let h := fold (message.length / 128 + 1) start 0 message
  ⟨Bytes.ofUInt64LE h[0] ++ Bytes.ofUInt64LE h[1] ++ Bytes.ofUInt64LE h[2] ++
      Bytes.ofUInt64LE h[3], by
    simp [Bytes.ofUInt64LE]⟩

end CivicLedger.Blake2b
