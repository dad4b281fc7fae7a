import CivicLedger.Bytes.WordLemmas
import CivicLedger.State.Layout

/-!
# Reading what was written

A record is read back from its bytes, and what follows them is left. Texts and lists must not be
longer than their length fields can say, which no text or list in memory is.
-/

namespace CivicLedger

namespace Utf8

/-- The bytes of a text are read as that text. -/
theorem decode_utf8 (s : String) : decode (utf8 s) = .ok s := by
  have hbytes : (⟨(utf8 s).toArray⟩ : ByteArray) = s.toByteArray := by
    unfold utf8
    rw [Array.toArray_toList]
  have hread : String.fromUTF8? s.toByteArray = some s := by
    unfold String.fromUTF8?
    rw [dif_pos s.isValidUTF8]
    rfl
  unfold decode
  rw [hbytes, hread]

end Utf8

def FitsLength (n : Nat) : Prop := n < UInt64.size

def FitsText (s : String) : Prop := FitsLength (utf8 s).length

namespace Wire

variable {α β : Type}

/-- From bytes that begin with `b` the reader takes `b` and gives `a`. -/
def Reads (r : Reader α) (b : Bytes) (a : α) : Prop := ∀ rest, r (b ++ rest) = .ok (a, rest)

theorem Reads.pure (a : α) : Reads (Pure.pure a) [] a := fun _ => rfl

theorem Reads.bind {r : Reader α} {f : α → Reader β} {b c : Bytes} {a : α} {x : β}
    (hr : Reads r b a) (hf : Reads (f a) c x) : Reads (r >>= f) (b ++ c) x := by
  intro rest
  have hfirst := hr (c ++ rest)
  rw [List.append_assoc]
  change Except.bind (r (b ++ (c ++ rest))) _ = _
  rw [hfirst]
  exact hf rest

theorem Reads.map {r : Reader α} {b : Bytes} {a : α} (hr : Reads r b a) (f : α → β) :
    Reads (r >>= fun a => Pure.pure (f a)) b (f a) := by
  have h := hr.bind (f := fun a => (Pure.pure (f a) : Reader β)) (Reads.pure (f a))
  rwa [List.append_nil] at h

theorem Reads.readFront {r : Reader α} {b : Bytes} {a : α} (h : Reads r b a) :
    Wire.readFront r b = .ok a := by
  have hb := h []
  rw [List.append_nil] at hb
  unfold Wire.readFront
  rw [hb]
  rfl

theorem Reads.readAll {r : Reader α} {b : Bytes} {a : α} (h : Reads r b a) :
    Wire.readAll r b = .ok a := by
  have hb := h []
  rw [List.append_nil] at hb
  unfold Wire.readAll
  rw [hb]
  rfl

/-- What a reader takes from the front of a byte string is determined by it. -/
theorem Reads.unique {r : Reader α} {a b c d : Bytes} {x y : α} (hx : Reads r a x)
    (hy : Reads r b y) (h : a ++ c = b ++ d) : x = y ∧ c = d := by
  have hread := hx c
  rw [h, hy d] at hread
  cases hread
  exact ⟨rfl, rfl⟩

theorem reads_take (b : Bytes) (fault : WireFault) : Reads (take b.length fault) b b := by
  intro rest
  unfold take
  rw [if_pos (by simp), List.take_left, List.drop_left]

theorem reads_number {n x : Nat} (h : x < 256 ^ n) : Reads (number n) (Bytes.ofNatLE n x) x := by
  have htake := (reads_take (Bytes.ofNatLE n x) .endOfData).map Bytes.toNatLE
  rw [Bytes.length_ofNatLE, Bytes.toNatLE_ofNatLE, Nat.mod_eq_of_lt h] at htake
  exact htake

theorem reads_byte (x : UInt8) : Reads byte [x] x := by
  have h := (reads_number (n := 1) (x := x.toNat) x.toNat_lt).map UInt8.ofNat
  rw [UInt8.ofNat_toNat] at h
  have hone : Bytes.ofNatLE 1 x.toNat = [x] := by simp [Bytes.ofNatLE]
  rwa [hone] at h

theorem reads_word16 (x : UInt16) : Reads word16 (Bytes.ofUInt16LE x) x := by
  have h := (reads_number (n := 2) (x := x.toNat) x.toNat_lt).map UInt16.ofNat
  rwa [UInt16.ofNat_toNat] at h

theorem reads_word32 (x : UInt32) : Reads word32 (Bytes.ofUInt32LE x) x := by
  have h := (reads_number (n := 4) (x := x.toNat) x.toNat_lt).map UInt32.ofNat
  rwa [UInt32.ofNat_toNat] at h

theorem reads_word64 (x : UInt64) : Reads word64 (Bytes.ofUInt64LE x) x := by
  have h := (reads_number (n := 8) (x := x.toNat) x.toNat_lt).map UInt64.ofNat
  rwa [UInt64.ofNat_toNat] at h

theorem reads_length {n : Nat} (h : FitsLength n) : Reads (number 8) (ofLength n) n :=
  reads_number h

theorem reads_fixed {n : Nat} (f : FixedBytes n) : Reads (fixed n) f.val f := by
  intro rest
  have hlen : f.val.length = n := f.property
  have htake : (f.val ++ rest).take n = f.val := List.take_left' hlen
  have hdrop : (f.val ++ rest).drop n = rest := List.drop_left' hlen
  unfold fixed
  rw [htake, hdrop, FixedBytes.ofBytes?_val]

theorem reads_key (k : KeyId) : Reads key (ofKey k) k := (reads_fixed k.bytes).map KeyId.mk

theorem reads_bill (b : BillId) : Reads bill (ofBill b) b := (reads_fixed b.bytes).map BillId.mk

theorem reads_token (t : TokenId) : Reads token (ofToken t) t :=
  (reads_word64 t.number).map TokenId.mk

theorem reads_text {s : String} (h : FitsText s) : Reads text (ofText s) s := by
  refine (reads_length h).bind ?_
  refine (congrArg (Reads _ · s) (List.append_nil (utf8 s))).mp ?_
  refine (reads_take (utf8 s) .shortText).bind ?_
  rw [Utf8.decode_utf8]
  exact Reads.pure s

theorem reads_times {r : Reader α} {f : α → Bytes} {l : List α} (h : ∀ a ∈ l, Reads r (f a) a) :
    Reads (times r l.length) (l.flatMap f) l := by
  induction l with
  | nil => exact Reads.pure []
  | cons a l ih =>
    have hl := ih fun x hx => h x (List.mem_cons_of_mem a hx)
    exact (h a List.mem_cons_self).bind (hl.map (a :: ·))

theorem reads_list {r : Reader α} {f : α → Bytes} {l : List α} (hl : FitsLength l.length)
    (h : ∀ a ∈ l, Reads r (f a) a) : Reads (list r) (ofList f l) l :=
  (reads_length hl).bind (reads_times h)

theorem reads_flag (b : Bool) : Reads flag (ofFlag b) b := by
  cases b with
  | false => exact (reads_byte 0).bind (Reads.pure false)
  | true => exact (reads_byte 1).bind (Reads.pure true)

theorem reads_option {r : Reader α} {f : α → Bytes} {o : Option α}
    (h : ∀ a, o = some a → Reads r (f a) a) : Reads (option r) (ofOption f o) o := by
  cases o with
  | none => exact (reads_byte 0).bind (Reads.pure none)
  | some a => exact (reads_byte 1).bind ((h a rfl).map some)

end Wire

open Wire

def Delegate.Fits (d : Delegate) : Prop := FitsText d.name

def Committee.Fits (c : Committee) : Prop := FitsText c.name ∧ FitsText c.url

structure Bill.Fits (b : Bill) : Prop where
  title : FitsText b.title
  detail : FitsText b.detail
  url : FitsText b.url
  count : FitsLength b.options.length
  options : ∀ o ∈ b.options, FitsText o

def Settlement.Fits (s : Settlement) : Prop := FitsLength s.totals.length

def Token.Fits (t : Token) : Prop := FitsText t.symbol ∧ FitsText t.name

theorem Delegate.reads {d : Delegate} (h : d.Fits) : Reads Delegate.reader d.toBytes d := by
  unfold toBytes
  rw [List.append_assoc]
  exact (reads_key d.address).bind ((reads_text h).bind ((reads_word64 d.height).map _))

theorem Committee.reads {c : Committee} (h : c.Fits) : Reads Committee.reader c.toBytes c := by
  unfold toBytes
  simp only [List.append_assoc]
  exact (reads_key c.address).bind ((reads_text h.1).bind ((reads_text h.2).bind
    ((reads_word64 c.height).map _)))

theorem Bill.reads {b : Bill} (h : b.Fits) : Reads Bill.reader b.toBytes b := by
  have hoptions : Reads (list text) (ofList ofText b.options) b.options :=
    reads_list h.count fun o ho => reads_text (h.options o ho)
  unfold toBytes
  simp only [List.append_assoc]
  exact (reads_bill b.id).bind ((reads_text h.title).bind ((reads_text h.detail).bind
    ((reads_text h.url).bind ((reads_key b.committee).bind ((reads_word64 b.opened).bind
      ((reads_word64 b.closes).bind (hoptions.bind ((reads_word64 b.height).map _))))))))

theorem Ballot.reads (b : Ballot) : Reads Ballot.reader b.toBytes b := by
  have hweight : Reads (option word64) (ofOption Bytes.ofUInt64LE b.weight) b.weight :=
    reads_option fun w _ => reads_word64 w
  exact (reads_byte b.choice).bind (hweight.map _)

theorem Settlement.reads {s : Settlement} (h : s.Fits) : Reads Settlement.reader s.toBytes s := by
  have hwinner : Reads (option byte) (ofOption (fun w => [w]) s.winner) s.winner :=
    reads_option fun w _ => reads_byte w
  have htotals : Reads (list word64) (ofList Bytes.ofUInt64LE s.totals) s.totals :=
    reads_list h fun w _ => reads_word64 w
  unfold toBytes
  simp only [List.append_assoc]
  exact (reads_flag s.passed).bind (hwinner.bind ((reads_word64 s.total).bind (htotals.bind
    ((reads_word64 s.height).bind ((reads_word64 s.time).map _)))))

theorem Token.reads {t : Token} (h : t.Fits) : Reads Token.reader t.toBytes t := by
  unfold toBytes
  simp only [List.append_assoc]
  exact (reads_token t.id).bind ((reads_text h.1).bind ((reads_text h.2).bind
    ((reads_key t.owner).bind ((reads_key t.address).bind ((reads_word64 t.total).bind
      ((reads_byte t.digits).bind ((reads_word64 t.height).map _)))))))

theorem Cursor.reads (c : Cursor) : Reads Cursor.reader c.toBytes c :=
  (reads_word64 c.height).bind ((reads_word32 c.nextTx).map _)

theorem ChainPoint.reads (p : ChainPoint) : Reads ChainPoint.reader p.toBytes p :=
  (reads_word64 p.height).bind ((reads_word64 p.time).map _)

end CivicLedger
