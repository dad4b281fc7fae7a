import CivicLedger.Proofs.Operation.Width
import CivicLedger.Proofs.Ordered.Entries
import CivicLedger.Proofs.State.Layout

/-!
# One payload for each operation

A payload that is read gives an operation whose payload it is, and every operation that has a
payload is read back from it. A body is laid out in the fields of its kind. From the fields alone
it is seen where a body ends, so a body that is cut short or followed by more bytes is refused, as
are texts that are not UTF-8 and sets that are not in ascending order.
-/

namespace CivicLedger

open Wire

/-- Only an operation of no known kind is kept as it is. -/
def Operation.IsProper : Operation → Prop
  | .unrecognized opcode _ => OpKind.ofOpcode? opcode = none
  | _ => True

theorem Operation.isProper_of_kind {op : Operation} {kind : OpKind} (h : op.kind? = some kind) :
    op.IsProper := by
  cases op with
  | unrecognized opcode body => cases h
  | _ => exact trivial

theorem Operation.exists_kind {op : Operation} (h : op.IsProper) :
    (∃ kind, op.kind? = some kind) ∨
      ∃ opcode body, op = .unrecognized opcode body ∧ OpKind.ofOpcode? opcode = none := by
  cases op with
  | unrecognized opcode body => exact .inr ⟨opcode, body, rfl, h⟩
  | _ => exact .inl ⟨_, rfl⟩

theorem FitsLength.of_le {m n : Nat} (h : FitsLength n) (hle : m ≤ n) : FitsLength m :=
  Nat.lt_of_le_of_lt hle h

theorem FitsLength.of_body {n : Nat} (h : n + 1 ≤ Payload.maxLength) : FitsLength n := by
  have hmax : Payload.maxLength < UInt64.size := by decide
  unfold FitsLength
  omega

namespace Wire

variable {α : Type}

theorem length_le_flatMap_of_mem {f : α → Bytes} {l : List α} {a : α} (h : a ∈ l) :
    (f a).length ≤ (l.flatMap f).length := by
  induction l with
  | nil => cases h
  | cons x l ih =>
    rw [List.flatMap_cons, List.length_append]
    rcases List.mem_cons.mp h with rfl | hl
    · omega
    · have hle := ih hl
      omega

theorem length_le_flatMap {f : α → Bytes} (hf : ∀ a, 0 < (f a).length) (l : List α) :
    l.length ≤ (l.flatMap f).length := by
  induction l with
  | nil => exact Nat.le_refl _
  | cons x l ih =>
    have hx := hf x
    rw [List.flatMap_cons, List.length_append, List.length_cons]
    omega

def Gives (P : α → Prop) (r : Reader α) : Prop := ∀ b a rest, r b = .ok (a, rest) → P a

theorem Gives.pure {P : α → Prop} {a : α} (h : P a) : Gives P (Pure.pure a) := by
  intro b x rest hread
  cases hread
  exact h

theorem Gives.bind {β : Type} {P : β → Prop} {r : Reader α} {f : α → Reader β}
    (h : ∀ a, Gives P (f a)) : Gives P (r >>= f) := by
  intro b x rest hread
  change Except.bind (r b) (fun p => f p.1 p.2) = _ at hread
  cases hr : r b with
  | error fault => rw [hr] at hread; cases hread
  | ok p => rw [hr] at hread; exact h p.1 _ _ _ hread

theorem Gives.readAll {P : α → Prop} {r : Reader α} (h : Gives P r) {b : Bytes} {a : α}
    (hread : Wire.readAll r b = .ok a) : P a := by
  unfold Wire.readAll at hread
  cases hr : r b with
  | error fault => rw [hr] at hread; cases hread
  | ok p =>
    rw [hr] at hread
    change (if p.2.isEmpty then Except.ok p.1 else _) = _ at hread
    split at hread
    · cases hread
      exact h _ _ _ hr
    · cases hread

end Wire

namespace Payload

theorem encode_eq_ok {op : Operation} {b : Bytes} :
    encode op = .ok b ↔
      (bytesOf op).2.length + 1 ≤ maxLength ∧ b = (bytesOf op).1 :: (bytesOf op).2 := by
  change (if (bytesOf op).2.length + 1 ≤ maxLength then Except.ok _ else _) = _ ↔ _
  by_cases hfits : (bytesOf op).2.length + 1 ≤ maxLength
  · rw [if_pos hfits, Except.ok.injEq]
    exact ⟨fun h => ⟨hfits, h.symm⟩, fun h => h.2.symm⟩
  · rw [if_neg hfits]
    exact ⟨nofun, fun h => absurd h.1 hfits⟩

theorem decode_eq_ok {opcode : UInt8} {body : Bytes} {op : Operation} :
    decode (opcode :: body) = .ok op ↔ body.length + 1 ≤ maxLength ∧
      match OpKind.ofOpcode? opcode with
      | none => op = .unrecognized opcode body
      | some kind =>
        readAll (readBody kind) body = .ok op ∧ encode op = .ok (opcode :: body) := by
  simp only [decode]
  by_cases hmax : body.length + 1 ≤ maxLength
  · rw [if_neg (by omega)]
    cases OpKind.ofOpcode? opcode with
    | none => simp [hmax, eq_comm]
    | some kind =>
      simp only [hmax, true_and]
      cases hread : readAll (readBody kind) body with
      | error fault => simp
      | ok op' =>
        simp only [Except.ok.injEq]
        cases hwritten : encode op' with
        | error fault =>
          constructor
          · intro h
            cases h
          · rintro ⟨rfl, h⟩
            rw [hwritten] at h
            cases h
        | ok c =>
          change (if c = opcode :: body then Except.ok op' else _) = _ ↔ _
          constructor
          · intro h
            split at h
            · next hc => cases h; exact ⟨rfl, by rw [hwritten, hc]⟩
            · cases h
          · rintro ⟨rfl, h⟩
            rw [hwritten] at h
            cases h
            exact if_pos rfl
  · rw [if_pos (by omega)]
    simp [hmax]

theorem opcode_of_kind {op : Operation} {kind : OpKind} (h : op.kind? = some kind) :
    (bytesOf op).1 = kind.opcode := by
  cases op <;> cases h <;> rfl

theorem reads_set {s : SortedSet KeyId} (h : FitsLength s.keys.length) :
    Reads readSet (ofSet s) s := by
  have hlist := (reads_list h fun k _ => reads_key k).map SortedSet.ofKeys
  rw [SortedMap.ofKeys_keys] at hlist
  exact hlist

theorem fitsLength_keys {ks : List KeyId} (h : FitsLength (ofList ofKey ks).length) :
    FitsLength ks.length := by
  have hkey (k : KeyId) : 0 < (ofKey k).length := by
    have hlen : (ofKey k).length = 20 := k.bytes.property
    omega
  have hle := length_le_flatMap hkey ks
  rw [length_ofList] at h
  exact h.of_le (by omega)

theorem fitsText_of_le {s : String} {n : Nat} (h : FitsLength n) (hle : (ofText s).length ≤ n) :
    FitsText s := by
  rw [length_ofText] at hle
  exact h.of_le (by omega)

theorem fitsLength_options {options : List String} (h : FitsLength (ofList ofText options).length) :
    FitsLength options.length ∧ ∀ o ∈ options, FitsText o := by
  have htext (s : String) : 0 < (ofText s).length := by
    rw [length_ofText]
    omega
  rw [length_ofList] at h
  constructor
  · have hle := length_le_flatMap htext options
    exact h.of_le (by omega)
  · intro o ho
    have hle := length_le_flatMap_of_mem (f := ofText) ho
    exact fitsText_of_le h (by omega)

def Fits : Operation → Prop
  | .registerDelegate name | .registerName name => FitsText name
  | .voteDelegates delegates | .revokeDelegates delegates => FitsLength delegates.keys.length
  | .registerCommittee name url => FitsText name ∧ FitsText url
  | .submitBill d =>
    FitsText d.title ∧ FitsText d.detail ∧ FitsText d.url ∧ FitsLength d.options.length ∧
      ∀ o ∈ d.options, FitsText o
  | .createToken d => FitsText d.symbol ∧ FitsText d.name
  | .transferToken _ _ _ comment | .lockToken _ _ _ _ comment => FitsText comment
  | .voteCommittee _ | .revokeCommittee _ | .voteBill _ _ | .unrecognized _ _ => True

theorem fits_of_body {op : Operation} (h : FitsLength (bytesOf op).2.length) : Fits op := by
  cases op with
  | voteCommittee | revokeCommittee | voteBill | unrecognized => trivial
  | registerDelegate name | registerName name => exact fitsText_of_le h (Nat.le_refl _)
  | voteDelegates delegates | revokeDelegates delegates => exact fitsLength_keys h
  | registerCommittee name url =>
    simp only [bytesOf, List.length_append] at h
    exact ⟨fitsText_of_le h (by omega), fitsText_of_le h (by omega)⟩
  | submitBill d =>
    simp only [bytesOf, List.length_append] at h
    have hlist : FitsLength (ofList ofText d.options).length := h.of_le (by omega)
    exact ⟨fitsText_of_le h (by omega), fitsText_of_le h (by omega), fitsText_of_le h (by omega),
      fitsLength_options hlist⟩
  | createToken d =>
    simp only [bytesOf, List.length_append] at h
    exact ⟨fitsText_of_le h (by omega), fitsText_of_le h (by omega)⟩
  | transferToken token recipient amount comment | lockToken token recipient amount _ comment =>
    simp only [bytesOf, List.length_append] at h
    exact fitsText_of_le h (by omega)

/-- The body of an operation is read back, whatever follows it. -/
theorem reads_body {op : Operation} {kind : OpKind} (hkind : op.kind? = some kind)
    (h : Fits op) : Reads (readBody kind) (bytesOf op).2 op := by
  cases op <;> cases hkind <;> simp only [bytesOf, List.append_assoc]
  case registerDelegate.refl name => exact (reads_text h).map _
  case voteDelegates.refl delegates => exact (reads_set h).map _
  case revokeDelegates.refl delegates => exact (reads_set h).map _
  case registerCommittee.refl name url => exact (reads_text h.1).bind ((reads_text h.2).map _)
  case voteCommittee.refl committee => exact (reads_key committee).map _
  case revokeCommittee.refl committee => exact (reads_key committee).map _
  case submitBill.refl d =>
    obtain ⟨htitle, hdetail, hurl, hcount, hoptions⟩ := h
    have hlist := reads_list hcount fun o ho => reads_text (hoptions o ho)
    exact (reads_text htitle).bind ((reads_text hdetail).bind ((reads_text hurl).bind
      ((reads_word16 d.days).bind (hlist.map _))))
  case voteBill.refl bill choice => exact (reads_bill bill).bind ((reads_byte choice).map _)
  case registerName.refl name => exact (reads_text h).map _
  case createToken.refl d =>
    exact (reads_text h.1).bind ((reads_text h.2).bind ((reads_key d.address).bind
      ((reads_word64 d.total).bind ((reads_byte d.digits).map _))))
  case transferToken.refl token recipient amount comment =>
    exact (reads_token token).bind ((reads_key recipient).bind ((reads_word64 amount).bind
      ((reads_text h).map _)))
  case lockToken.refl token recipient amount expiry comment =>
    exact (reads_token token).bind ((reads_key recipient).bind ((reads_word64 amount).bind
      ((reads_word64 expiry).bind ((reads_text h).map _))))

theorem gives_kind (kind : OpKind) : Gives (·.kind? = some kind) (readBody kind) := by
  cases kind with
  | registerDelegate | voteDelegates | revokeDelegates | voteCommittee | revokeCommittee
    | registerName => exact .bind fun _ => .pure rfl
  | registerCommittee | voteBill => exact .bind fun _ => .bind fun _ => .pure rfl
  | transferToken =>
    exact .bind fun _ => .bind fun _ => .bind fun _ => .bind fun _ => .pure rfl
  | submitBill | createToken | lockToken =>
    exact .bind fun _ => .bind fun _ => .bind fun _ => .bind fun _ => .bind fun _ => .pure rfl

theorem decode_of_encode {op : Operation} {b : Bytes} (hop : op.IsProper) (h : encode op = .ok b) :
    decode b = .ok op := by
  obtain ⟨hmax, rfl⟩ := encode_eq_ok.mp h
  rw [decode_eq_ok]
  refine ⟨hmax, ?_⟩
  rcases Operation.exists_kind hop with ⟨kind, hkind⟩ | ⟨opcode, body, rfl, hnone⟩
  · have hread := (reads_body hkind (fits_of_body (.of_body hmax))).readAll
    rw [opcode_of_kind hkind] at h ⊢
    rw [OpKind.ofOpcode?_opcode]
    exact ⟨hread, h⟩
  · change match OpKind.ofOpcode? opcode with | none => _ | some kind => _
    rw [hnone]
    rfl

theorem encode_of_decode {op : Operation} {b : Bytes} (h : decode b = .ok op) :
    op.IsProper ∧ encode op = .ok b := by
  cases b with
  | nil => cases h
  | cons opcode body =>
    obtain ⟨hmax, h⟩ := decode_eq_ok.mp h
    cases hkind : OpKind.ofOpcode? opcode with
    | none =>
      rw [hkind] at h
      cases h
      exact ⟨hkind, encode_eq_ok.mpr ⟨hmax, rfl⟩⟩
    | some kind =>
      rw [hkind] at h
      obtain ⟨hread, hwritten⟩ := h
      exact ⟨Operation.isProper_of_kind ((gives_kind kind).readAll hread), hwritten⟩

inductive Field where
  | fixed (width : Nat)
  | text
  | texts
  | keys

def fields : OpKind → List Field
  | .registerDelegate | .registerName => [.text]
  | .voteDelegates | .revokeDelegates => [.keys]
  | .registerCommittee => [.text, .text]
  | .voteCommittee | .revokeCommittee => [.fixed 20]
  | .submitBill => [.text, .text, .text, .fixed 2, .texts]
  | .voteBill => [.fixed 20, .fixed 1]
  | .createToken => [.text, .text, .fixed 20, .fixed 8, .fixed 1]
  | .transferToken => [.fixed 8, .fixed 20, .fixed 8, .text]
  | .lockToken => [.fixed 8, .fixed 20, .fixed 8, .fixed 8, .text]

/-- What stands in a field. A text is any bytes here, and keys are in any order. -/
inductive Datum where
  | bytes (b : Bytes)
  | text (t : Bytes)
  | texts (ts : List Bytes)
  | keys (ks : List KeyId)

def counted (t : Bytes) : Bytes := ofLength t.length ++ t

namespace Datum

def write : Datum → Bytes
  | bytes b => b
  | text t => counted t
  | texts ts => ofList counted ts
  | keys ks => ofList ofKey ks

def field : Datum → Field
  | bytes b => .fixed b.length
  | text _ => .text
  | texts _ => .texts
  | keys _ => .keys

def Fits : Datum → Prop
  | bytes _ => True
  | text t => FitsLength t.length
  | texts ts => FitsLength ts.length ∧ ∀ t ∈ ts, FitsLength t.length
  | keys ks => FitsLength ks.length

/-- Texts are UTF-8, and keys ascend without repetition. -/
def Valid : Datum → Prop
  | bytes _ => True
  | text t => ∃ s, utf8 s = t
  | texts ts => ∀ t ∈ ts, ∃ s, utf8 s = t
  | keys ks => ks.Pairwise fun a b => KeyOrder.before a b = true

end Datum

def bodyOf (data : List Datum) : Bytes := data.flatMap Datum.write

structure HasFields (kind : OpKind) (data : List Datum) : Prop where
  filled : data.map Datum.field = fields kind
  fits : ∀ d ∈ data, d.Fits

structure HasFirstFields (kind : OpKind) (data : List Datum) : Prop where
  filled : data.map Datum.field <+: fields kind
  fits : ∀ d ∈ data, d.Fits

/-- Reads a field without regard to whether a text is UTF-8 or keys ascend. -/
def readCounted : Reader Bytes := do take (← number 8) .shortText

def Field.reader : Field → Reader Datum
  | .fixed width => do return .bytes (← take width .endOfData)
  | .text => do return .text (← readCounted)
  | .texts => do return .texts (← list readCounted)
  | .keys => do return .keys (← list key)

theorem reads_counted {t : Bytes} (h : FitsLength t.length) : Reads readCounted (counted t) t :=
  (reads_length h).bind (reads_take t .shortText)

theorem Datum.Fits.reads {d : Datum} (h : d.Fits) : Reads d.field.reader d.write d := by
  cases d with
  | bytes b => exact (reads_take b .endOfData).map _
  | text t => exact (reads_counted h).map _
  | texts ts => exact (reads_list h.1 fun t ht => reads_counted (h.2 t ht)).map _
  | keys ks => exact (reads_list h fun k _ => reads_key k).map _

theorem reads_data {data : List Datum} (h : ∀ d ∈ data, d.Fits) :
    Reads ((data.map Datum.field).mapM Field.reader) (bodyOf data) data := by
  induction data with
  | nil => exact Reads.pure []
  | cons d rest ih =>
    have hrest := ih fun d' hd' => h d' (List.mem_cons_of_mem d hd')
    rw [List.map_cons, List.mapM_cons]
    exact (h d List.mem_cons_self).reads.bind (hrest.map _)

/-- Where the data of some fields end is seen from the fields alone. -/
theorem data_unique {data data' : List Datum} (h : ∀ d ∈ data, d.Fits) (h' : ∀ d ∈ data', d.Fits)
    (hfields : data.map Datum.field = data'.map Datum.field) {rest rest' : Bytes}
    (heq : bodyOf data ++ rest = bodyOf data' ++ rest') : data = data' ∧ rest = rest' := by
  have hreads := reads_data h
  rw [hfields] at hreads
  exact hreads.unique (reads_data h') heq

def dataOf : Operation → List Datum
  | .registerDelegate name | .registerName name => [.text (utf8 name)]
  | .voteDelegates delegates | .revokeDelegates delegates => [.keys delegates.keys]
  | .registerCommittee name url => [.text (utf8 name), .text (utf8 url)]
  | .voteCommittee committee | .revokeCommittee committee => [.bytes (ofKey committee)]
  | .submitBill d =>
    [.text (utf8 d.title), .text (utf8 d.detail), .text (utf8 d.url),
      .bytes (Bytes.ofUInt16LE d.days), .texts (d.options.map utf8)]
  | .voteBill bill choice => [.bytes (ofBill bill), .bytes [choice]]
  | .createToken d =>
    [.text (utf8 d.symbol), .text (utf8 d.name), .bytes (ofKey d.address),
      .bytes (Bytes.ofUInt64LE d.total), .bytes [d.digits]]
  | .transferToken token recipient amount comment =>
    [.bytes (ofToken token), .bytes (ofKey recipient), .bytes (Bytes.ofUInt64LE amount),
      .text (utf8 comment)]
  | .lockToken token recipient amount expiry comment =>
    [.bytes (ofToken token), .bytes (ofKey recipient), .bytes (Bytes.ofUInt64LE amount),
      .bytes (Bytes.ofUInt64LE expiry), .text (utf8 comment)]
  | .unrecognized _ body => [.bytes body]

section

variable {op : Operation} {kind : OpKind}

/-- The texts of a list as bytes. -/
theorem ofList_utf8 (texts : List String) :
    ofList ofText texts = ofList counted (texts.map utf8) := by
  unfold ofList
  rw [List.length_map, List.flatMap_map]
  rfl

theorem bodyOf_dataOf (op : Operation) : bodyOf (dataOf op) = (bytesOf op).2 := by
  cases op <;> simp [dataOf, bodyOf, Datum.write, bytesOf, ofText, ofSet, counted, ofList_utf8]

theorem field_dataOf (hkind : op.kind? = some kind) :
    (dataOf op).map Datum.field = fields kind := by
  have hkey (k : KeyId) : (ofKey k).length = 20 := k.bytes.property
  have hbill (id : BillId) : (ofBill id).length = 20 := id.bytes.property
  have hword (x : UInt64) : (Bytes.ofUInt64LE x).length = 8 := Bytes.length_ofNatLE 8 _
  have htoken (id : TokenId) : (ofToken id).length = 8 := hword id.number
  have hdays (x : UInt16) : (Bytes.ofUInt16LE x).length = 2 := Bytes.length_ofNatLE 2 _
  cases op <;> cases hkind <;>
    simp [dataOf, fields, Datum.field, hkey, hbill, hword, htoken, hdays]

theorem fits_dataOf (h : Fits op) : ∀ d ∈ dataOf op, d.Fits := by
  cases op <;> simp_all [dataOf, Fits, FitsText, Datum.Fits]

theorem valid_dataOf (op : Operation) : ∀ d ∈ dataOf op, d.Valid := by
  cases op <;> simp [dataOf, Datum.Valid, SortedMap.keys_ascending]

/-- The body of an operation is laid out in the fields of its kind. -/
theorem hasFields_dataOf (hkind : op.kind? = some kind) (h : Fits op) :
    HasFields kind (dataOf op) := ⟨field_dataOf hkind, fits_dataOf h⟩

end

def Refused (b : Bytes) : Prop := ∃ fault, decode b = .error fault

theorem refused_of_forall {b : Bytes} (h : ∀ op, decode b ≠ .ok op) : Refused b := by
  cases hb : decode b with
  | ok op => exact absurd hb (h op)
  | error fault => exact ⟨fault, hb⟩

/-- A body that is accepted holds valid data in the fields of its kind. -/
theorem data_of_decode {kind : OpKind} {body : Bytes} {op : Operation}
    (h : decode (kind.opcode :: body) = .ok op) :
    body.length + 1 ≤ maxLength ∧
      ∃ data, HasFields kind data ∧ bodyOf data = body ∧ ∀ d ∈ data, d.Valid := by
  obtain ⟨hmax, h⟩ := decode_eq_ok.mp h
  rw [OpKind.ofOpcode?_opcode] at h
  obtain ⟨hread, hwritten⟩ := h
  have hkind := (gives_kind kind).readAll hread
  obtain ⟨hfits, hbytes⟩ := encode_eq_ok.mp hwritten
  have hbody : body = (bytesOf op).2 := (List.cons.inj hbytes).2
  have hfields := hasFields_dataOf hkind (fits_of_body (.of_body hfits))
  exact ⟨hmax, dataOf op, hfields, (bodyOf_dataOf op).trans hbody.symm, valid_dataOf op⟩

/-- Whatever follows them, data of the first fields are those of the accepted body. -/
theorem valid_of_decode {kind : OpKind} {data : List Datum} (hdata : HasFirstFields kind data)
    {rest : Bytes} {op : Operation} (h : decode (kind.opcode :: (bodyOf data ++ rest)) = .ok op) :
    ∀ d ∈ data, d.Valid := by
  obtain ⟨-, all, hall, hbody, hvalid⟩ := data_of_decode h
  have hprefix := hdata.filled
  rw [← hall.filled, List.prefix_iff_eq_take, List.length_map, ← List.map_take] at hprefix
  have hsplit : bodyOf data ++ rest =
      bodyOf (all.take data.length) ++ bodyOf (all.drop data.length) := by
    unfold bodyOf
    rw [← List.flatMap_append, List.take_append_drop]
    exact hbody.symm
  have hfits : ∀ d ∈ all.take data.length, d.Fits :=
    fun d hd => hall.fits d (List.mem_of_mem_take hd)
  obtain ⟨hsame, -⟩ := data_unique hdata.fits hfits hprefix hsplit
  intro d hd
  rw [hsame] at hd
  exact hvalid d (List.mem_of_mem_take hd)

/-- Of an accepted body no part in front of its end has all the fields. -/
theorem rest_of_decode {kind : OpKind} {data : List Datum} (hdata : HasFields kind data)
    {rest : Bytes} {op : Operation} (h : decode (kind.opcode :: (bodyOf data ++ rest)) = .ok op) :
    rest = [] := by
  obtain ⟨-, all, hall, hbody, -⟩ := data_of_decode h
  have heq : bodyOf data ++ rest = bodyOf all ++ [] := by rw [hbody, List.append_nil]
  exact (data_unique hdata.fits hall.fits (hdata.filled.trans hall.filled.symm) heq).2

/-- A body with all the fields is not a part of another one. -/
theorem refused_of_prefix {kind : OpKind} {data : List Datum} (hdata : HasFields kind data)
    {front rest : Bytes} (hsplit : bodyOf data = front ++ rest) (hrest : rest ≠ []) :
    Refused (kind.opcode :: front) := by
  apply refused_of_forall
  intro op h
  obtain ⟨-, all, hall, hbody, -⟩ := data_of_decode h
  have heq : bodyOf data ++ [] = bodyOf all ++ rest := by rw [hbody, List.append_nil, hsplit]
  have hfields := hdata.filled.trans hall.filled.symm
  exact hrest (data_unique hdata.fits hall.fits hfields heq).2.symm

theorem refused_of_unordered {kind : OpKind} (hkind : fields kind = [.keys]) {ks : List KeyId}
    (h : ¬ ks.Pairwise fun a b => KeyOrder.before a b = true) (rest : Bytes) :
    Refused (kind.opcode :: (ofList ofKey ks ++ rest)) := by
  apply refused_of_forall
  intro op hop
  obtain ⟨hmax, -⟩ := data_of_decode hop
  have hcount : FitsLength ks.length := by
    rw [List.length_append] at hmax
    exact fitsLength_keys ((FitsLength.of_body hmax).of_le (by omega))
  have hdata : HasFirstFields kind [.keys ks] := by
    refine ⟨?_, List.forall_mem_singleton.mpr hcount⟩
    rw [hkind]
    exact List.prefix_refl _
  have hbody : bodyOf [.keys ks] = ofList ofKey ks := List.append_nil _
  rw [← hbody] at hop
  exact h (valid_of_decode hdata hop _ List.mem_cons_self)

/-- Operations and payloads stand for each other. -/
structure Canonical : Prop where
  /-- An operation is read back from its payload. -/
  decoded : ∀ op b, op.IsProper → encode op = .ok b → decode b = .ok op
  /-- A payload that is read is the one of its operation. -/
  encoded : ∀ b op, decode b = .ok op → op.IsProper ∧ encode op = .ok b
  accepted_iff : ∀ b, (∃ op, decode b = .ok op) ↔ ∃ op : Operation, op.IsProper ∧ encode op = .ok b
  /-- An operation has a payload exactly if it is not too long for one. -/
  has_payload : ∀ op, (∃ b, encode op = .ok b) ↔ width op ≤ maxLength
  /-- What is well formed has a payload, but for bills: their texts may be too long together. -/
  formed : ∀ op kind, op.Formed kind → kind ≠ .submitBill → ∃ b, encode op = .ok b
  one_payload : ∀ op b c, decode b = .ok op → decode c = .ok op → b = c
  one_operation : ∀ op op' b, op.IsProper → op'.IsProper → encode op = .ok b → encode op' = .ok b →
    op = op'
  /-- The payload of a known kind is its opcode and then valid data in its fields. -/
  laid_out : ∀ op kind b, op.kind? = some kind → encode op = .ok b →
    ∃ data, HasFields kind data ∧ (∀ d ∈ data, d.Valid) ∧ b = kind.opcode :: bodyOf data
  /-- A set that is not in ascending order, or has a member twice, is refused. -/
  unordered : ∀ (kind : OpKind) ks rest, kind = .voteDelegates ∨ kind = .revokeDelegates →
    ¬ (ks.Pairwise fun a b : KeyId => KeyOrder.before a b = true) →
      Refused (kind.opcode :: (ofList ofKey ks ++ rest))
  /-- Bytes after a whole body are refused. -/
  trailing : ∀ kind data extra, HasFields kind data → extra ≠ [] →
    Refused (kind.opcode :: (bodyOf data ++ extra))
  /-- A body that is cut short is refused. -/
  truncated : ∀ kind data n, HasFields kind data → n < (bodyOf data).length →
    Refused (kind.opcode :: (bodyOf data).take n)
  /-- A text that is not UTF-8 is refused, whatever follows it. -/
  badText : ∀ kind data t rest, HasFirstFields kind data →
    (.text t ∈ data ∨ ∃ ts, .texts ts ∈ data ∧ t ∈ ts) → (∀ s, utf8 s ≠ t) →
      Refused (kind.opcode :: (bodyOf data ++ rest))

theorem canonical : Canonical where
  decoded := fun _ _ => decode_of_encode
  encoded := fun _ _ => encode_of_decode
  accepted_iff := by
    intro b
    constructor
    · rintro ⟨op, h⟩
      exact ⟨op, encode_of_decode h⟩
    · rintro ⟨op, hop, h⟩
      exact ⟨op, decode_of_encode hop h⟩
  has_payload := fun _ => encode_iff
  formed := fun _ _ hformed hkind => encode_iff.mpr ((width_le_widest hformed).trans (widest_le hkind))
  one_payload := by
    intro op b c hb hc
    have hb' := (encode_of_decode hb).2
    rw [(encode_of_decode hc).2] at hb'
    exact (Except.ok.inj hb').symm
  one_operation := by
    intro op op' b hop hop' h h'
    have hread := decode_of_encode hop h
    rw [decode_of_encode hop' h'] at hread
    exact (Except.ok.inj hread).symm
  laid_out := by
    intro op kind b hkind h
    obtain ⟨hmax, rfl⟩ := encode_eq_ok.mp h
    have hfields := hasFields_dataOf hkind (fits_of_body (.of_body hmax))
    refine ⟨dataOf op, hfields, valid_dataOf op, ?_⟩
    rw [bodyOf_dataOf, opcode_of_kind hkind]
  unordered := by
    intro kind ks rest hkind h
    rcases hkind with rfl | rfl
    · exact refused_of_unordered rfl h rest
    · exact refused_of_unordered rfl h rest
  trailing := by
    intro kind data extra hdata hextra
    apply refused_of_forall
    intro op hop
    exact hextra (rest_of_decode hdata hop)
  truncated := by
    intro kind data n hdata hn
    apply refused_of_prefix hdata (List.take_append_drop n _).symm
    intro hempty
    have hle := List.drop_eq_nil_iff.mp hempty
    omega
  badText := by
    intro kind data t rest hdata ht hbad
    apply refused_of_forall
    intro op hop
    have hvalid := valid_of_decode hdata hop
    rcases ht with ht | ⟨ts, hts, ht⟩
    · obtain ⟨s, hs⟩ := hvalid _ ht
      exact hbad s hs
    · obtain ⟨s, hs⟩ := hvalid _ hts t ht
      exact hbad s hs

end Payload

end CivicLedger
