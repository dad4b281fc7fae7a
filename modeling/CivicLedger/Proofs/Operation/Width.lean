import CivicLedger.Operation.Payload
import CivicLedger.Proofs.Rules.Form
import CivicLedger.Rules.Admission
import Mathlib.Algebra.Order.BigOperators.Group.List
import Mathlib.Algebra.Order.Ring.Nat

/-!
# The length of payloads

How long a payload is follows from the texts and lists of its operation, and the limits of form
bound it for each kind. An operation has a payload exactly if it is not too long for one; of eleven
kinds it never is.
-/

namespace CivicLedger

open Form Wire

namespace Wire

variable {α : Type}

theorem length_ofText (s : String) : (ofText s).length = 8 + (utf8 s).length := by
  simp [ofText, ofLength]

theorem length_ofList (f : α → Bytes) (l : List α) :
    (ofList f l).length = 8 + (l.flatMap f).length := by
  simp [ofList, ofLength]

end Wire

structure Operation.Formed (op : Operation) (kind : OpKind) : Prop where
  kind : op.kind? = some kind
  form : op.checkForm = .ok ()

/-- What is admitted is of a known kind and of the right form. -/
theorem Operation.formed_of_assess {σ : Type} [LedgerReads σ] {s : σ} {point : ChainPoint}
    {sender : KeyId} {op : Operation} {effect : Effect}
    (h : assess s point sender op = .ok effect) : ∃ kind, op.Formed kind := by
  unfold assess at h
  cases hform : op.checkForm with
  | error fault =>
    rw [hform] at h
    cases h
  | ok u =>
    rw [hform] at h
    cases op with
    | unrecognized opcode body => cases h
    | _ => exact ⟨_, rfl, hform⟩

namespace Payload

def width : Operation → Nat
  | .registerDelegate name | .registerName name => 9 + name.utf8ByteSize
  | .voteDelegates delegates | .revokeDelegates delegates => 9 + 20 * delegates.size
  | .registerCommittee name url => 17 + name.utf8ByteSize + url.utf8ByteSize
  | .voteCommittee _ | .revokeCommittee _ => 21
  | .submitBill d =>
    35 + d.title.utf8ByteSize + d.detail.utf8ByteSize + d.url.utf8ByteSize +
      (d.options.map fun o => 8 + o.utf8ByteSize).sum
  | .voteBill _ _ => 22
  | .createToken d => 46 + d.symbol.utf8ByteSize + d.name.utf8ByteSize
  | .transferToken _ _ _ comment => 45 + comment.utf8ByteSize
  | .lockToken _ _ _ _ comment => 53 + comment.utf8ByteSize
  | .unrecognized _ body => 1 + body.length

/-- The longest payload of a kind that the limits of form leave possible. -/
def widest : OpKind → Nat
  | .registerDelegate | .registerName => 25
  | .voteDelegates | .revokeDelegates => 1029
  | .registerCommittee => 289
  | .voteCommittee | .revokeCommittee => 21
  | .submitBill => 4899
  | .voteBill => 22
  | .createToken => 126
  | .transferToken => 301
  | .lockToken => 309

theorem length_utf8 (s : String) : (utf8 s).length = s.utf8ByteSize := by
  unfold utf8
  rw [Array.length_toList]
  rfl

theorem length_text (s : String) : (ofText s).length = 8 + s.utf8ByteSize := by
  rw [length_ofText, length_utf8]

theorem length_key (k : KeyId) : (ofKey k).length = 20 := k.bytes.property

theorem length_bill (id : BillId) : (ofBill id).length = 20 := id.bytes.property

theorem length_word64 (x : UInt64) : (Bytes.ofUInt64LE x).length = 8 := Bytes.length_ofNatLE 8 _

theorem length_word16 (x : UInt16) : (Bytes.ofUInt16LE x).length = 2 := Bytes.length_ofNatLE 2 _

theorem length_set (s : SortedSet KeyId) : (ofSet s).length = 8 + 20 * s.size := by
  have hkeys : (s.keys.flatMap ofKey).length = 20 * s.keys.length := by
    induction s.keys with
    | nil => rfl
    | cons k ks ih => rw [List.flatMap_cons, List.length_append, length_key, ih, List.length_cons,
        Nat.mul_add, Nat.add_comm]
  unfold ofSet
  rw [length_ofList, hkeys]
  unfold SortedMap.keys SortedMap.size
  rw [List.length_map]

theorem length_options (options : List String) :
    (ofList ofText options).length = 8 + (options.map fun o => 8 + o.utf8ByteSize).sum := by
  rw [length_ofList, List.length_flatMap]
  simp only [length_text]

/-- The opcode takes the first byte. -/
theorem length_bytesOf (op : Operation) : (bytesOf op).2.length + 1 = width op := by
  cases op <;>
    simp only [bytesOf, width, List.length_append, length_text, length_key, length_bill,
      ofToken, length_word64, length_word16, length_set, length_options, List.length_singleton] <;>
    omega

/-- Parts of at most a length each are together at most as long as their number allows. -/
theorem sum_options_le {options : List String} {n : Nat} (hcount : options.length ≤ n)
    (h : ∀ o ∈ options, TextForm .option o) :
    (options.map fun o => 8 + o.utf8ByteSize).sum ≤ 264 * n := by
  have hpart : ∀ x ∈ options.map fun o => 8 + o.utf8ByteSize, x ≤ 264 := by
    intro x hx
    obtain ⟨o, ho, rfl⟩ := List.mem_map.mp hx
    have hshort : o.utf8ByteSize ≤ 256 := (h o ho).short
    omega
  have hsum := List.sum_le_card_nsmul _ _ hpart
  rw [List.length_map, Nat.nsmul_eq_mul] at hsum
  exact hsum.trans (by omega)

theorem width_le_of_bill {d : BillDraft} (h : BillForm d) :
    width (.submitBill d) ≤ widest .submitBill := by
  have htitle : d.title.utf8ByteSize ≤ 128 := h.title.short
  have hdetail : d.detail.utf8ByteSize ≤ 256 := h.detail
  have hurl : d.url.utf8ByteSize ≤ 256 := h.url
  have hoptions := sum_options_le h.count.2 h.options
  change _ ≤ 264 * 16 at hoptions
  simp only [width, widest]
  omega

theorem width_le_of_delegates {s : SortedSet KeyId} (h : checkDelegates s = .ok ()) :
    9 + 20 * s.size ≤ 1029 := by
  unfold checkDelegates at h
  split at h
  · next hcount =>
    have hmost : s.size ≤ 51 := hcount.2
    omega
  · cases h

theorem size_of_checkPayment {amount : UInt64} {comment : String}
    (h : checkPayment amount comment = .ok ()) : comment.utf8ByteSize ≤ 256 := by
  unfold checkPayment at h
  simp only [throw_bind, throw_if_eq_ok] at h
  exact checkLength_eq_ok.mp h.2

/-- One bound for each kind, each from the limits of its own fields. -/
theorem width_le_widest {op : Operation} {kind : OpKind} (h : op.Formed kind) :
    width op ≤ widest kind := by
  obtain ⟨hkind, hform⟩ := h
  cases op with
  | registerDelegate name | registerName name =>
    cases hkind
    have hname := (length_le_of_isName (checkName_eq_ok.mp hform)).2
    simp only [width, widest]
    omega
  | voteDelegates delegates | revokeDelegates delegates =>
    cases hkind
    exact width_le_of_delegates hform
  | registerCommittee name url =>
    cases hkind
    obtain ⟨_, hname, hurl⟩ := bind_eq_ok.mp hform
    have hname := (length_le_of_isName (checkName_eq_ok.mp hname)).2
    have hurl : url.utf8ByteSize ≤ 256 := checkLength_eq_ok.mp hurl
    simp only [width, widest]
    omega
  | voteCommittee | revokeCommittee | voteBill =>
    cases hkind
    exact Nat.le_refl _
  | submitBill d =>
    cases hkind
    exact width_le_of_bill (billForm_of_checkBill hform)
  | createToken d =>
    cases hkind
    have htoken := tokenForm_of_checkToken hform
    have hsymbol := length_le_of_isSymbol htoken.symbol
    have hname : d.name.utf8ByteSize ≤ 64 := htoken.name.short
    simp only [width, widest]
    omega
  | transferToken token recipient amount comment =>
    cases hkind
    have hcomment := size_of_checkPayment hform
    simp only [width, widest]
    omega
  | lockToken token recipient amount expiry comment =>
    cases hkind
    have hcomment := size_of_checkPayment hform
    simp only [width, widest]
    omega
  | unrecognized opcode body => cases hkind

/-- No kind but one has a payload that is too long. -/
theorem widest_le {kind : OpKind} (h : kind ≠ .submitBill) : widest kind ≤ maxLength := by
  cases kind with
  | submitBill => exact absurd rfl h
  | _ => decide

theorem encode_eq (op : Operation) :
    encode op = if width op ≤ maxLength then .ok ((bytesOf op).1 :: (bytesOf op).2)
      else .error (.tooLarge (width op)) := by
  rw [← length_bytesOf]
  rfl

theorem encode_iff {op : Operation} : (∃ b, encode op = .ok b) ↔ width op ≤ maxLength := by
  rw [encode_eq]
  split
  next h => exact ⟨fun _ => h, fun _ => ⟨_, rfl⟩⟩
  next h => exact ⟨nofun, fun hle => absurd hle h⟩

end Payload

end CivicLedger
