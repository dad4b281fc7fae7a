import CivicLedger.Proofs.Operation.Payload
import CivicLedger.State.Ledger
import Mathlib.Order.Bounds.Defs

/-!
# The room that payloads leave

The limits of form bound the payload of each kind of operation. Those of eleven kinds always fit
into the longest payload that is read. The texts of a bill may each be within its limit and be too
long together: such a bill is admitted, and it has no payload.
-/

namespace CivicLedger

open Form Wire

namespace Payload

def longText (n : Nat) : String := String.ofList (List.replicate n 'x')

def wordyBill (title detail url : String) : BillDraft :=
  ⟨title, detail, url, 1, List.replicate maxBillOptions (longText TextField.option.limit)⟩

/-- An operation of a kind, with all its texts and lists as long as they may be. -/
def longest : OpKind → Operation
  | .registerDelegate => .registerDelegate (longText 16)
  | .registerName => .registerName (longText 16)
  | .voteDelegates => .voteDelegates delegates
  | .revokeDelegates => .revokeDelegates delegates
  | .registerCommittee => .registerCommittee (longText 16) (longText 256)
  | .voteCommittee => .voteCommittee ⟨.fill 20 0⟩
  | .revokeCommittee => .revokeCommittee ⟨.fill 20 0⟩
  | .submitBill => .submitBill (wordyBill (longText 128) (longText 256) (longText 256))
  | .voteBill => .voteBill ⟨.fill 20 0⟩ 0
  | .createToken => .createToken ⟨longText 16, longText 64, ⟨.fill 20 0⟩, 1, 0⟩
  | .transferToken => .transferToken ⟨1⟩ ⟨.fill 20 0⟩ 1 (longText 256)
  | .lockToken => .lockToken ⟨1⟩ ⟨.fill 20 0⟩ 1 0 (longText 256)
where
  delegates := SortedSet.ofKeys ((List.range 51).map fun n => ⟨.fill 20 (UInt8.ofNat n)⟩)

theorem size_delegates : longest.delegates.size = 51 := by decide +kernel

theorem longest_formed (kind : OpKind) : (longest kind).Formed kind := by
  have hdelegates : checkDelegates longest.delegates = .ok () := by
    unfold checkDelegates
    rw [size_delegates]
    rfl
  constructor
  · cases kind <;> rfl
  · cases kind with
    | voteDelegates | revokeDelegates => exact hdelegates
    | _ => decide +kernel

theorem width_longest (kind : OpKind) : width (longest kind) = widest kind := by
  cases kind with
  | voteDelegates | revokeDelegates =>
    change 9 + 20 * longest.delegates.size = 1029
    rw [size_delegates]
  | _ => decide +kernel

def guild (chair : KeyId) : Ledger :=
  { (∅ : Ledger) with
    committees := (∅ : SortedMap KeyId Committee).insert chair ⟨chair, "guild", "", 1⟩ }

def Carried (op : Operation) : Prop :=
  ∃ b, encode op = .ok b ∧ b.length = width op ∧ b.length ≤ maxLength ∧ decode b = .ok op

theorem carried_of_width {op : Operation} (hop : op.IsProper) (h : width op ≤ maxLength) :
    Carried op := by
  have hwritten : encode op = .ok ((bytesOf op).1 :: (bytesOf op).2) := by
    rw [encode_eq, if_pos h]
  have hlength : ((bytesOf op).1 :: (bytesOf op).2).length = width op := length_bytesOf op
  exact ⟨_, hwritten, hlength, hlength ▸ h, decode_of_encode hop hwritten⟩

/-- Of each kind the longest payload is known. An operation that may be admitted is carried, unless
it is a bill whose texts are too long together. -/
theorem carried_of_formed {op : Operation} {kind : OpKind} (h : op.Formed kind) :
    IsGreatest {n | ∃ op : Operation, op.Formed kind ∧ width op = n} (widest kind) ∧
      (Carried op ∨ kind = .submitBill ∧ maxLength < width op ∧
        encode op = .error (.tooLarge (width op))) := by
  constructor
  · refine ⟨⟨longest kind, longest_formed kind, width_longest kind⟩, ?_⟩
    rintro n ⟨op, hop, rfl⟩
    exact width_le_widest hop
  · have hwidest := width_le_widest h
    by_cases hfits : width op ≤ maxLength
    · exact .inl (carried_of_width (Operation.isProper_of_kind h.kind) hfits)
    · right
      refine ⟨?_, by omega, by rw [encode_eq, if_neg hfits]⟩
      by_contra hkind
      have hle := widest_le hkind
      omega

theorem longest_lock_carried :
    (longest .lockToken).Formed .lockToken ∧ width (longest .lockToken) = 309 ∧
      Carried (longest .lockToken) :=
  ⟨longest_formed _, width_longest _,
    (carried_of_formed (longest_formed .lockToken)).2.resolve_right fun h => nomatch h.1⟩

/-- The limits of form do not keep the limit of payloads: sixteen options of 256 bytes leave no room
for their lengths and for the title, and a committee may submit such a bill all the same. -/
theorem wordy_bill_not_carried :
    (Operation.submitBill (wordyBill "t1" "" "")).Formed .submitBill ∧
      (∃ effect, assess (guild ⟨.fill 20 1⟩) ⟨2, 10⟩ ⟨.fill 20 1⟩
        (.submitBill (wordyBill "t1" "" "")) = .ok effect) ∧
      encode (.submitBill (wordyBill "t1" "" "")) = .error (.tooLarge 4261) := by
  have hform : (Operation.submitBill (wordyBill "t1" "" "")).checkForm = .ok () := by
    decide +kernel
  have hwidth : width (.submitBill (wordyBill "t1" "" "")) = 4261 := by decide +kernel
  refine ⟨⟨rfl, hform⟩, ?_, ?_⟩
  · simp only [assess, hform]
    exact ⟨_, rfl⟩
  · rw [encode_eq, if_neg (by rw [hwidth]; decide), hwidth]

end Payload

end CivicLedger
