import CivicLedger.Proofs.Database.Backends
import CivicLedger.Proofs.Database.Chains

/-!
# What runs of blocks guarantee

Tokens are neither made nor lost, and a block is refused only for its order: what the rules admit is
stored, and every bill that is due is settled. Both hold of a ledger in memory, and therefore of a
database, on which blocks do the same.
-/

namespace CivicLedger.Chain

open Program

def issue : Block :=
  let sender : KeyId := ⟨.fill 20 1⟩
  let payload (op : Operation) : Bytes := (Payload.bytesOf op).1 :: (Payload.bytesOf op).2
  ⟨1, 10, [⟨0, payload (.registerName "ada"), sender, 0⟩,
    ⟨1, payload (.createToken ⟨"GOLD", "Gold", ⟨.fill 20 7⟩, 1000, 2⟩), sender, 0⟩]⟩

/-- Whatever blocks are applied to a new store, the holders and the locks of each token come to its
supply, and nothing is held of a token that has no record. -/
theorem supply_conserved {k : Backend} {a : Applicant} {s : k.Store} (h : Reached k.opened a s) :
    SupplyHolds s := by
  cases k with
  | memory => exact (Ledger.sound_of_reached h).1.conserved.supplyHolds
  | tables =>
    obtain ⟨l, hl, hm⟩ := Database.exists_mirrors_of_reached h
    exact hm.alike.supplyHolds (Ledger.sound_of_reached hl).1.conserved.supplyHolds

theorem supply_conserved_after_issue :
    (apply (.flat 0) fresh issue ∅ (∅ : Ledger)).store.tokens.size = 1 ∧
      SupplyHolds (apply (.flat 0) fresh issue ∅ (∅ : Ledger)).store :=
  ⟨by decide +kernel, supply_conserved (k := .memory) (.block (.flat 0) issue ∅ .start)⟩

/-- A store that holds whatever the rules admit. -/
structure Reliable (k : Backend) (a : Applicant) (s : k.Store) : Prop where
  /-- The applicant has not given up. -/
  going : a.halted = false
  /-- Every bill that is due at a block is settled. -/
  settles : ∀ b coins cursor, ∃ l due settled s', k.Holds l s ∧
    LedgerReads.billsDue s b.time = .ok due ∧ settled.map Prod.fst = due ∧
    enter b coins cursor s = .ok settled s' ∧ k.Holds (l.entered b coins cursor) s'
  /-- After any transactions of a block, whatever the rules admit is performed. -/
  performs : ∀ fees b coins cursor settled txs s₁ s₂, enter b coins cursor s = .ok settled s₁ →
    Taken fees b txs s₁ s₂ → HasFewTokens s₂ →
      ∀ point sender op effect, assess s₂ point sender op = .ok effect →
        ∃ l s₃, k.Holds l s₂ ∧ perform effect s₂ = .ok () s₃ ∧ k.Holds (l.enact effect) s₃
  /-- A block fails only because it, or a transaction in it, is out of order. -/
  refuses : ∀ fees b coins, HasFewTokens (apply fees a b coins s).store →
    (apply fees a b coins s).applicant.halted = false ∧
      ∀ fault, (apply fees a b coins s).result = .error fault → check a b = .error fault ∧
        ((∃ last, fault = .blockOrder b.height last) ∨ ∃ index, fault = .txOrder b.height index)

theorem reliable_ledger {a : Applicant} {l : Ledger} (h : Reached ∅ a l) (hfew : HasFewTokens l) :
    Reliable .memory a l := by
  obtain ⟨hsound, hhalted⟩ := Ledger.sound_of_reached h
  have hnotFull : ¬ l.IsFull := Nat.not_le.mpr (Ledger.hasFewTokens_iff.mp hfew)
  have hgoing : a.halted = false := Bool.eq_false_iff.mpr fun hh => hnotFull (hhalted hh)
  refine ⟨hgoing, ?_, ?_, ?_⟩
  · intro b coins cursor
    obtain ⟨settled, hdue, henter⟩ := hsound.scheduled.enter_apply b coins cursor
    exact ⟨l, _, settled, _, rfl, rfl, hdue, henter, rfl⟩
  · intro fees b coins cursor settled txs l₁ l₂ henter htaken hfew point sender op effect hassess
    obtain ⟨_, _, hok⟩ := hsound.scheduled.enter_apply b coins cursor
    rw [henter] at hok
    cases hok
    have hsound' := (hsound.entered b coins cursor).taken htaken
    have hadmits := Ledger.admits_of_assess hassess
    have hroom := hsound'.hasRoom hadmits (Nat.not_le.mpr (Ledger.hasFewTokens_iff.mp hfew))
    exact ⟨l₂, _, rfl, Ledger.perform_apply hsound'.conserved hadmits hroom, rfl⟩
  · intro fees b coins hfew
    rcases apply_ends (Ledger.ends_applyChecked_sound fees b coins) hsound with
      ⟨fault, hcheck, happly⟩ | ⟨_, ⟨report, l', happly, _⟩ | ⟨fault, l', happly, _, hfull, _⟩⟩
    · rw [happly]
      refine ⟨hgoing, ?_⟩
      intro fault' hfault
      cases hfault
      refine ⟨hcheck, ?_⟩
      rcases check_eq_error hcheck with ⟨hh, _⟩ | ⟨last, _, _, hf⟩ | ⟨index, _, hf⟩
      · rw [hgoing] at hh
        cases hh
      · exact .inl ⟨last, hf⟩
      · exact .inr ⟨index, hf⟩
    · rw [happly]
      refine ⟨rfl, ?_⟩
      intro fault hfault
      cases hfault
    · rw [happly] at hfew
      exact absurd hfull (Nat.not_le.mpr (Ledger.hasFewTokens_iff.mp hfew))

/-- A database is as reliable as the ledger that it holds. -/
theorem Reliable.of_mirrors {a : Applicant} {l : Ledger} {db : Database} (h : Reliable .memory a l)
    (hm : Database.Mirrors l db) : Reliable .tables a db := by
  refine ⟨h.going, ?_, ?_, ?_⟩
  · intro b coins cursor
    obtain ⟨_, due, settled, l', rfl, hdue, hsettled, henter, rfl⟩ := h.settles b coins cursor
    obtain ⟨db', henter', hm'⟩ := (Database.agree_enter b coins cursor).exists_database hm henter
    exact ⟨_, due, settled, db', hm, by rw [← hm.alike.billsDue, hdue], hsettled, henter', hm'⟩
  · intro fees b coins cursor settled txs db₁ db₂ henter htaken hfew point sender op effect hassess
    obtain ⟨l₁, henter', hm₁⟩ := (Database.agree_enter b coins cursor).exists_ledger hm henter
    obtain ⟨l₂, htaken', hm₂⟩ := hm₁.taken htaken
    rw [← hm₂.alike.assess] at hassess
    obtain ⟨_, l₃, rfl, hperform, rfl⟩ := h.performs fees b coins cursor settled txs l₁ l₂ henter'
      htaken' (hm₂.alike.hasFewTokens.mpr hfew) point sender op effect hassess
    have hformed := Ledger.formed_of_assess hassess
    obtain ⟨db₃, hperform', hm₃⟩ := (Database.agree_perform hformed).exists_database hm₂ hperform
    exact ⟨_, db₃, hm₂, hperform', hm₃⟩
  · intro fees b coins hfew
    obtain ⟨hresult, happlicant, hstore⟩ := hm.apply fees a b coins
    have hrefuses := h.refuses fees b coins (hstore.alike.hasFewTokens.mpr hfew)
    rwa [hresult, happlicant] at hrefuses

/-- While there are fewer tokens than the largest number, a store is reliable, whatever blocks have
been applied to it since it was new. -/
theorem refused_only_for_order {k : Backend} {a : Applicant} {s : k.Store}
    (h : Reached k.opened a s) (hfew : HasFewTokens s) : Reliable k a s := by
  cases k with
  | memory => exact reliable_ledger h hfew
  | tables =>
    obtain ⟨l, hl, hm⟩ := Database.exists_mirrors_of_reached h
    exact (reliable_ledger hl (hm.alike.hasFewTokens.mpr hfew)).of_mirrors hm

theorem refused_only_for_order_after_issue :
    HasFewTokens (apply (.flat 0) fresh issue ∅ (∅ : Ledger)).store ∧
      Reliable .memory (apply (.flat 0) fresh issue ∅ (∅ : Ledger)).applicant
        (apply (.flat 0) fresh issue ∅ (∅ : Ledger)).store :=
  have hfew : HasFewTokens (apply (.flat 0) fresh issue ∅ (∅ : Ledger)).store :=
    Ledger.hasFewTokens_iff.mpr (by decide +kernel)
  ⟨hfew, refused_only_for_order (k := .memory) (.block (.flat 0) issue ∅ .start) hfew⟩

end CivicLedger.Chain
