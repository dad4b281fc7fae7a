import Mathlib.Data.List.Sort
import CivicLedger.Number.WordLemmas
import CivicLedger.Proofs.Database.Indexes
import CivicLedger.Survey.CoinHoldings
import CivicLedger.Survey.Delegates

/-!
# Rankings

Entries with different addresses have one order by weight and then by address, and a ranking of `n`
is the beginning of it: whoever is left out comes after everyone listed. Delegates are ranked so by
the coins of their voters, and addresses by their own.
-/

namespace CivicLedger

open KeyOrder

namespace Ranking

section

variable {α : Type} (weight : α → UInt64) (address : α → KeyId)

/-- An entry is heavier than another, or as heavy and its address comes first. -/
def Outranks (a b : α) : Prop :=
  weight b < weight a ∨ weight a = weight b ∧ before (address a) (address b) = true

instance : Std.Asymm (Outranks weight address) where
  asymm := by
    rintro a b (hab | ⟨hab, habefore⟩) (hba | ⟨hba, hbbefore⟩)
    · exact UInt64.lt_asymm hab hba
    · exact UInt64.ne_of_lt hab hba
    · exact UInt64.ne_of_lt hba hab
    · rw [asymm habefore] at hbbefore
      cases hbbefore

structure IsRanking (eligible : α → Prop) (order : List α) : Prop where
  complete : ∀ a, a ∈ order ↔ eligible a
  ranked : order.Pairwise (Outranks weight address)

structure Ranks (eligible : α → Prop) (answer : Nat → List α) : Prop where
  order : ∃ order, IsRanking weight address eligible order ∧
    (∀ other, IsRanking weight address eligible other → other = order) ∧
    ∀ n, answer n = order.take n ∧ (answer n).length = min n order.length
  /-- Whoever is left out is outranked by everyone listed. -/
  cut : ∀ n, ∀ a ∈ answer n, ∀ b, eligible b → b ∉ answer n → Outranks weight address a b
  grows : ∀ m n, m ≤ n → answer m <+: answer n

variable {weight address} {eligible : α → Prop} {order other : List α}

theorem IsRanking.unique (h : IsRanking weight address eligible order)
    (h' : IsRanking weight address eligible other) : other = order :=
  h'.ranked.eq_of_mem_iff h.ranked fun a => (h'.complete a).trans (h.complete a).symm

theorem IsRanking.cut (h : IsRanking weight address eligible order) {n : Nat} {a b : α}
    (ha : a ∈ order.take n) (hb : eligible b) (hleft : b ∉ order.take n) :
    Outranks weight address a b := by
  have hsplit := h.ranked
  rw [← List.take_append_drop n order, List.pairwise_append] at hsplit
  have hmem : b ∈ order.take n ++ order.drop n := by
    rw [List.take_append_drop]
    exact (h.complete b).mpr hb
  rcases List.mem_append.mp hmem with hlisted | hdropped
  · exact absurd hlisted hleft
  · exact hsplit.2.2 a ha b hdropped

/-- The beginnings of a ranking are the answers. -/
theorem IsRanking.ranks (h : IsRanking weight address eligible order) {answer : Nat → List α}
    (hanswer : ∀ n, answer n = order.take n) : Ranks weight address eligible answer where
  order := by
    refine ⟨order, h, fun _ h' => h.unique h', ?_⟩
    intro n
    rw [hanswer, List.length_take]
    exact ⟨rfl, rfl⟩
  cut := by
    intro n a ha b hb hleft
    rw [hanswer] at ha hleft
    exact h.cut ha hb hleft
  grows := by
    intro m n hle
    rw [hanswer, hanswer]
    exact List.take_prefix_take_left hle

end

section

variable {α : Type} {weight : α → UInt64} {address : α → KeyId} {a b c : α}

theorem precedes_iff :
    precedes weight address a b = true ↔
      Outranks weight address a b ∨ weight a = weight b ∧ address a = address b := by
  simp only [precedes, Outranks, Bool.or_eq_true, decide_eq_true_iff, Bool.and_eq_true, beq_iff_eq,
    Bool.not_eq_true']
  rw [or_assoc, ← and_or_left]
  refine or_congr_right (and_congr_right fun _ => ?_)
  constructor
  · intro hnot
    cases hbefore : before (address a) (address b) with
    | true => exact .inl rfl
    | false => exact .inr (before_connected hbefore hnot)
  · rintro (hbefore | heq)
    · exact asymm hbefore
    · rw [heq, before_irrefl]

theorem Outranks.trans (hab : Outranks weight address a b) (hbc : Outranks weight address b c) :
    Outranks weight address a c := by
  rcases hab with hab | ⟨hab, habefore⟩
  · rcases hbc with hbc | ⟨hbc, -⟩
    · exact .inl (UInt64.lt_trans hbc hab)
    · exact .inl (hbc ▸ hab)
  · rcases hbc with hbc | ⟨hbc, hbbefore⟩
    · exact .inl (hab ▸ hbc)
    · exact .inr ⟨hab.trans hbc, before_trans habefore hbbefore⟩

/-- Of two entries one outranks the other, unless weight and address are the same. -/
theorem outranks_or (weight : α → UInt64) (address : α → KeyId) (a b : α) :
    Outranks weight address a b ∨ Outranks weight address b a ∨
      weight a = weight b ∧ address a = address b := by
  by_cases hgt : weight b < weight a
  · exact .inl (.inl hgt)
  by_cases hlt : weight a < weight b
  · exact .inr (.inl (.inl hlt))
  have heq : weight a = weight b := UInt64.le_antisymm (UInt64.not_lt.mp hgt) (UInt64.not_lt.mp hlt)
  cases hab : before (address a) (address b) with
  | true => exact .inl (.inr ⟨heq, hab⟩)
  | false =>
    cases hba : before (address b) (address a) with
    | true => exact .inr (.inl (.inr ⟨heq.symm, hba⟩))
    | false => exact .inr (.inr ⟨heq, before_connected hab hba⟩)

theorem precedes_trans (hab : precedes weight address a b = true)
    (hbc : precedes weight address b c = true) : precedes weight address a c = true := by
  rw [precedes_iff] at hab hbc ⊢
  rcases hab with hab | ⟨hweight, haddress⟩
  · rcases hbc with hbc | ⟨hweight, haddress⟩
    · exact .inl (hab.trans hbc)
    · rw [Outranks, hweight, haddress] at hab
      exact .inl hab
  · rw [Outranks, ← hweight, ← haddress] at hbc
    exact hbc

theorem precedes_total : (precedes weight address a b || precedes weight address b a) = true := by
  rw [Bool.or_eq_true, precedes_iff, precedes_iff]
  rcases outranks_or weight address a b with hab | hba | ⟨hweight, haddress⟩
  · exact .inl (.inl hab)
  · exact .inr (.inl hba)
  · exact .inl (.inr ⟨hweight, haddress⟩)

/-- Entries of different addresses are ranked. -/
theorem top_ranks {l : List α} {eligible : α → Prop} (h : l.Pairwise (address · ≠ address ·))
    (hmem : ∀ a, a ∈ l ↔ eligible a) :
    Ranks weight address eligible (top weight address · l) := by
  let order := l.mergeSort (precedes weight address)
  have hdifferent : order.Pairwise (address · ≠ address ·) :=
    (List.mergeSort_perm l _).symm.pairwise h fun hab => hab.symm
  have hsorted : order.Pairwise (precedes weight address · · = true) :=
    List.pairwise_mergeSort (fun _ _ _ => precedes_trans) (fun _ _ => precedes_total) l
  have hranking : IsRanking weight address eligible order := by
    constructor
    case complete => exact fun a => List.mem_mergeSort.trans (hmem a)
    case ranked =>
      refine (hdifferent.and hsorted).imp ?_
      rintro a b ⟨hne, hprecedes⟩
      rcases precedes_iff.mp hprecedes with houtranks | ⟨-, haddress⟩
      · exact houtranks
      · exact absurd haddress hne
  exact hranking.ranks fun _ => rfl

end

end Ranking

/-- The delegates of a store and the voters of each can be read, and no address is registered
twice. -/
def Enlisted {σ : Type} [LedgerReads σ] (s : σ) : Prop :=
  ∃ ds, LedgerReads.delegates s = .ok ds ∧ ds.Pairwise (·.address ≠ ·.address) ∧
    ∀ d ∈ ds, ∃ voters, LedgerReads.delegateVoters s d.address = .ok voters

theorem Ledger.Indexed.enlisted {l : Ledger} (h : l.Indexed) : Enlisted l := by
  refine ⟨l.delegates.values, rfl, ?_, fun d _ => ⟨_, rfl⟩⟩
  refine List.pairwise_map.mpr (l.delegates.ascending.imp_of_mem ?_)
  intro a b ha hb hbefore
  rw [h.delegates _ _ (SortedMap.get?_of_mem ha), h.delegates _ _ (SortedMap.get?_of_mem hb)]
  exact ne_of_before hbefore

theorem Backend.Indexed.enlisted {k : Backend} {s : k.Store} (h : k.Indexed s) : Enlisted s := by
  cases k with
  | memory => exact Ledger.Indexed.enlisted h
  | tables =>
    rcases h.1 with ⟨l, hm, hl⟩
    rcases hl.enlisted with ⟨ds, hds, hdifferent, hvoters⟩
    refine ⟨ds, hm.alike.delegates ▸ hds, hdifferent, fun d hd => ?_⟩
    exact hm.alike.delegateVoters d.address ▸ hvoters d hd

/-- Calls may be made one after another. -/
theorem Backend.Batched.calls {k : Backend} {calls : List Call} (h : ∀ c ∈ calls, k.Takes c)
    {w : Workspace k.Store} (hw : k.Batched w) :
    k.Batched ⟨w.stored, calls.foldl (fun s c => Program.left (c.run s)) w.working⟩ := by
  induction calls generalizing w with
  | nil => exact hw
  | cons c rest ih =>
    rcases List.forall_mem_cons.mp h with ⟨hc, hrest⟩
    exact ih hrest (hw.call c hc)

namespace Survey

open Ranking

variable {σ : Type}

theorem toNat_weightOf (v : Survey σ) (voters : List KeyId) :
    (v.weightOf voters).toNat =
      min (2 ^ 64 - 1) (voters.map fun a => (v.coins.balance a).toNat).sum := by
  rw [weightOf, Word.toNat_satSum, List.map_map, Nat.min_comm]
  rfl

section

variable [LedgerReads σ] (v : Survey σ) (least : UInt64)

/-- A registered delegate whose own coins reach the least balance, with the coins of all who vote
for it as its weight. -/
def IsCandidate (r : RankedDelegate) : Prop :=
  ∃ ds voters, LedgerReads.delegates v.ledger = .ok ds ∧
    LedgerReads.delegateVoters v.ledger r.address = .ok voters ∧
    (∃ d ∈ ds, d.address = r.address ∧ d.name = r.name) ∧ least ≤ v.coins.balance r.address ∧
    r.votes.toNat = min (2 ^ 64 - 1) (voters.map fun a => (v.coins.balance a).toNat).sum

def candidate? (d : Delegate) : Option RankedDelegate :=
  match LedgerReads.delegateVoters v.ledger d.address with
  | .ok voters =>
    if least ≤ v.coins.balance d.address then some ⟨d.address, d.name, v.weightOf voters⟩ else none
  | .error _ => none

variable {v least}

theorem candidate?_eq_some_iff {d : Delegate} {r : RankedDelegate} :
    v.candidate? least d = some r ↔
      ∃ voters, LedgerReads.delegateVoters v.ledger d.address = .ok voters ∧
        least ≤ v.coins.balance d.address ∧ r = ⟨d.address, d.name, v.weightOf voters⟩ := by
  rw [candidate?]
  cases LedgerReads.delegateVoters v.ledger d.address with
  | ok voters => simp [eq_comm]
  | error fault => simp

theorem isCandidate_iff {ds : List Delegate} (hds : LedgerReads.delegates v.ledger = .ok ds)
    {r : RankedDelegate} : v.IsCandidate least r ↔ ∃ d ∈ ds, v.candidate? least d = some r := by
  simp only [candidate?_eq_some_iff]
  constructor
  · rintro ⟨ds', voters, hds', hvoters, ⟨d, hd, haddress, hname⟩, hleast, hvotes⟩
    cases hds.symm.trans hds'
    have hweight : r.votes = v.weightOf voters := by
      rw [← UInt64.toNat_inj, hvotes, toNat_weightOf]
    refine ⟨d, hd, voters, haddress ▸ hvoters, haddress ▸ hleast, ?_⟩
    rw [haddress, hname, ← hweight]
  · rintro ⟨d, hd, voters, hvoters, hleast, rfl⟩
    exact ⟨ds, voters, hds, hvoters, ⟨d, hd, rfl, rfl⟩, hleast, v.toNat_weightOf voters⟩

theorem eligibleDelegates_eq {ds : List Delegate} (hds : LedgerReads.delegates v.ledger = .ok ds)
    (hvoters : ∀ d ∈ ds, ∃ voters, LedgerReads.delegateVoters v.ledger d.address = .ok voters) :
    v.eligibleDelegates least = .ok (ds.filterMap (v.candidate? least)) := by
  have hask : v.ask LedgerReads.delegates = .ok ds := by rw [ask, hds]
  rw [eligibleDelegates, hask]
  have hentries : ds = ds.map id := (List.map_id ds).symm
  refine Database.mapM_filter hentries ?_ ?_
  · intro d hd hleast
    rcases hvoters d hd with ⟨voters, hread⟩
    refine ⟨_, candidate?_eq_some_iff.mpr ⟨voters, hread, of_decide_eq_true hleast, rfl⟩, ?_⟩
    have haskVoters : v.ask (LedgerReads.delegateVoters · d.address) = .ok voters := by
      rw [ask, hread]
    rw [id_eq, haskVoters]
    rfl
  · intro d hd hleast
    rcases hvoters d hd with ⟨voters, hread⟩
    rw [candidate?, hread]
    exact if_neg (of_decide_eq_false hleast)

theorem exists_ranks_topDelegates (h : Enlisted v.ledger) (least : UInt64) :
    ∃ answer, (∀ n, v.topDelegates n least = .ok (answer n)) ∧
      Ranks RankedDelegate.votes RankedDelegate.address (v.IsCandidate least) answer := by
  rcases h with ⟨ds, hds, hdifferent, hvoters⟩
  refine ⟨fun n => top _ _ n (ds.filterMap (v.candidate? least)), ?_, top_ranks ?_ ?_⟩
  · intro n
    rw [topDelegates, eligibleDelegates_eq hds hvoters]
    rfl
  · refine List.pairwise_filterMap.mpr (hdifferent.imp ?_)
    intro d e hne r hr q hq
    rcases candidate?_eq_some_iff.mp hr with ⟨-, -, -, rfl⟩
    rcases candidate?_eq_some_iff.mp hq with ⟨-, -, -, rfl⟩
    exact hne
  · intro r
    rw [List.mem_filterMap, isCandidate_iff hds]

end

def IsHolding (v : Survey σ) (e : KeyId × UInt64) : Prop := 0 < e.2 ∧ v.coinBalance e.1 = e.2

theorem ranks_coinRank (v : Survey σ) : Ranks Prod.snd Prod.fst v.IsHolding v.coinRank := by
  refine top_ranks ?_ ?_
  · exact (v.coins.ascending.imp ne_of_before).filter _
  · intro e
    rw [List.mem_filter, decide_eq_true_iff, IsHolding, and_comm]
    refine and_congr_right fun hpositive => ?_
    rw [coinBalance, Coins.balance, ← SortedMap.get?_eq_some_iff]
    cases v.coins.get? e.1 with
    | none => simpa using (UInt64.ne_of_lt hpositive)
    | some amount => simp

/-- A ranking of `n` is the beginning of the one order of all that are eligible, by weight and then
by address, for every store of either kind and whatever the coins. -/
theorem rankings_are_beginnings :
    (∀ (k : Backend) (w : Workspace k.Store), k.Batched w →
      Enlisted w.stored ∧ Enlisted w.working) ∧
    ∀ {σ : Type} [LedgerReads σ] (v : Survey σ),
      (Enlisted v.ledger → ∀ least, ∃ answer,
        (∀ n, v.topDelegates n least = .ok (answer n)) ∧
          Ranks RankedDelegate.votes RankedDelegate.address (v.IsCandidate least) answer) ∧
      Ranks Prod.snd Prod.fst v.IsHolding v.coinRank := by
  constructor
  · intro k w h
    have hindexed := Backend.indexed_of_batched h
    exact ⟨hindexed.1.enlisted, hindexed.2.enlisted⟩
  · intro σ _ v
    exact ⟨exists_ranks_topDelegates, v.ranks_coinRank⟩

/-- The votes for two delegates come to the largest word, and a third has too few coins. -/
theorem rankings_are_beginnings_tied :
    let full : UInt64 := 18446744073709551615
    let calls : List Call :=
      [.insertDelegate ⟨⟨.fill 20 1⟩, "ada", 1⟩, .insertDelegate ⟨⟨.fill 20 2⟩, "bo", 1⟩,
        .insertDelegate ⟨⟨.fill 20 3⟩, "cy", 1⟩, .addDelegateVote ⟨.fill 20 8⟩ ⟨.fill 20 2⟩,
        .addDelegateVote ⟨.fill 20 8⟩ ⟨.fill 20 1⟩, .addDelegateVote ⟨.fill 20 9⟩ ⟨.fill 20 1⟩]
    let s := calls.foldl (fun l c => Program.left (c.run l)) (∅ : Ledger)
    let v : Survey Ledger :=
      ⟨s, Coins.ofList [(⟨.fill 20 1⟩, 7), (⟨.fill 20 2⟩, 5), (⟨.fill 20 8⟩, full),
        (⟨.fill 20 9⟩, 7)], ⟨1, 0⟩⟩
    Backend.memory.Batched ⟨∅, s⟩ ∧
      v.eligibleDelegates 5 =
        .ok [⟨⟨.fill 20 1⟩, "ada", full⟩, ⟨⟨.fill 20 2⟩, "bo", full⟩] ∧
      (∀ least, ∃ answer, (∀ n, v.topDelegates n least = .ok (answer n)) ∧
        Ranks RankedDelegate.votes RankedDelegate.address (v.IsCandidate least) answer) ∧
      Ranks Prod.snd Prod.fst v.IsHolding v.coinRank := by
  intro full calls s v
  have hbatched : Backend.memory.Batched ⟨∅, s⟩ :=
    .calls (k := .memory) (fun _ _ => trivial) .opened
  have henlisted := (rankings_are_beginnings.1 .memory _ hbatched).2
  have hranks := rankings_are_beginnings.2 v
  exact ⟨hbatched, by decide +kernel, hranks.1 henlisted, hranks.2⟩

end Survey

end CivicLedger
