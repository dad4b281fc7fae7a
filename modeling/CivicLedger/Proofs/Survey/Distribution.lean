import Mathlib.Data.Finset.Max
import CivicLedger.Number.WordLemmas
import CivicLedger.Proofs.Ordered.Entries
import CivicLedger.Survey.CoinHoldings

/-!
# How coins are distributed

A distribution is taken by one pass over the balances, each of which is put into the last bucket
that it reaches. What comes of it is said here of the addresses: every one that reaches the least
threshold is counted once, under the largest threshold that it reaches, and the coins of a bucket
are the exact sum of the balances counted in it, cut off at the largest word.
-/

namespace CivicLedger

/-- A balance is counted under the largest of the thresholds that it reaches. -/
def Covers (thresholds : List UInt64) (balance threshold : UInt64) : Prop :=
  threshold ∈ thresholds ∧ threshold ≤ balance ∧ ∀ t ∈ thresholds, t ≤ balance → t ≤ threshold

instance (thresholds : List UInt64) (balance threshold : UInt64) :
    Decidable (Covers thresholds balance threshold) :=
  inferInstanceAs (Decidable (_ ∧ _ ∧ _))

namespace Covers

variable {thresholds others : List UInt64} {balance t u : UInt64}

/-- A balance is counted under one threshold only. -/
theorem unique (h : Covers thresholds balance t) (h' : Covers thresholds balance u) : t = u :=
  UInt64.le_antisymm (h'.2.2 t h.1 h.2.1) (h.2.2 u h'.1 h'.2.1)

theorem congr (h : ∀ t, t ∈ others ↔ t ∈ thresholds) :
    Covers others balance t ↔ Covers thresholds balance t := by
  simp only [Covers, h]

/-- A balance that reaches any threshold is counted under one. -/
theorem exists_of_reached (h : ∃ t ∈ thresholds, t ≤ balance) :
    ∃ t, Covers thresholds balance t := by
  rcases h with ⟨t, ht, hle⟩
  have hsome : (thresholds.filter (· ≤ balance)).toFinset.Nonempty := by
    refine ⟨t, List.mem_toFinset.mpr (List.mem_filter.mpr ⟨ht, ?_⟩)⟩
    exact decide_eq_true hle
  rcases Finset.exists_max_image _ UInt64.toNat hsome with ⟨u, hu, hlargest⟩
  simp only [List.mem_toFinset, List.mem_filter, decide_eq_true_eq] at hu hlargest
  refine ⟨u, hu.1, hu.2, ?_⟩
  intro s hs hsle
  exact UInt64.le_iff_toNat_le.mpr (hlargest s ⟨hs, hsle⟩)

theorem not_of_lt (h : balance < t) : ¬ Covers thresholds balance t :=
  fun hcovers => UInt64.not_le.mpr h hcovers.2.1

/-- The first of ascending thresholds is covered where no later one is reached. -/
theorem first_iff (h : ∀ u ∈ others, t < u) (ht : t ≤ balance) :
    Covers (t :: others) balance t ↔ ∀ u ∈ others, balance < u := by
  constructor
  · intro hcovers u hu
    refine UInt64.not_le.mp fun hle => ?_
    exact UInt64.not_le.mpr (h u hu) (hcovers.2.2 u (List.mem_cons_of_mem t hu) hle)
  · intro hnone
    refine ⟨List.mem_cons_self, ht, ?_⟩
    intro u hu hle
    rcases List.mem_cons.mp hu with rfl | hu
    · exact UInt64.le_refl _
    · exact absurd hle (UInt64.not_le.mpr (hnone u hu))

/-- A later one is covered as it is without the first. -/
theorem later_iff (h : t < u) : Covers (t :: others) balance u ↔ Covers others balance u := by
  have hne : u ≠ t := (UInt64.ne_of_lt h).symm
  have hle : t ≤ u := UInt64.le_of_lt h
  simp [Covers, hne, hle]

end Covers

def Bucket.count (b : Bucket) (balance : UInt64) : Bucket :=
  ⟨b.threshold, b.addresses + 1, Word.satAdd b.coins balance⟩

def Bucket.afterPlacing (thresholds : List UInt64) (balance : UInt64) (b : Bucket) : Bucket :=
  if Covers thresholds balance b.threshold then b.count balance else b

namespace Bucket

variable {thresholds : List UInt64} {balance : UInt64} {b : Bucket} {bs : List Bucket}

theorem threshold_afterPlacing : (b.afterPlacing thresholds balance).threshold = b.threshold := by
  rw [afterPlacing]
  split <;> rfl

theorem map_afterPlacing_of_not_covers
    (h : ∀ c ∈ bs, ¬ Covers thresholds balance c.threshold) :
    bs.map (afterPlacing thresholds balance) = bs := by
  have hid : ∀ c ∈ bs, afterPlacing thresholds balance c = id c :=
    fun c hc => if_neg (h c hc)
  exact (List.map_congr_left hid).trans (List.map_id bs)

end Bucket

def Ascending (buckets : List Bucket) : Prop :=
  buckets.Pairwise fun a b => a.threshold < b.threshold

namespace Survey

variable {buckets rest : List Bucket} {b : Bucket} {balance : UInt64}

theorem place_of_unreached (h : balance < b.threshold) : place (b :: rest) balance = b :: rest := by
  have hnone : reached (b :: rest) balance = 0 := by
    simp [reached, UInt64.not_le.mpr h]
  rw [place, hnone]

theorem place_of_reached (h : b.threshold ≤ balance) :
    place (b :: rest) balance =
      if reached rest balance = 0 then b.count balance :: rest else b :: place rest balance := by
  have hone : reached (b :: rest) balance = reached rest balance + 1 := by
    simp [reached, h]
  rw [place, hone, place]
  cases reached rest balance with
  | zero => rfl
  | succ i => rfl

theorem reached_eq_zero_iff (h : Ascending buckets) :
    reached buckets balance = 0 ↔ ∀ t ∈ buckets.map Bucket.threshold, balance < t := by
  cases buckets with
  | nil => simp [reached]
  | cons b rest =>
    have hafter := (List.pairwise_cons.mp h).1
    have hfirst : reached (b :: rest) balance = 0 ↔ balance < b.threshold := by
      simp [reached, List.takeWhile_cons]
    rw [hfirst, List.map_cons, List.forall_mem_cons, List.forall_mem_map]
    constructor
    · intro hlt
      exact ⟨hlt, fun c hc => UInt64.lt_trans hlt (hafter c hc)⟩
    · exact And.left

/-- A balance changes the bucket of the largest threshold that it reaches, and no other. -/
theorem place_eq_map (h : Ascending buckets) (balance : UInt64) :
    place buckets balance =
      buckets.map (Bucket.afterPlacing (buckets.map Bucket.threshold) balance) := by
  induction buckets with
  | nil => rfl
  | cons b rest ih =>
    rcases List.pairwise_cons.mp h with ⟨hafter, hrest⟩
    have hafter' : ∀ t ∈ rest.map Bucket.threshold, b.threshold < t :=
      List.forall_mem_map.mpr hafter
    by_cases hb : b.threshold ≤ balance
    · rw [place_of_reached hb, List.map_cons, List.map_cons]
      have hfirst := (Covers.first_iff hafter' hb).trans (reached_eq_zero_iff hrest).symm
      by_cases hnone : reached rest balance = 0
      · have hall := (reached_eq_zero_iff hrest).mp hnone
        have hothers : rest.map
            (Bucket.afterPlacing (b.threshold :: rest.map Bucket.threshold) balance) = rest :=
          Bucket.map_afterPlacing_of_not_covers fun c hc =>
            Covers.not_of_lt (hall c.threshold (List.mem_map_of_mem hc))
        rw [if_pos hnone, hothers, Bucket.afterPlacing, if_pos (hfirst.mpr hnone)]
      · rw [if_neg hnone, ih hrest, Bucket.afterPlacing, if_neg (hnone ∘ hfirst.mp)]
        congr 1
        refine List.map_congr_left fun c hc => ?_
        simp only [Bucket.afterPlacing, Covers.later_iff (hafter c hc)]
    · have hlt := UInt64.not_le.mp hb
      rw [place_of_unreached hlt]
      refine (Bucket.map_afterPlacing_of_not_covers fun c hc => Covers.not_of_lt ?_).symm
      rcases List.mem_cons.mp hc with rfl | hc
      · exact hlt
      · exact UInt64.lt_trans hlt (hafter c hc)

theorem foldl_count (b : Bucket) (balances : List UInt64) :
    balances.foldl Bucket.count b =
      ⟨b.threshold, b.addresses + balances.length, balances.foldl Word.satAdd b.coins⟩ := by
  induction balances generalizing b with
  | nil => rfl
  | cons x rest ih =>
    rw [List.foldl_cons, ih, List.length_cons, Nat.add_comm rest.length, ← Nat.add_assoc]
    rfl

/-- Each bucket counts the balances that it covers. -/
theorem foldl_place (h : Ascending buckets) (balances : List UInt64) :
    balances.foldl place buckets = buckets.map fun b =>
      (balances.filter (Covers (buckets.map Bucket.threshold) · b.threshold)).foldl
        Bucket.count b := by
  induction balances generalizing buckets with
  | nil => simp
  | cons x rest ih =>
    have hplace := place_eq_map h x
    have hsame : (place buckets x).map Bucket.threshold = buckets.map Bucket.threshold := by
      rw [hplace, List.map_map]
      exact List.map_congr_left fun b _ => Bucket.threshold_afterPlacing
    have hascending : Ascending (place buckets x) := by
      have hthresholds : ((place buckets x).map Bucket.threshold).Pairwise (· < ·) := by
        rw [hsame]
        exact List.pairwise_map.mpr h
      exact List.pairwise_map.mp hthresholds
    rw [List.foldl_cons, ih hascending, hsame, hplace, List.map_map]
    refine List.map_congr_left fun b _ => ?_
    rw [Function.comp_apply, Bucket.threshold_afterPlacing]
    by_cases hcovers : Covers (buckets.map Bucket.threshold) x b.threshold
    · simp only [Bucket.afterPlacing, List.filter_cons, hcovers, decide_true, if_true,
        List.foldl_cons]
    · simp [Bucket.afterPlacing, hcovers]

/-- Buckets opened for the distinct thresholds of a list are in order. -/
theorem ascending_ofKeys (thresholds : List UInt64) {f : UInt64 → Bucket}
    (hf : ∀ t, (f t).threshold = t) : Ascending ((SortedSet.ofKeys thresholds).keys.map f) := by
  refine List.pairwise_map.mpr ((SortedSet.ofKeys thresholds).keys_ascending.imp ?_)
  intro t u hbefore
  rw [hf, hf]
  exact of_decide_eq_true hbefore

def bucketOf (thresholds balances : List UInt64) (t : UInt64) : Bucket :=
  ⟨t, (balances.filter (Covers thresholds · t)).length,
    Word.satSum (balances.filter (Covers thresholds · t))⟩

variable {σ : Type} (v : Survey σ) {thresholds others : List UInt64}

/-- The buckets are those of the thresholds in ascending order. -/
theorem coinDistribution_eq (hsome : thresholds ≠ []) (hpositive : 0 ∉ thresholds) :
    v.coinDistribution thresholds =
      .ok ((SortedSet.ofKeys thresholds).keys.map (bucketOf thresholds v.coins.values)) := by
  have hascending := ascending_ofKeys thresholds (f := fun t => ⟨t, 0, 0⟩) fun _ => rfl
  have hthresholds : ((SortedSet.ofKeys thresholds).keys.map fun t => (⟨t, 0, 0⟩ : Bucket)).map
      Bucket.threshold = (SortedSet.ofKeys thresholds).keys := by
    rw [List.map_map]
    exact List.map_id _
  rw [coinDistribution, if_neg hsome, if_neg hpositive]
  refine congrArg Except.ok ?_
  rw [foldl_place hascending, hthresholds, List.map_map]
  refine List.map_congr_left fun t _ => ?_
  have hcovers (x : UInt64) : Covers (SortedSet.ofKeys thresholds).keys x t ↔
      Covers thresholds x t := Covers.congr fun _ => SortedSet.mem_keys_ofKeys
  simp only [Function.comp_apply, hcovers, foldl_count, Nat.zero_add]
  rfl

def holdersUnder (v : Survey σ) (thresholds : List UInt64) (t : UInt64) : List KeyId :=
  v.coins.keys.filter fun a => Covers thresholds (v.coinBalance a) t

theorem balances_eq_values : v.coins.keys.map v.coinBalance = v.coins.values := by
  rw [SortedMap.keys, List.map_map]
  refine List.map_congr_left fun e he => ?_
  rw [Function.comp_apply, coinBalance, Coins.balance, SortedMap.get?_of_mem he]
  rfl

/-- No address without coins is counted, as no threshold is zero. -/
theorem mem_holdersUnder (hpositive : 0 ∉ thresholds) {t : UInt64} {a : KeyId} :
    a ∈ v.holdersUnder thresholds t ↔ Covers thresholds (v.coinBalance a) t := by
  rw [holdersUnder, List.mem_filter, decide_eq_true_iff]
  constructor
  · exact And.right
  · intro hcovers
    refine ⟨?_, hcovers⟩
    rw [SortedMap.mem_keys]
    by_cases hkey : v.coins.contains a = true
    · exact hkey
    · have hzero : v.coinBalance a = 0 := by
        rw [coinBalance, Coins.balance, SortedMap.get?_of_not_contains hkey]
        rfl
      have hle := hcovers.2.1
      rw [hzero, UInt64.le_zero_iff] at hle
      exact absurd (hle ▸ hcovers.1) hpositive

theorem map_holdersUnder (t : UInt64) :
    (v.holdersUnder thresholds t).map v.coinBalance =
      v.coins.values.filter (Covers thresholds · t) := by
  rw [← balances_eq_values, List.filter_map]
  rfl

/-- The addresses that a bucket counts: each of them once, and their coins together. -/
def CountedIn (v : Survey σ) (thresholds : List UInt64) (b : Bucket) (holders : List KeyId) :
    Prop :=
  holders.Nodup ∧ (∀ a, a ∈ holders ↔ Covers thresholds (v.coinBalance a) b.threshold) ∧
    b.addresses = holders.length ∧
    b.coins.toNat = min (2 ^ 64 - 1) (holders.map fun a => (v.coinBalance a).toNat).sum

theorem bucketOf_countedIn (hpositive : 0 ∉ thresholds) (t : UInt64) :
    v.CountedIn thresholds (bucketOf thresholds v.coins.values t) (v.holdersUnder thresholds t) := by
  refine ⟨v.coins.keys_nodup.filter _, fun a => v.mem_holdersUnder hpositive, ?_, ?_⟩
  · rw [bucketOf, ← map_holdersUnder, List.length_map]
  · rw [bucketOf, ← map_holdersUnder, Word.toNat_satSum, List.map_map, Nat.min_comm]
    rfl

structure Distributes (v : Survey σ) (thresholds : List UInt64) (buckets : List Bucket) : Prop where
  ascending : Ascending buckets
  /-- There is a bucket for each threshold. -/
  opened : ∀ t, t ∈ buckets.map Bucket.threshold ↔ t ∈ thresholds
  /-- An address that reaches a threshold is in one bucket. -/
  reaching : ∀ a, (∃ t ∈ thresholds, t ≤ v.coinBalance a) →
    ∃! b, b ∈ buckets ∧ Covers thresholds (v.coinBalance a) b.threshold
  /-- Any other address is in none. -/
  below : ∀ a, (∀ t ∈ thresholds, v.coinBalance a < t) →
    ∀ b ∈ buckets, ¬ Covers thresholds (v.coinBalance a) b.threshold
  counted : ∀ b ∈ buckets, ∃ holders, v.CountedIn thresholds b holders

theorem distributes_bucketOf (hpositive : 0 ∉ thresholds) :
    v.Distributes thresholds
      ((SortedSet.ofKeys thresholds).keys.map (bucketOf thresholds v.coins.values)) := by
  have hmem {b : Bucket} :
      b ∈ (SortedSet.ofKeys thresholds).keys.map (bucketOf thresholds v.coins.values) ↔
        ∃ t ∈ thresholds, bucketOf thresholds v.coins.values t = b := by
    simp only [List.mem_map, SortedSet.mem_keys_ofKeys]
  constructor
  case ascending => exact ascending_ofKeys thresholds fun _ => rfl
  case opened =>
    intro t
    have hthresholds : Bucket.threshold ∘ bucketOf thresholds v.coins.values = id := rfl
    rw [List.map_map, hthresholds, List.map_id, SortedSet.mem_keys_ofKeys]
  case reaching =>
    intro a hreached
    rcases Covers.exists_of_reached hreached with ⟨t, ht⟩
    refine ⟨bucketOf thresholds v.coins.values t, ⟨hmem.mpr ⟨t, ht.1, rfl⟩, ht⟩, ?_⟩
    rintro b ⟨hb, hcovers⟩
    rcases hmem.mp hb with ⟨u, -, rfl⟩
    exact congrArg _ (hcovers.unique ht)
  case below =>
    intro a hlt b _ hcovers
    exact Covers.not_of_lt (hlt b.threshold hcovers.1) hcovers
  case counted =>
    intro b hb
    rcases hmem.mp hb with ⟨t, -, rfl⟩
    exact ⟨_, v.bucketOf_countedIn hpositive t⟩

theorem bucketOf_congr (h : ∀ t, t ∈ others ↔ t ∈ thresholds) (balances : List UInt64) :
    bucketOf others balances = bucketOf thresholds balances := by
  funext t
  simp only [bucketOf, Covers.congr h]

/-- Whatever the order and the repetitions of the thresholds, the distribution has one bucket for
each of them, in ascending order; every address that reaches one of them is counted in the bucket
of the largest that it reaches, and no other address is; the coins of a bucket are the balances
that are counted in it. -/
theorem coinDistribution_distributes (hsome : thresholds ≠ []) (hpositive : 0 ∉ thresholds) :
    ∃ buckets, v.coinDistribution thresholds = .ok buckets ∧ v.Distributes thresholds buckets ∧
      ∀ others, (∀ t, t ∈ others ↔ t ∈ thresholds) → v.coinDistribution others = .ok buckets := by
  refine ⟨_, v.coinDistribution_eq hsome hpositive, v.distributes_bucketOf hpositive, ?_⟩
  intro others hsame
  have hothers : others ≠ [] := by
    rintro rfl
    rcases List.exists_mem_of_ne_nil _ hsome with ⟨t, ht⟩
    exact absurd ((hsame t).mpr ht) List.not_mem_nil
  have hpositive' : 0 ∉ others := fun hzero => hpositive ((hsame 0).mp hzero)
  rw [v.coinDistribution_eq hothers hpositive', SortedSet.ofKeys_congr hsame, bucketOf_congr hsame]

/-- Two addresses are on a threshold, one is below both, and the last bucket is full. -/
theorem coinDistribution_distributes_full :
    let full : UInt64 := 18446744073709551615
    let coins := Coins.ofList [(⟨.fill 20 1⟩, 5), (⟨.fill 20 2⟩, 100), (⟨.fill 20 3⟩, 999),
      (⟨.fill 20 4⟩, 1000), (⟨.fill 20 5⟩, full)]
    let v : Survey Unit := ⟨(), coins, ⟨1, 0⟩⟩
    ([1000, 100, 1000] : List UInt64) ≠ [] ∧ (0 : UInt64) ∉ ([1000, 100, 1000] : List UInt64) ∧
      v.coinDistribution [1000, 100, 1000] = .ok [⟨100, 2, 1099⟩, ⟨1000, 2, full⟩] ∧
      ∃ buckets, v.coinDistribution [1000, 100, 1000] = .ok buckets ∧
        v.Distributes [1000, 100, 1000] buckets ∧
        ∀ others, (∀ t, t ∈ others ↔ t ∈ [1000, 100, 1000]) →
          v.coinDistribution others = .ok buckets :=
  ⟨by decide, by decide, by decide +kernel,
    coinDistribution_distributes _ (by decide) (by decide)⟩

end Survey

end CivicLedger
