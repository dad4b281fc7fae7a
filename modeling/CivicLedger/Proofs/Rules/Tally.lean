import CivicLedger.Number.WordLemmas
import CivicLedger.Rules.Tally

/-!
# What a count says

A count adds word by word and stops at the largest word each time, first within every option and
then over the options. The result is what exact sums give: the weight of an option, or of all the
options there are, cut off once at the largest word. So a count knows nothing of the order of the
votes, nor of those that weigh nothing or name no option. The running maximum stands for the first
of the options with the most weight.
-/

namespace CivicLedger

namespace Tally

variable {count : Nat} {votes votes' : List (UInt8 × UInt64)}

/-- The largest word, where sums stop. -/
def cap : Nat := UInt64.size - 1

def weightOn (votes : List (UInt8 × UInt64)) (i : Nat) : Nat :=
  ((votes.filter (·.1.toNat = i)).map (·.2.toNat)).sum

def weightBelow (count : Nat) (votes : List (UInt8 × UInt64)) : Nat :=
  ((votes.filter (·.1.toNat < count)).map (·.2.toNat)).sum

theorem weightOn_cons (v : UInt8 × UInt64) (votes : List (UInt8 × UInt64)) (i : Nat) :
    weightOn (v :: votes) i = (if v.1.toNat = i then v.2.toNat else 0) + weightOn votes i := by
  unfold weightOn
  rw [List.filter_cons]
  by_cases h : v.1.toNat = i <;> simp [h]

theorem weightBelow_succ (votes : List (UInt8 × UInt64)) (count : Nat) :
    weightBelow (count + 1) votes = weightBelow count votes + weightOn votes count := by
  induction votes with
  | nil => rfl
  | cons v rest ih =>
    simp only [weightBelow, weightOn, List.filter_cons, decide_eq_true_eq] at ih ⊢
    split <;> split <;> split <;> simp only [List.map_cons, List.sum_cons, ih] <;> omega

theorem sum_weightOn (votes : List (UInt8 × UInt64)) (count : Nat) :
    ((List.range count).map (weightOn votes)).sum = weightBelow count votes := by
  induction count with
  | zero =>
    have hnone : votes.filter (·.1.toNat < 0) = [] := List.filter_eq_nil_iff.mpr (by simp)
    rw [weightBelow, hnone]
    rfl
  | succ n ih =>
    rw [List.range_succ, List.map_append, List.sum_append_nat, ih, weightBelow_succ]
    simp

/-- One vote raises the total of its option and no other. -/
theorem getElem?_add (totals : List UInt64) (v : UInt8 × UInt64) (i : Nat) :
    (add totals v)[i]? =
      totals[i]?.map fun t => if v.1.toNat = i then Word.satAdd t v.2 else t := by
  rw [add, List.getElem?_modify]
  by_cases h : v.1.toNat = i <;> cases totals[i]? <;> simp [h]

theorem getElem?_foldl_add (votes : List (UInt8 × UInt64)) (totals : List UInt64) (i : Nat) :
    (votes.foldl add totals)[i]?.map UInt64.toNat =
      totals[i]?.map fun t => min (t.toNat + weightOn votes i) cap := by
  induction votes generalizing totals with
  | nil =>
    cases h : totals[i]? with
    | none => simp [h]
    | some t =>
      have : t.toNat ≤ cap := Nat.le_pred_of_lt t.toNat_lt_size
      simp [h, weightOn, Nat.min_eq_left this]
  | cons v rest ih =>
    rw [List.foldl_cons, ih, getElem?_add, weightOn_cons, Option.map_map]
    congr 1
    funext t
    -- Stopping at the cap once more changes nothing: the weights still to come only add to it.
    by_cases h : v.1.toNat = i
    · simp only [Function.comp_apply, h, if_true, Word.toNat_satAdd, cap]
      omega
    · simp only [Function.comp_apply, h, if_false, Nat.zero_add]

/-- The total of every option is its exact weight, cut off at the largest word. -/
theorem toNat_totals (count : Nat) (votes : List (UInt8 × UInt64)) :
    (ofVotes count votes).totals.map UInt64.toNat =
      (List.range count).map fun i => min (weightOn votes i) cap := by
  apply List.ext_getElem?
  intro i
  rw [List.getElem?_map, ofVotes, ofTotals, getElem?_foldl_add, List.getElem?_map,
    List.getElem?_replicate]
  by_cases h : i < count
  · simp [h]
  · simp [h]

/-- A bill has as many totals as options. -/
theorem length_totals (count : Nat) (votes : List (UInt8 × UInt64)) :
    (ofVotes count votes).totals.length = count := by
  simpa using congrArg List.length (toNat_totals count votes)

/-- Cutting off each summand and then the sum is cutting off the sum. -/
theorem min_sum_min (l : List Nat) (n : Nat) :
    min (l.map (min · n)).sum n = min l.sum n := by
  induction l with
  | nil => rfl
  | cons a rest ih =>
    simp only [List.map_cons, List.sum_cons]
    omega

theorem toNat_total (count : Nat) (votes : List (UInt8 × UInt64)) :
    (ofVotes count votes).total.toNat = min (weightBelow count votes) cap := by
  have htotal : (ofVotes count votes).total = Word.satSum (ofVotes count votes).totals := rfl
  have hcut := min_sum_min ((List.range count).map (weightOn votes)) cap
  rw [List.map_map, sum_weightOn] at hcut
  rw [htotal, Word.toNat_satSum, toNat_totals]
  exact hcut

/-- A count depends on nothing but the weights of the options there are. -/
theorem ofVotes_congr (h : ∀ i < count, weightOn votes i = weightOn votes' i) :
    ofVotes count votes = ofVotes count votes' := by
  have htotals : (ofVotes count votes).totals = (ofVotes count votes').totals := by
    refine List.map_inj_right (fun _ _ => UInt64.toNat_inj.mp) |>.mp ?_
    rw [toNat_totals, toNat_totals]
    refine List.map_congr_left fun i hi => ?_
    rw [h i (List.mem_range.mp hi)]
  exact congrArg ofTotals htotals

/-- Who leads on some totals, and with how much: the first of the options with the most weight, or
nobody where there is none. -/
inductive Leads (totals : List UInt64) : UInt64 → Option UInt8 → Prop where
  | nobody : (∀ t ∈ totals, t = 0) → Leads totals 0 none
  | first (o : UInt8) (w : UInt64) : totals[o.toNat]? = some w → 0 < w →
      (∀ t ∈ totals, t ≤ w) → (∀ t ∈ totals.take o.toNat, t < w) → Leads totals w (some o)

/-- Nobody has more than who leads. -/
theorem Leads.le {totals : List UInt64} {best : UInt64} {winner : Option UInt8}
    (h : Leads totals best winner) : ∀ t ∈ totals, t ≤ best := by
  cases h with
  | nobody hzero => exact fun t ht => UInt64.le_of_eq (hzero t ht)
  | first o w _ _ hle _ => exact hle

/-- One more total: its option leads where it has more than who led so far. -/
theorem Leads.step {done : List UInt64} {best : UInt64} {winner : Option UInt8}
    (h : Leads done best winner) (t : UInt64) (hlength : done.length < 256) :
    if best < t then Leads (done ++ [t]) t (optionAt done.length)
    else Leads (done ++ [t]) best winner := by
  split
  · next hlt =>
    have hindex : (UInt8.ofNat done.length).toNat = done.length := by
      rw [UInt8.toNat_ofNat']
      exact Nat.mod_eq_of_lt hlength
    have hless : ∀ u ∈ done, u < t := fun u hu =>
      UInt64.lt_of_le_of_lt (h.le u hu) hlt
    rw [optionAt, if_pos hlength]
    refine .first _ t ?_ ?_ ?_ ?_
    · rw [hindex, List.getElem?_concat_length]
    · exact UInt64.lt_of_le_of_lt (UInt64.zero_le) hlt
    · intro u hu
      obtain hu | hu := List.mem_append.mp hu
      · exact UInt64.le_of_lt (hless u hu)
      · exact UInt64.le_of_eq (List.mem_singleton.mp hu)
    · rw [hindex, List.take_left]
      exact hless
  · next hlt =>
    have ht : t ≤ best := UInt64.not_lt.mp hlt
    cases h with
    | nobody hzero =>
      refine .nobody fun u hu => ?_
      obtain hu | hu := List.mem_append.mp hu
      · exact hzero u hu
      · rw [List.mem_singleton.mp hu]
        exact UInt64.le_antisymm ht UInt64.zero_le
    | first o w hget hpos hle hbefore =>
      have ho : o.toNat < done.length := (List.getElem?_eq_some_iff.mp hget).1
      refine .first o best ?_ hpos ?_ ?_
      · rw [List.getElem?_append_left ho, hget]
      · intro u hu
        obtain hu | hu := List.mem_append.mp hu
        · exact hle u hu
        · rw [List.mem_singleton.mp hu]
          exact ht
      · rw [List.take_append_of_le_length (Nat.le_of_lt ho)]
        exact hbefore

/-- Going on from who leads on the totals `done` ends with who leads on all of them. -/
theorem Leads.run (rest : List UInt64) {done : List UInt64} {best : UInt64}
    {winner : Option UInt8} (h : Leads done best winner)
    (hlength : (done ++ rest).length ≤ 256) :
    ∃ most, Leads (done ++ rest) most (leader rest done.length best winner) := by
  induction rest generalizing done best winner with
  | nil => exact ⟨best, by rwa [List.append_nil, leader]⟩
  | cons t rest ih =>
    have hstep := h.step t (by simp at hlength; omega)
    rw [← List.singleton_append, ← List.append_assoc] at hlength ⊢
    have hnext : (done ++ [t]).length = done.length + 1 := List.length_append
    rw [List.singleton_append, leader, ← hnext]
    split at hstep
    · next hlt =>
      rw [if_pos hlt]
      exact ih hstep hlength
    · next hlt =>
      rw [if_neg hlt]
      exact ih hstep hlength

theorem leads_ofVotes (h : count ≤ 256) (votes : List (UInt8 × UInt64)) :
    ∃ most, Leads (ofVotes count votes).totals most (ofVotes count votes).winner := by
  have hlength : ([] ++ (ofVotes count votes).totals).length ≤ 256 := by
    rwa [List.nil_append, length_totals]
  exact Leads.run _ (.nobody (by simp)) hlength

/-- Some weight was cast exactly where somebody leads. -/
theorem Leads.pos_iff {totals : List UInt64} {most : UInt64} {winner : Option UInt8}
    (h : Leads totals most winner) : 0 < Word.satSum totals ↔ winner.isSome := by
  have hsum : 0 < Word.satSum totals ↔ 0 < (totals.map UInt64.toNat).sum := by
    rw [UInt64.lt_iff_toNat_lt, Word.toNat_satSum, UInt64.toNat_zero]
    have : 0 < UInt64.size - 1 := by decide
    omega
  rw [hsum, List.sum_pos_iff_exists_pos_nat]
  cases h with
  | nobody hzero =>
    simp only [Option.isSome_none, Bool.false_eq_true, iff_false]
    rintro ⟨n, hn, hpos⟩
    obtain ⟨t, ht, rfl⟩ := List.mem_map.mp hn
    rw [hzero t ht] at hpos
    exact Nat.lt_irrefl 0 hpos
  | first o w hget hpos _ _ =>
    simp only [Option.isSome_some, iff_true]
    exact ⟨most.toNat, List.mem_map_of_mem (List.mem_of_getElem? hget),
      UInt64.lt_iff_toNat_lt.mp hpos⟩

structure Counts (count : Nat) (votes : List (UInt8 × UInt64)) (t : Tally) : Prop where
  totals : t.totals.map UInt64.toNat =
    (List.range count).map fun i => min (weightOn votes i) cap
  total : t.total.toNat = min (weightBelow count votes) cap
  winner : ∃ most, Leads t.totals most t.winner
  passed : t.passed = t.winner.isSome

theorem counts_ofVotes (h : count ≤ 256) (votes : List (UInt8 × UInt64)) :
    Counts count votes (ofVotes count votes) := by
  obtain ⟨most, hleads⟩ := leads_ofVotes h votes
  refine ⟨toNat_totals count votes, toNat_total count votes, ⟨most, hleads⟩, ?_⟩
  rw [Bool.eq_iff_iff, ← hleads.pos_iff]
  exact decide_eq_true_iff

theorem weightOn_perm (h : votes.Perm votes') (i : Nat) :
    weightOn votes i = weightOn votes' i :=
  ((h.filter _).map _).sum_nat

/-- Votes that weigh nothing, or that are for none of the options, may be left out. -/
theorem weightOn_filter {p : UInt8 × UInt64 → Bool}
    (h : ∀ v ∈ votes, p v = false → count ≤ v.1.toNat ∨ v.2 = 0) {i : Nat} (hi : i < count) :
    weightOn (votes.filter p) i = weightOn votes i := by
  induction votes with
  | nil => rfl
  | cons v rest ih =>
    have hrest := ih fun v hv => h v (List.mem_cons_of_mem _ hv)
    rw [List.filter_cons, weightOn_cons]
    cases hp : p v with
    | true => rw [if_pos rfl, weightOn_cons, hrest]
    | false =>
      rw [if_neg Bool.false_ne_true, hrest]
      obtain hout | hzero := h v List.mem_cons_self hp
      · rw [if_neg (by omega), Nat.zero_add]
      · rw [hzero, UInt64.toNat_zero, ite_self, Nat.zero_add]

/-- A count comes to the exact sums, cut off at the largest word, and to the first of the options
with the most weight. Neither the order of the votes nor those for no option or without weight
make a difference. -/
theorem exact_count (h : count ≤ 256) (votes : List (UInt8 × UInt64)) :
    Counts count votes (ofVotes count votes) ∧
    (∀ votes', votes.Perm votes' → ofVotes count votes' = ofVotes count votes) ∧
    (∀ p : UInt8 × UInt64 → Bool,
      (∀ v ∈ votes, p v = false → count ≤ v.1.toNat ∨ v.2 = 0) →
      ofVotes count (votes.filter p) = ofVotes count votes) := by
  refine ⟨counts_ofVotes h votes, fun votes' hperm => ?_, fun p hp => ?_⟩
  · exact ofVotes_congr fun i _ => (weightOn_perm hperm i).symm
  · exact ofVotes_congr fun i hi => weightOn_filter hp hi

/-- Three options, two of them up to the largest word, and a vote for none of them: the first of
the two wins, also with the votes the other way round and without the one that does not count. -/
theorem exact_count_tied :
    let votes : List (UInt8 × UInt64) :=
      [(2, Word.max), (1, Word.max), (9, 100), (2, 5), (1, 0), (1, 7)]
    (3 ≤ 256 ∧ ofVotes 3 votes = ⟨[0, Word.max, Word.max], Word.max, some 1, true⟩) ∧
    Counts 3 votes (ofVotes 3 votes) ∧
    ofVotes 3 votes.reverse = ofVotes 3 votes ∧
    ofVotes 3 (votes.filter (·.1 < 3)) = ofVotes 3 votes := by
  intro votes
  have hfits : 3 ≤ 256 := by decide
  obtain ⟨hcounts, hperm, hdrop⟩ := exact_count hfits votes
  have hnone (v : UInt8 × UInt64) (_ : v ∈ votes) (h : decide (v.1 < 3) = false) :
      3 ≤ v.1.toNat ∨ v.2 = 0 :=
    .inl (UInt8.le_iff_toNat_le.mp (UInt8.not_lt.mp (of_decide_eq_false h)))
  exact ⟨⟨hfits, by decide⟩, hcounts, hperm _ votes.reverse_perm.symm, hdrop _ hnone⟩

end Tally

end CivicLedger
