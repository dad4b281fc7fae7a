import CivicLedger.Proofs.Ordered.Entries

/-!
# Indexes beside ordered maps

Three ways in which one map follows another: by a name that each record bears alone, by a value that
many records may share, and with the two halves of its keys exchanged. Each is kept where an entry
is written to or removed from both, and each makes the two maps equal in size. A map has only one
index of a kind.
-/

namespace CivicLedger.SortedMap

open KeyOrder

variable {κ μ ν α β : Type} [KeyOrder κ] [KeyOrder μ] [KeyOrder ν]

/-- The keys of one map are those that the entries of another one stand for, each for its own. -/
theorem size_eq_of_image {m : SortedMap κ α} {n : SortedMap μ β} (g : μ × β → κ)
    (hinj : ∀ e ∈ n.entries, ∀ e' ∈ n.entries, g e = g e' → e = e')
    (hmem : ∀ k, m.contains k = true ↔ ∃ e ∈ n.entries, g e = k) : m.size = n.size := by
  have hnodup : (n.entries.map g).Nodup := by
    rw [List.nodup_iff_pairwise_ne, List.pairwise_map]
    refine n.ascending.imp_of_mem ?_
    intro e e' he he' hlt heq
    rw [hinj e he e' he' heq, before_irrefl] at hlt
    cases hlt
  have hkeys : ∀ k, k ∈ m.keys ↔ k ∈ n.entries.map g := by
    intro k
    rw [List.mem_map, ← hmem k, contains_eq_true]
    simp [keys, get?_eq_some_iff]
  have hperm := (List.perm_ext_iff_of_nodup m.keys_nodup hnodup).mpr hkeys
  simpa [keys, size] using hperm.length_eq

def Keyed (m : SortedMap κ α) (key : α → κ) : Prop := ∀ k a, m.get? k = some a → key a = k

theorem Keyed.empty (key : α → κ) : Keyed (∅ : SortedMap κ α) key := fun _ _ h => nomatch h

theorem Keyed.insert [DecidableEq κ] {m : SortedMap κ α} {key : α → κ} (h : Keyed m key) (a : α) :
    Keyed (m.insert (key a) a) key :=
  forall_insert h rfl

/-- Records that stand under the keys that they give are looked up among the records. -/
theorem Keyed.get?_eq_some_iff {m : SortedMap κ α} {key : α → κ} (h : Keyed m key) {k : κ} {a : α} :
    m.get? k = some a ↔ a ∈ m.values ∧ key a = k := by
  constructor
  · intro hget
    exact ⟨mem_values.mpr ⟨k, hget⟩, h k a hget⟩
  · rintro ⟨ha, rfl⟩
    obtain ⟨k, hget⟩ := mem_values.mp ha
    rwa [h k a hget]

theorem Keyed.ext {m n : SortedMap κ α} {key : α → κ} (hm : Keyed m key) (hn : Keyed n key)
    (h : m.values = n.values) : m = n := by
  refine SortedMap.ext fun k => Option.ext fun a => ?_
  rw [hm.get?_eq_some_iff, hn.get?_eq_some_iff, h]

def Inverse (m : SortedMap κ α) (name : α → ν) (index : SortedMap ν κ) : Prop :=
  ∀ n k, index.get? n = some k ↔ ∃ a, m.get? k = some a ∧ name a = n

/-- The index lists the keys of records under the value that they share. -/
def Grouped (m : SortedMap κ α) (value : α → ν) (index : SortedSet (ν × κ)) : Prop :=
  ∀ v k, index.contains (v, k) = true ↔ ∃ a, m.get? k = some a ∧ value a = v

/-- The index has the keys of the map with their halves exchanged. -/
def Transposed (m : SortedMap (κ × μ) α) (index : SortedSet (μ × κ)) : Prop :=
  ∀ k x, index.contains (x, k) = true ↔ m.contains (k, x) = true

namespace Inverse

variable {m : SortedMap κ α} {name : α → ν} {index index' : SortedMap ν κ}

theorem unique (h : Inverse m name index) (h' : Inverse m name index') : index = index' :=
  SortedMap.ext fun n => Option.ext fun k => (h n k).trans (h' n k).symm

theorem empty (name : α → ν) : Inverse (∅ : SortedMap κ α) name ∅ := by
  intro n k
  constructor
  · rintro h
    cases h
  · rintro ⟨a, h, _⟩
    cases h

theorem get? (h : Inverse m name index) {k : κ} {a : α} (hk : m.get? k = some a) :
    index.get? (name a) = some k := (h _ k).mpr ⟨a, hk, rfl⟩

theorem insert [DecidableEq κ] [DecidableEq ν] (h : Inverse m name index) {k : κ} {a : α}
    (hk : m.get? k = none) (hn : index.get? (name a) = none) :
    Inverse (m.insert k a) name (index.insert (name a) k) := by
  intro n k'
  rw [get?_insert, get?_insert]
  by_cases hname : n = name a
  · subst hname
    by_cases hkey : k' = k
    · simp [hkey]
    · rw [if_pos rfl, if_neg hkey, ← h, hn]
      simp [Ne.symm hkey]
  · by_cases hkey : k' = k
    · subst hkey
      rw [if_neg hname, if_pos rfl, h, hk]
      simp [Ne.symm hname]
    · rw [if_neg hname, if_neg hkey, h]

theorem size_eq (h : Inverse m name index) : m.size = index.size := by
  refine size_eq_of_image Prod.snd ?_ ?_
  · rintro ⟨n, k⟩ he ⟨n', k'⟩ he' rfl
    obtain ⟨a, ha, rfl⟩ := (h n k).mp (get?_of_mem he)
    obtain ⟨a', ha', rfl⟩ := (h n' k).mp (get?_of_mem he')
    rw [ha] at ha'
    cases ha'
    rfl
  · intro k
    rw [contains_eq_true]
    constructor
    · rintro ⟨a, ha⟩
      exact ⟨(name a, k), (get?_eq_some_iff _).mp (h.get? ha), rfl⟩
    · rintro ⟨⟨n, k⟩, he, rfl⟩
      obtain ⟨a, ha, _⟩ := (h n k).mp (get?_of_mem he)
      exact ⟨a, ha⟩

end Inverse

namespace Grouped

variable {m : SortedMap κ α} {value : α → ν} {index index' : SortedSet (ν × κ)}

theorem unique (h : Grouped m value index) (h' : Grouped m value index') : index = index' :=
  ext_contains fun k => Bool.eq_iff_iff.mpr ((h k.1 k.2).trans (h' k.1 k.2).symm)

/-- A map whose values are the first halves of the index is known by it. -/
theorem unique_map {m n : SortedMap κ ν} (h : Grouped m (fun a => a) index)
    (h' : Grouped n (fun a => a) index) : m = n := by
  refine SortedMap.ext fun k => Option.ext fun v => ?_
  have hm := h v k
  have hn := h' v k
  simp only [exists_eq_right] at hm hn
  exact hm.symm.trans hn

theorem empty (value : α → ν) : Grouped (∅ : SortedMap κ α) value ∅ := by
  intro v k
  constructor
  · rintro h
    cases h
  · rintro ⟨a, h, _⟩
    cases h

theorem insert [DecidableEq κ] [DecidableEq ν] (h : Grouped m value index) {k : κ}
    (hk : m.get? k = none) (a : α) :
    Grouped (m.insert k a) value (index.add (value a, k)) := by
  intro v k'
  rw [SortedSet.add, contains_insert, get?_insert, h]
  by_cases hkey : k' = k
  · subst hkey
    simp [hk, eq_comm]
  · simp [hkey]

theorem erase [DecidableEq κ] [DecidableEq ν] (h : Grouped m value index) {k : κ} {a : α}
    (hk : m.get? k = some a) : Grouped (m.erase k) value (index.erase (value a, k)) := by
  intro v k'
  rw [contains_erase, get?_erase, h]
  by_cases hkey : k' = k
  · subst hkey
    simp [hk, eq_comm]
  · simp [hkey]

theorem size_eq (h : Grouped m value index) : m.size = index.size := by
  refine size_eq_of_image (fun e => e.1.2) ?_ ?_
  · rintro ⟨⟨v, k⟩, u⟩ he ⟨⟨v', k'⟩, u'⟩ he' rfl
    obtain ⟨a, ha, rfl⟩ := (h v k).mp (contains_eq_true.mpr ⟨_, get?_of_mem he⟩)
    obtain ⟨a', ha', rfl⟩ := (h v' k).mp (contains_eq_true.mpr ⟨_, get?_of_mem he'⟩)
    rw [ha] at ha'
    cases ha'
    rfl
  · intro k
    rw [contains_eq_true]
    constructor
    · rintro ⟨a, ha⟩
      obtain ⟨u, hu⟩ := contains_eq_true.mp ((h _ k).mpr ⟨a, ha, rfl⟩)
      exact ⟨((value a, k), u), (get?_eq_some_iff _).mp hu, rfl⟩
    · rintro ⟨⟨⟨v, k⟩, u⟩, he, rfl⟩
      obtain ⟨a, ha, _⟩ := (h v k).mp (contains_eq_true.mpr ⟨_, get?_of_mem he⟩)
      exact ⟨a, ha⟩

end Grouped

namespace Transposed

variable {m n : SortedMap (κ × μ) α} {index index' : SortedSet (μ × κ)}

theorem unique (h : Transposed m index) (h' : Transposed m index') : index = index' :=
  ext_contains fun k => Bool.eq_iff_iff.mpr ((h k.2 k.1).trans (h' k.2 k.1).symm)

/-- A set of pairs is known by the set of the pairs exchanged. -/
theorem unique_set {s t : SortedSet (κ × μ)} (h : Transposed s index) (h' : Transposed t index) :
    s = t :=
  ext_contains fun k => Bool.eq_iff_iff.mpr ((h k.1 k.2).symm.trans (h' k.1 k.2))

theorem empty : Transposed (∅ : SortedMap (κ × μ) α) ∅ := fun _ _ => Iff.rfl

/-- Only the keys of the map count. -/
theorem congr (h : Transposed m index) (hkeys : ∀ k, n.contains k = m.contains k) :
    Transposed n index := by
  intro k x
  rw [hkeys]
  exact h k x

theorem insert [DecidableEq κ] [DecidableEq μ] (h : Transposed m index) (k : κ) (x : μ) (a : α) :
    Transposed (m.insert (k, x) a) (index.add (x, k)) := by
  intro k' x'
  rw [SortedSet.add, contains_insert, contains_insert, h, Prod.mk.injEq, Prod.mk.injEq,
    and_comm (a := x' = x)]

theorem erase [DecidableEq κ] [DecidableEq μ] (h : Transposed m index) (k : κ) (x : μ) :
    Transposed (m.erase (k, x)) (index.erase (x, k)) := by
  intro k' x'
  rw [contains_erase, contains_erase, h, ne_eq, ne_eq, Prod.mk.injEq, Prod.mk.injEq,
    and_comm (a := x' = x)]

theorem size_eq (h : Transposed m index) : m.size = index.size := by
  refine size_eq_of_image (fun e => (e.1.2, e.1.1)) ?_ ?_
  · rintro ⟨⟨x, k⟩, u⟩ _ ⟨⟨x', k'⟩, u'⟩ _ heq
    obtain ⟨rfl, rfl⟩ := Prod.mk.inj heq
    rfl
  · rintro ⟨k, x⟩
    rw [← h, contains_eq_true]
    constructor
    · rintro ⟨u, hu⟩
      exact ⟨((x, k), u), (get?_eq_some_iff _).mp hu, rfl⟩
    · rintro ⟨⟨⟨x, k⟩, u⟩, he, heq⟩
      cases heq
      exact ⟨u, get?_of_mem he⟩

end Transposed

end CivicLedger.SortedMap
