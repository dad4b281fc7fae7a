import Mathlib.Algebra.Ring.Nat
import CivicLedger.Ordered.Map

/-!
# The entries of ordered maps

What lists of entries say in terms of look-up, and sums over all entries. A sum is moved by an
insertion or a removal exactly by what the entry of that key counts before and after.
-/

namespace CivicLedger.SortedMap

open KeyOrder

variable {κ μ α : Type} [KeyOrder κ] [KeyOrder μ]

theorem contains_eq_true {m : SortedMap κ α} {k : κ} :
    m.contains k = true ↔ ∃ a, m.get? k = some a := by
  simp [contains, Option.isSome_iff_exists]

theorem contains_eq_false {m : SortedMap κ α} {k : κ} :
    m.contains k = false ↔ m.get? k = none := by
  simp [contains]

theorem get?_of_not_contains {m : SortedMap κ α} {k : κ} (h : ¬ m.contains k = true) :
    m.get? k = none := contains_eq_false.mp (Bool.eq_false_iff.mpr h)

theorem get?_of_mem {m : SortedMap κ α} {e : κ × α} (h : e ∈ m.entries) : m.get? e.1 = some e.2 :=
  m.get?_eq_some_iff.mpr h

theorem mem_values {m : SortedMap κ α} {a : α} : a ∈ m.values ↔ ∃ k, m.get? k = some a := by
  simp only [values, List.mem_map, Prod.exists, exists_eq_right, get?_eq_some_iff]

theorem ext_contains {s t : SortedSet κ} (h : ∀ k, s.contains k = t.contains k) : s = t := by
  refine ext fun k => ?_
  have hk := h k
  unfold contains at hk
  cases hs : s.get? k <;> cases ht : t.get? k <;> simp_all

theorem keys_nodup (m : SortedMap κ α) : m.keys.Nodup := by
  unfold keys
  rw [List.nodup_iff_pairwise_ne, List.pairwise_map]
  exact m.ascending.imp ne_of_before

/-- Inserting entries with different keys leaves each of them, and what was under other keys. -/
theorem get?_foldl_insert [DecidableEq κ] {l : List (κ × α)} (h : (l.map Prod.fst).Nodup)
    (m : SortedMap κ α) {k : κ} {a : α} :
    (l.foldl (fun m e => m.insert e.1 e.2) m).get? k = some a ↔
      (k, a) ∈ l ∨ k ∉ l.map Prod.fst ∧ m.get? k = some a := by
  induction l generalizing m with
  | nil => simp
  | cons e rest ih =>
    obtain ⟨hfresh, hrest⟩ := List.nodup_cons.mp h
    rw [List.foldl_cons, ih hrest, get?_insert, List.map_cons, List.mem_cons, List.mem_cons]
    by_cases hk : k = e.1
    · subst hk
      have hnot : (e.1, a) ∉ rest := fun hmem => hfresh (List.mem_map.mpr ⟨_, hmem, rfl⟩)
      simp [hfresh, hnot, Prod.ext_iff, eq_comm]
    · have hne : (k, a) ≠ e := fun he => hk (congrArg Prod.fst he)
      simp [hk, hne]

theorem ofList_entries [DecidableEq κ] (m : SortedMap κ α) : ofList m.entries = m := by
  apply ext
  intro k
  apply Option.ext
  intro a
  have hnodup : (m.entries.map Prod.fst).Nodup := m.keys_nodup
  unfold ofList
  rw [get?_foldl_insert hnodup, get?_empty, get?_eq_some_iff]
  simp

theorem ofKeys_keys [DecidableEq κ] (s : SortedSet κ) : SortedSet.ofKeys s.keys = s := by
  unfold SortedSet.ofKeys keys
  rw [List.foldl_map]
  exact s.ofList_entries

theorem keys_ascending (m : SortedMap κ α) : m.keys.Pairwise fun a b => before a b = true :=
  List.pairwise_map.mpr m.ascending

theorem mem_keys {m : SortedMap κ α} {k : κ} : k ∈ m.keys ↔ m.contains k = true := by
  simp [keys, contains_eq_true, get?_eq_some_iff]

/-- Only those keys count that `f` does not pass over. -/
theorem filterMap_keys_congr {β γ : Type} {m : SortedMap κ α} {n : SortedMap κ β}
    {f : κ → Option γ} (hm : ∀ k, (f k).isSome = true → m.contains k = true)
    (hn : ∀ k, (f k).isSome = true → n.contains k = true) :
    m.keys.filterMap f = n.keys.filterMap f := by
  have hkept (ks : List κ) :
      ks.filterMap f = (ks.filter fun k => (f k).isSome).filterMap f := by
    rw [List.filterMap_filter]
    congr 1
    funext k
    cases f k <;> rfl
  have hmem (k : κ) : k ∈ (m.keys.filter fun k => (f k).isSome) ↔
      k ∈ n.keys.filter fun k => (f k).isSome := by
    rw [List.mem_filter, List.mem_filter, mem_keys, mem_keys]
    constructor
    · rintro ⟨_, hk⟩
      exact ⟨hn k hk, hk⟩
    · rintro ⟨_, hk⟩
      exact ⟨hm k hk, hk⟩
  have hperm := (List.perm_ext_iff_of_nodup (m.keys_nodup.filter _)
    (n.keys_nodup.filter _)).mpr hmem
  rw [hkept, hkept n.keys]
  congr 1
  refine hperm.eq_of_pairwise ?_ (m.keys_ascending.filter _) (n.keys_ascending.filter _)
  intro a b _ _ hab hba
  rw [asymm hab] at hba
  cases hba

/-- Two keys that neither comes before the other are the same key. -/
theorem not_before_or_before_iff {a b : κ} : (before a b || before b a) = false ↔ a = b := by
  constructor
  · intro h
    simp only [Bool.or_eq_false_iff] at h
    exact before_connected h.1 h.2
  · rintro rfl
    simp [before_irrefl]

theorem mem_within {m : SortedMap (κ × μ) α} {k : κ} {x : μ} {a : α} :
    (x, a) ∈ m.within k ↔ m.get? (k, x) = some a := by
  simp only [within, List.mem_filterMap, get?_eq_some_iff]
  constructor
  · rintro ⟨e, he, h⟩
    split at h
    · cases h
    · next hk =>
      obtain ⟨rfl, rfl⟩ := Prod.mk.inj (Option.some.inj h)
      have hk' := not_before_or_before_iff.mp (Bool.eq_false_iff.mpr hk)
      exact hk' ▸ he
  · intro h
    exact ⟨((k, x), a), h, by simp [before_irrefl]⟩

/-- The entries within a key, as those entries of the map. -/
theorem within_eq_filterMap [DecidableEq κ] (m : SortedMap (κ × μ) α) (k : κ) :
    m.within k = m.entries.filterMap fun e => if e.1.1 = k then some (e.1.2, e.2) else none := by
  unfold within
  congr 1
  funext e
  by_cases h : e.1.1 = k
  · subst h
    simp [before_irrefl]
  · have hb : (before e.1.1 k || before k e.1.1) = true :=
      Bool.not_eq_false _ ▸ fun hn => h (not_before_or_before_iff.mp hn)
    rw [if_pos hb, if_neg h]

/-- The keys within a key ascend. -/
theorem within_ascending (m : SortedMap (κ × μ) α) (k : κ) :
    (m.within k).Pairwise fun a b => before a.1 b.1 = true := by
  unfold within
  rw [List.pairwise_filterMap]
  refine m.ascending.imp ?_
  intro a b hab x hx y hy
  split at hx
  · cases hx
  split at hy
  · cases hy
  next ha hb =>
  cases hx
  cases hy
  have ea := not_before_or_before_iff.mp (Bool.eq_false_iff.mpr ha)
  have eb := not_before_or_before_iff.mp (Bool.eq_false_iff.mpr hb)
  change (before a.1.1 b.1.1 || (!before b.1.1 a.1.1 && before a.1.2 b.1.2)) = true at hab
  simpa [ea, eb, before_irrefl] using hab

/-- No key lies behind the last one. -/
theorem not_before_of_last? {m : SortedMap κ α} {e : κ × α} (h : m.last? = some e) {k : κ} {a : α}
    (hk : m.get? k = some a) : before e.1 k = false := by
  obtain ⟨l, hl⟩ := List.getLast?_eq_some_iff.mp h
  have hmem : (k, a) ∈ l ++ [e] := hl ▸ m.get?_eq_some_iff.mp hk
  have hasc := m.ascending
  rw [hl, List.pairwise_append] at hasc
  rcases List.mem_append.mp hmem with h | h
  · exact asymm (hasc.2.2 _ h e (List.mem_singleton_self e))
  · rw [List.mem_singleton] at h
    rw [← h, before_irrefl]

/-- What holds of every entry and of a new one holds after it is inserted. -/
theorem forall_insert [DecidableEq κ] {P : κ → α → Prop} {m : SortedMap κ α} {k : κ} {a : α}
    (h : ∀ k a, m.get? k = some a → P k a) (hk : P k a) (k' : κ) (a' : α)
    (hget : (m.insert k a).get? k' = some a') : P k' a' := by
  rw [get?_insert] at hget
  split at hget
  · next he =>
    cases hget
    rwa [he]
  · exact h k' a' hget

/-- A key that was free leaves the other entries as they are. -/
theorem get?_insert_of_free [DecidableEq κ] {m : SortedMap κ α} {k k' : κ} {a a' : α}
    (hk : m.get? k = none) (h : m.get? k' = some a') : (m.insert k a).get? k' = some a' := by
  rw [get?_insert]
  split
  · next he =>
    rw [he, hk] at h
    cases h
  · exact h

/-- What holds of every entry holds after one is removed. -/
theorem forall_erase [DecidableEq κ] {P : κ → α → Prop} {m : SortedMap κ α} {k : κ}
    (h : ∀ k a, m.get? k = some a → P k a) (k' : κ) (a' : α)
    (hget : (m.erase k).get? k' = some a') : P k' a' := by
  rw [get?_erase] at hget
  split at hget
  · cases hget
  · exact h k' a' hget

theorem contains_insert [DecidableEq κ] {m : SortedMap κ α} {k k' : κ} {a : α} :
    (m.insert k a).contains k' = true ↔ k' = k ∨ m.contains k' = true := by
  unfold contains
  rw [get?_insert]
  split <;> simp_all

/-- Writing to an entry that is there adds no key. -/
theorem contains_insert_of_contains [DecidableEq κ] {m : SortedMap κ α} {k : κ}
    (h : m.contains k = true) (a : α) (k' : κ) : (m.insert k a).contains k' = m.contains k' := by
  rw [Bool.eq_iff_iff, contains_insert]
  constructor
  · rintro (rfl | hk)
    · exact h
    · exact hk
  · exact .inr

theorem contains_erase [DecidableEq κ] {m : SortedMap κ α} {k k' : κ} :
    (m.erase k).contains k' = true ↔ k' ≠ k ∧ m.contains k' = true := by
  unfold contains
  rw [get?_erase]
  split <;> simp_all

/-- Removing an entry that is not there changes nothing. -/
theorem erase_of_absent [DecidableEq κ] {m : SortedMap κ α} {k : κ} (h : m.get? k = none) :
    m.erase k = m := by
  refine ext fun k' => ?_
  rw [get?_erase]
  split
  · next he => rw [he, h]
  · rfl

def part (m : SortedMap (κ × μ) α) (k : κ) : SortedMap μ α := ⟨m.within k, m.within_ascending k⟩

@[simp] theorem get?_part (m : SortedMap (κ × μ) α) (k : κ) (x : μ) :
    (m.part k).get? x = m.get? (k, x) := by
  apply Option.ext
  intro a
  rw [get?_eq_some_iff]
  exact mem_within

/-- A map is known by its parts within the keys that any entry begins with. -/
theorem ext_parts {m n : SortedMap (κ × μ) α} {P : κ → Prop}
    (hm : ∀ k a, m.get? k = some a → P k.1) (hn : ∀ k a, n.get? k = some a → P k.1)
    (h : ∀ k, P k → m.part k = n.part k) : m = n := by
  refine ext fun k => ?_
  by_cases hk : P k.1
  · rw [← get?_part, ← get?_part, h k.1 hk]
  · have hnone {o : Option α} (ho : ∀ a, o = some a → P k.1) : o = none :=
      Option.eq_none_iff_forall_ne_some.mpr fun a ha => hk (ho a ha)
    rw [hnone (hm k), hnone (hn k)]

theorem part_congr {m n : SortedMap (κ × μ) α} {k : κ}
    (h : ∀ x, m.get? (k, x) = n.get? (k, x)) : m.part k = n.part k :=
  ext fun x => by rw [get?_part, get?_part, h]

section

variable (m : SortedMap (κ × μ) α) {k k' : κ} (x : μ)

@[simp] theorem part_insert_self [DecidableEq κ] [DecidableEq μ] (a : α) :
    (m.insert (k, x) a).part k = (m.part k).insert x a := by
  refine ext fun y => ?_
  simp [get?_insert]

@[simp] theorem part_erase_self [DecidableEq κ] [DecidableEq μ] :
    (m.erase (k, x)).part k = (m.part k).erase x := by
  refine ext fun y => ?_
  simp [get?_erase]

theorem part_insert_ne (h : k' ≠ k) (a : α) : (m.insert (k, x) a).part k' = m.part k' :=
  part_congr fun _ => get?_insert_ne m a fun e => h (Prod.mk.inj e).1

theorem part_erase_ne (h : k' ≠ k) : (m.erase (k, x)).part k' = m.part k' :=
  part_congr fun _ => get?_erase_ne m fun e => h (Prod.mk.inj e).1

end

/-- The entry that is found by its key is the one that is stored there. -/
theorem find?_entries [DecidableEq κ] (m : SortedMap κ α) (k : κ) :
    m.entries.find? (fun e => e.1 == k) = (m.get? k).map fun a => (k, a) := by
  cases hfind : m.entries.find? (fun e => e.1 == k) with
  | none =>
    cases hget : m.get? k with
    | none => rfl
    | some a =>
      rw [get?_eq_some_iff] at hget
      exact absurd (beq_self_eq_true k) (List.find?_eq_none.mp hfind (k, a) hget)
  | some e =>
    have hkey : e.1 = k := by simpa using List.find?_some hfind
    have hget := get?_of_mem (List.mem_of_find?_eq_some hfind)
    rw [hkey] at hget
    rw [hget, ← hkey]
    rfl

def mapValues {β : Type} (f : κ → α → β) (m : SortedMap κ α) : SortedMap κ β :=
  ⟨m.entries.map fun e => (e.1, f e.1 e.2), List.pairwise_map.mpr m.ascending⟩

@[simp] theorem get?_mapValues {β : Type} (f : κ → α → β) (m : SortedMap κ α) (k : κ) :
    (m.mapValues f).get? k = (m.get? k).map (f k) := by
  apply Option.ext
  intro b
  simp only [get?_eq_some_iff, mapValues, List.mem_map, Option.map_eq_some_iff, Prod.exists,
    Prod.mk.injEq]
  constructor
  · rintro ⟨k', a, hmem, rfl, rfl⟩
    exact ⟨a, hmem, rfl⟩
  · rintro ⟨a, hmem, rfl⟩
    exact ⟨k, a, hmem, rfl, rfl⟩

section Sums

variable {κ α : Type}

def sumOf (w : κ → α → Nat) (l : List (κ × α)) : Nat := (l.map fun e => w e.1 e.2).sum

def share (w : κ → α → Nat) (k : κ) (o : Option α) : Nat := o.elim 0 (w k)

@[simp] theorem share_none (w : κ → α → Nat) (k : κ) : share w k none = 0 := rfl
@[simp] theorem share_some (w : κ → α → Nat) (k : κ) (a : α) : share w k (some a) = w k a := rfl

theorem sumOf_cons (w : κ → α → Nat) (e : κ × α) (l : List (κ × α)) :
    sumOf w (e :: l) = w e.1 e.2 + sumOf w l := by
  simp [sumOf]

/-- Entries that are passed over count nothing. -/
theorem sumOf_eq_filterMap {β : Type} {w : κ → α → Nat} {f : κ × α → Option β} {g : β → Nat}
    (h : ∀ e, w e.1 e.2 = (f e).elim 0 g) (l : List (κ × α)) :
    sumOf w l = ((l.filterMap f).map g).sum := by
  induction l with
  | nil => rfl
  | cons e l ih =>
    rw [sumOf_cons, ih, h e, List.filterMap_cons]
    cases f e <;> simp

end Sums

def total (w : κ → α → Nat) (m : SortedMap κ α) : Nat := sumOf w m.entries

@[simp] theorem total_empty (w : κ → α → Nat) : total w (∅ : SortedMap κ α) = 0 := rfl

theorem sumOf_place (w : κ → α → Nat) (k : κ) (a : α) (l : List (κ × α)) :
    sumOf w (place k a l) + share w k (lookup k l) = sumOf w l + w k a := by
  induction l with
  | nil => simp [place, lookup, sumOf]
  | cons e l ih =>
    obtain ⟨k', a'⟩ := e
    simp only [place, lookup]
    split
    · simp only [sumOf_cons, share_none]
      omega
    · split
      · simp only [sumOf_cons]
        omega
      · next h₁ h₂ =>
        have e : k = k' := before_connected (by simpa using h₁) (by simpa using h₂)
        subst e
        simp only [sumOf_cons, share_some]
        omega

theorem sumOf_drop (w : κ → α → Nat) (k : κ) (l : List (κ × α)) :
    sumOf w (drop k l) + share w k (lookup k l) = sumOf w l := by
  induction l with
  | nil => simp [drop, lookup, sumOf]
  | cons e l ih =>
    obtain ⟨k', a'⟩ := e
    simp only [drop, lookup]
    split
    · simp
    · split
      · simp only [sumOf_cons]
        omega
      · next h₁ h₂ =>
        have e : k = k' := before_connected (by simpa using h₁) (by simpa using h₂)
        subst e
        simp only [sumOf_cons, share_some]
        omega

theorem total_insert (w : κ → α → Nat) (m : SortedMap κ α) (k : κ) (a : α) :
    total w (m.insert k a) + share w k (m.get? k) = total w m + w k a :=
  sumOf_place w k a m.entries

theorem total_erase (w : κ → α → Nat) (m : SortedMap κ α) (k : κ) :
    total w (m.erase k) + share w k (m.get? k) = total w m :=
  sumOf_drop w k m.entries

/-- The number of entries is the sum in which each of them counts one. -/
theorem size_eq_total (m : SortedMap κ α) : m.size = total (fun _ _ => 1) m := by
  simp [size, total, sumOf, List.map_const']

theorem size_insert_of_absent {m : SortedMap κ α} {k : κ} (h : m.get? k = none) (a : α) :
    (m.insert k a).size = m.size + 1 := by
  have := total_insert (fun _ _ => 1) m k a
  rw [h, share_none] at this
  simpa [size_eq_total] using this

theorem size_insert_le (m : SortedMap κ α) (k : κ) (a : α) : (m.insert k a).size ≤ m.size + 1 := by
  have := total_insert (fun _ _ => 1) m k a
  rw [size_eq_total, size_eq_total]
  omega

theorem size_erase_le (m : SortedMap κ α) (k : κ) : (m.erase k).size ≤ m.size := by
  have := total_erase (fun _ _ => 1) m k
  rw [size_eq_total, size_eq_total]
  omega

/-- A sum counts at least each of the entries. -/
theorem share_le_total (w : κ → α → Nat) (m : SortedMap κ α) (k : κ) :
    share w k (m.get? k) ≤ total w m := by
  have := total_erase w m k
  omega

section Many

variable [DecidableEq κ] {ι : Type} {f : ι → κ} {xs : List ι} {s : SortedSet κ} {k : κ}

theorem contains_foldl_add :
    (xs.foldl (fun s x => s.add (f x)) s).contains k = true ↔
      (∃ x ∈ xs, f x = k) ∨ s.contains k = true := by
  induction xs generalizing s with
  | nil => simp
  | cons x rest ih =>
    have hadd : (s.add (f x)).contains k = true ↔ f x = k ∨ s.contains k = true := by
      rw [SortedSet.add, contains_insert, eq_comm]
    rw [List.foldl_cons, ih, hadd, ← or_assoc]
    simp only [List.mem_cons, or_and_right, exists_or, exists_eq_left]
    rw [or_comm (b := f x = k)]

theorem contains_of_foldl_erase (h : (xs.foldl (fun s x => s.erase (f x)) s).contains k = true) :
    s.contains k = true := by
  induction xs generalizing s with
  | nil => exact h
  | cons x rest ih => exact (contains_erase.mp (ih h)).2

variable [DecidableEq μ] (ys : List μ) (t : SortedSet (κ × μ)) (k k' : κ)

/-- Keys that begin with `k` are added to the part within `k` alone. -/
theorem size_part_foldl_add_le :
    ((ys.foldl (fun t y => t.add (k, y)) t).part k').size ≤
      (t.part k').size + if k' = k then ys.length else 0 := by
  induction ys generalizing t with
  | nil => simp
  | cons y rest ih =>
    have hrest := ih (t.add (k, y))
    rw [List.foldl_cons, List.length_cons]
    by_cases hk : k' = k
    · subst hk
      have hone := size_insert_le (t.part k') y ()
      have hpart : (t.add (k', y)).part k' = (t.part k').insert y () := part_insert_self t y ()
      rw [hpart, if_pos rfl] at hrest
      rw [if_pos rfl]
      omega
    · have hpart : (t.add (k, y)).part k' = t.part k' := part_insert_ne t y hk ()
      rw [hpart, if_neg hk] at hrest
      rwa [if_neg hk]

theorem size_part_foldl_erase_le :
    ((ys.foldl (fun t y => t.erase (k, y)) t).part k').size ≤ (t.part k').size := by
  induction ys generalizing t with
  | nil => exact Nat.le_refl _
  | cons y rest ih =>
    refine Nat.le_trans (ih (t.erase (k, y))) ?_
    by_cases hk : k' = k
    · subst hk
      rw [part_erase_self]
      exact size_erase_le _ _
    · exact Nat.le_of_eq (congrArg size (part_erase_ne t y hk))

end Many

end CivicLedger.SortedMap

namespace CivicLedger.SortedSet

variable {κ : Type} [KeyOrder κ] [DecidableEq κ] {l m : List κ}

theorem mem_keys_ofKeys {k : κ} : k ∈ (ofKeys l).keys ↔ k ∈ l := by
  have hadd : (l.foldl (fun (s : SortedSet κ) k => s.add k) SortedMap.empty).contains k = true ↔
      (∃ x ∈ l, x = k) ∨ (SortedMap.empty : SortedSet κ).contains k = true :=
    SortedMap.contains_foldl_add
  rw [SortedMap.mem_keys, ofKeys, hadd]
  simp [SortedMap.contains]

/-- A set of keys is the same whatever the order of the keys and however often they are named. -/
theorem ofKeys_congr (h : ∀ k, k ∈ l ↔ k ∈ m) : ofKeys l = ofKeys m := by
  refine SortedMap.ext_contains fun k => ?_
  rw [Bool.eq_iff_iff, ← SortedMap.mem_keys, ← SortedMap.mem_keys, mem_keys_ofKeys, mem_keys_ofKeys]
  exact h k

end CivicLedger.SortedSet
