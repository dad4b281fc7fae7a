import CivicLedger.Ordered.Key

/-!
# Ordered maps and sets

Finite maps kept as one list of entries in ascending key order. The order is part of the type, so a
content has exactly one map (`ext`), and listing a map needs no sorting. Main statements: what each
operation does to look-up (`get?_insert`, `get?_erase`).
-/

namespace CivicLedger

/-- A finite map from keys to values, listed in ascending key order. -/
structure SortedMap (κ α : Type) [KeyOrder κ] where
  entries : List (κ × α)
  ascending : entries.Pairwise fun a b => KeyOrder.before a.1 b.1 = true

namespace SortedMap

open KeyOrder

variable {κ α β : Type} [KeyOrder κ]

/-- Looks a key up and stops at the first larger one. -/
def lookup (k : κ) : List (κ × α) → Option α
  | [] => none
  | (k', a) :: rest =>
    if before k k' then none else if before k' k then lookup k rest else some a

def place (k : κ) (a : α) : List (κ × α) → List (κ × α)
  | [] => [(k, a)]
  | (k', a') :: rest =>
    if before k k' then (k, a) :: (k', a') :: rest
    else if before k' k then (k', a') :: place k a rest
    else (k, a) :: rest

def drop (k : κ) : List (κ × α) → List (κ × α)
  | [] => []
  | (k', a) :: rest =>
    if before k k' then (k', a) :: rest
    else if before k' k then (k', a) :: drop k rest
    else rest

theorem mem_place {k : κ} {a : α} {e : κ × α} {l : List (κ × α)} (h : e ∈ place k a l) :
    e = (k, a) ∨ e ∈ l := by
  induction l with
  | nil => exact .inl (by simpa [place] using h)
  | cons hd tl ih =>
    simp only [place] at h
    split at h
    · simpa using h
    · split at h
      · rcases List.mem_cons.mp h with h | h
        · exact .inr (by simp [h])
        · exact (ih h).imp_right fun h => by simp [h]
      · rcases List.mem_cons.mp h with h | h
        · exact .inl h
        · exact .inr (by simp [h])

theorem mem_of_mem_drop {k : κ} {e : κ × α} {l : List (κ × α)} (h : e ∈ drop k l) : e ∈ l := by
  induction l with
  | nil => simp [drop] at h
  | cons hd tl ih =>
    simp only [drop] at h
    split at h
    · exact h
    · split at h
      · rcases List.mem_cons.mp h with h | h
        · simp [h]
        · simp [ih h]
      · simp [h]

theorem pairwise_place (k : κ) (a : α) {l : List (κ × α)}
    (h : l.Pairwise fun a b => before a.1 b.1 = true) :
    (place k a l).Pairwise fun a b => before a.1 b.1 = true := by
  induction l with
  | nil => simp [place]
  | cons hd tl ih =>
    obtain ⟨hhd, htl⟩ := List.pairwise_cons.mp h
    simp only [place]
    split
    · next hk =>
      refine List.pairwise_cons.mpr ⟨fun e he => ?_, h⟩
      rcases List.mem_cons.mp he with rfl | he
      · exact hk
      · exact before_trans hk (hhd e he)
    · split
      · next hk =>
        refine List.pairwise_cons.mpr ⟨fun e he => ?_, ih htl⟩
        rcases mem_place he with rfl | he
        · exact hk
        · exact hhd e he
      · next hk hk' =>
        have : k = hd.1 := before_connected (by simpa using hk) (by simpa using hk')
        exact List.pairwise_cons.mpr ⟨fun e he => this ▸ hhd e he, htl⟩

theorem pairwise_drop (k : κ) {l : List (κ × α)}
    (h : l.Pairwise fun a b => before a.1 b.1 = true) :
    (drop k l).Pairwise fun a b => before a.1 b.1 = true := by
  induction l with
  | nil => simp [drop]
  | cons hd tl ih =>
    obtain ⟨hhd, htl⟩ := List.pairwise_cons.mp h
    simp only [drop]
    split
    · exact h
    · split
      · exact List.pairwise_cons.mpr ⟨fun e he => hhd e (mem_of_mem_drop he), ih htl⟩
      · exact htl

theorem lookup_eq_none_of_before {k : κ} {l : List (κ × α)}
    (h : ∀ e ∈ l, before k e.1 = true) : lookup k l = none := by
  cases l with
  | nil => rfl
  | cons hd tl => simp [lookup, h hd (by simp)]

theorem lookup_place_self (k : κ) (a : α) (l : List (κ × α)) : lookup k (place k a l) = some a := by
  induction l with
  | nil => simp [place, lookup, before_irrefl]
  | cons hd tl ih =>
    simp only [place]
    split
    · simp [lookup, before_irrefl]
    · split
      · next hk hk' => simp [lookup, asymm hk', hk', ih]
      · simp [lookup, before_irrefl]

theorem lookup_place_ne {k k' : κ} (a : α) (h : k' ≠ k) (l : List (κ × α)) :
    lookup k' (place k a l) = lookup k' l := by
  induction l with
  | nil =>
    simp only [place, lookup]
    split
    · rfl
    · split
      · rfl
      · next h₁ h₂ =>
        exact absurd (before_connected (by simpa using h₁) (by simpa using h₂)) h
  | cons hd tl ih =>
    obtain ⟨x, y⟩ := hd
    simp only [place]
    split
    · next hkx =>
      simp only [lookup]
      split
      · next hk'k => simp [before_trans hk'k hkx]
      · split
        · rfl
        · next h₁ h₂ =>
          exact absurd (before_connected (by simpa using h₁) (by simpa using h₂)) h
    · split
      · simp only [lookup, ih]
      · next h₁ h₂ =>
        have : k = x := before_connected (by simpa using h₁) (by simpa using h₂)
        subst this
        simp only [lookup]
        split
        · rfl
        · split
          · rfl
          · next h₃ h₄ =>
            exact absurd (before_connected (by simpa using h₃) (by simpa using h₄)) h

theorem lookup_drop_self (k : κ) {l : List (κ × α)}
    (h : l.Pairwise fun a b => before a.1 b.1 = true) : lookup k (drop k l) = none := by
  induction l with
  | nil => rfl
  | cons hd tl ih =>
    obtain ⟨hhd, htl⟩ := List.pairwise_cons.mp h
    obtain ⟨x, y⟩ := hd
    simp only [drop]
    split
    · next hk => simp [lookup, hk]
    · split
      · next hk => simp [lookup, asymm hk, hk, ih htl]
      · next h₁ h₂ =>
        have : k = x := before_connected (by simpa using h₁) (by simpa using h₂)
        exact lookup_eq_none_of_before fun e he => this ▸ hhd e he

theorem lookup_drop_ne {k k' : κ} (h : k' ≠ k) {l : List (κ × α)}
    (hl : l.Pairwise fun a b => before a.1 b.1 = true) :
    lookup k' (drop k l) = lookup k' l := by
  induction l with
  | nil => rfl
  | cons hd tl ih =>
    obtain ⟨hhd, htl⟩ := List.pairwise_cons.mp hl
    obtain ⟨x, y⟩ := hd
    simp only [drop]
    split
    · rfl
    · split
      · simp only [lookup, ih htl]
      · next h₁ h₂ =>
        have : k = x := before_connected (by simpa using h₁) (by simpa using h₂)
        subst this
        simp only [lookup]
        split
        · next h₃ => exact lookup_eq_none_of_before fun e he => before_trans h₃ (hhd e he)
        · split
          · rfl
          · next h₃ h₄ =>
            exact absurd (before_connected (by simpa using h₃) (by simpa using h₄)) h

theorem lookup_eq_some_iff {k : κ} {a : α} {l : List (κ × α)}
    (h : l.Pairwise fun a b => before a.1 b.1 = true) : lookup k l = some a ↔ (k, a) ∈ l := by
  induction l with
  | nil => simp [lookup]
  | cons hd tl ih =>
    obtain ⟨hhd, htl⟩ := List.pairwise_cons.mp h
    obtain ⟨x, y⟩ := hd
    simp only [lookup]
    split
    · next hk =>
      simp only [reduceCtorEq, List.mem_cons, Prod.mk.injEq, false_iff, not_or]
      refine ⟨fun e => ne_of_before hk e.1, fun he => ?_⟩
      have := before_trans hk (hhd _ he)
      simp [before_irrefl] at this
    · split
      · next hk =>
        simp only [ih htl, List.mem_cons, Prod.mk.injEq]
        exact ⟨.inr, fun h => h.resolve_left fun e => ne_of_before hk e.1.symm⟩
      · next h₁ h₂ =>
        have : k = x := before_connected (by simpa using h₁) (by simpa using h₂)
        subst this
        simp only [Option.some.injEq, List.mem_cons, Prod.mk.injEq, true_and]
        refine ⟨fun e => .inl e.symm, fun h => ?_⟩
        rcases h with h | h
        · exact h.symm
        · have := hhd _ h
          simp [before_irrefl] at this

instance [DecidableEq κ] [DecidableEq α] : DecidableEq (SortedMap κ α)
  | ⟨l, _⟩, ⟨m, _⟩ => if h : l = m then .isTrue (by subst h; rfl) else .isFalse (by simp [h])

def empty : SortedMap κ α := ⟨[], .nil⟩

instance : EmptyCollection (SortedMap κ α) := ⟨empty⟩
instance : Inhabited (SortedMap κ α) := ⟨empty⟩

def get? (m : SortedMap κ α) (k : κ) : Option α := lookup k m.entries

def contains (m : SortedMap κ α) (k : κ) : Bool := (m.get? k).isSome

def insert (m : SortedMap κ α) (k : κ) (a : α) : SortedMap κ α :=
  ⟨place k a m.entries, pairwise_place k a m.ascending⟩

def erase (m : SortedMap κ α) (k : κ) : SortedMap κ α :=
  ⟨drop k m.entries, pairwise_drop k m.ascending⟩

def keys (m : SortedMap κ α) : List κ := m.entries.map Prod.fst

def values (m : SortedMap κ α) : List α := m.entries.map Prod.snd

def size (m : SortedMap κ α) : Nat := m.entries.length

def last? (m : SortedMap κ α) : Option (κ × α) := m.entries.getLast?

/-- Inserts the entries one after another: of two with the same key the later one stays. -/
def ofList (l : List (κ × α)) : SortedMap κ α := l.foldl (fun m e => m.insert e.1 e.2) empty

/-- The entries whose keys begin with `k`, by the rest of the key. -/
def within {μ : Type} [KeyOrder μ] (m : SortedMap (κ × μ) α) (k : κ) : List (μ × α) :=
  m.entries.filterMap fun e =>
    if before e.1.1 k || before k e.1.1 then none else some (e.1.2, e.2)

@[simp] theorem get?_empty (k : κ) : (empty : SortedMap κ α).get? k = none := rfl

@[simp] theorem get?_insert_self (m : SortedMap κ α) (k : κ) (a : α) :
    (m.insert k a).get? k = some a := lookup_place_self k a m.entries

theorem get?_insert_ne (m : SortedMap κ α) {k k' : κ} (a : α) (h : k' ≠ k) :
    (m.insert k a).get? k' = m.get? k' := lookup_place_ne a h m.entries

theorem get?_insert [DecidableEq κ] (m : SortedMap κ α) (k k' : κ) (a : α) :
    (m.insert k a).get? k' = if k' = k then some a else m.get? k' := by
  split
  · next h => subst h; exact get?_insert_self m _ a
  · next h => exact get?_insert_ne m a h

@[simp] theorem get?_erase_self (m : SortedMap κ α) (k : κ) : (m.erase k).get? k = none :=
  lookup_drop_self k m.ascending

theorem get?_erase_ne (m : SortedMap κ α) {k k' : κ} (h : k' ≠ k) :
    (m.erase k).get? k' = m.get? k' := lookup_drop_ne h m.ascending

theorem get?_erase [DecidableEq κ] (m : SortedMap κ α) (k k' : κ) :
    (m.erase k).get? k' = if k' = k then none else m.get? k' := by
  split
  · next h => subst h; exact get?_erase_self m _
  · next h => exact get?_erase_ne m h

theorem get?_eq_some_iff (m : SortedMap κ α) {k : κ} {a : α} :
    m.get? k = some a ↔ (k, a) ∈ m.entries := lookup_eq_some_iff m.ascending

/-- Two maps with the same look-ups are the same map. -/
theorem ext {m n : SortedMap κ α} (h : ∀ k, m.get? k = n.get? k) : m = n := by
  obtain ⟨l, hl⟩ := m
  obtain ⟨r, hr⟩ := n
  have hmem (e : κ × α) : e ∈ l ↔ e ∈ r := by
    have := h e.1
    simp only [get?] at this
    rw [← lookup_eq_some_iff (k := e.1) (a := e.2) hl, this, lookup_eq_some_iff hr]
  suffices l = r by subst this; rfl
  clear h
  induction l generalizing r with
  | nil =>
    cases r with
    | nil => rfl
    | cons x xs => exact absurd ((hmem x).mpr (by simp)) (by simp)
  | cons x xs ih =>
    cases r with
    | nil => exact absurd ((hmem x).mp (by simp)) (by simp)
    | cons y ys =>
      obtain ⟨hx, hxs⟩ := List.pairwise_cons.mp hl
      obtain ⟨hy, hys⟩ := List.pairwise_cons.mp hr
      have exy : x = y := by
        rcases List.mem_cons.mp ((hmem x).mp (by simp)) with e | hxy
        · exact e
        · rcases List.mem_cons.mp ((hmem y).mpr (by simp)) with e | hyx
          · exact e.symm
          · exact absurd (before_trans (hx y hyx) (hy x hxy)) (by simp [before_irrefl])
      subst exy
      have tails : xs = ys := by
        refine ih hxs ys hys fun e => ⟨fun he => ?_, fun he => ?_⟩
        · rcases List.mem_cons.mp ((hmem e).mp (by simp [he])) with rfl | h
          · exact absurd (hx _ he) (by simp [before_irrefl])
          · exact h
        · rcases List.mem_cons.mp ((hmem e).mpr (by simp [he])) with rfl | h
          · exact absurd (hy _ he) (by simp [before_irrefl])
          · exact h
      rw [tails]

end SortedMap

abbrev SortedSet (κ : Type) [KeyOrder κ] := SortedMap κ Unit

namespace SortedSet

variable {κ : Type} [KeyOrder κ]

def add (s : SortedSet κ) (k : κ) : SortedSet κ := s.insert k ()

def ofKeys (l : List κ) : SortedSet κ := l.foldl add SortedMap.empty

end SortedSet

end CivicLedger
