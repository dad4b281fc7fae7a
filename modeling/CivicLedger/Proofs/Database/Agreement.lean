import CivicLedger.Proofs.Database.Mirror
import CivicLedger.Proofs.State.Program

/-!
# Programs that agree on both stores

A program on a ledger and one on a database agree if from a ledger and a database that holds it they
give the same value or the same fault, and leave a ledger and a database that holds it. Programs
made of parts that agree, agree.
-/

namespace CivicLedger.Database

open Program

variable {ε α β : Type}

inductive SameResult (K : Ledger → Database → Prop) :
    EStateM.Result ε Ledger α → EStateM.Result ε Database α → Prop where
  | ok {a : α} {l : Ledger} {db : Database} (h : Mirrors l db) : SameResult K (.ok a l) (.ok a db)
  | error {e : ε} {l : Ledger} {db : Database} (h : K l db) :
    SameResult K (.error e l) (.error e db)

/-- Programs that do the same from a ledger and a database that holds it; `K` relates what they
leave where they fail. -/
def Agree (K : Ledger → Database → Prop) (p : EStateM ε Ledger α) (q : EStateM ε Database α) :
    Prop := ∀ l db, Mirrors l db → SameResult K (p l) (q db)

def Unrelated : Ledger → Database → Prop := fun _ _ => True

namespace SameResult

variable {K K' : Ledger → Database → Prop}

theorem mono {r : EStateM.Result ε Ledger α} {r' : EStateM.Result ε Database α}
    (h : SameResult K r r') (hK : ∀ l db, K l db → K' l db) : SameResult K' r r' := by
  cases h with
  | ok h => exact .ok h
  | error h => exact .error (hK _ _ h)

theorem weaken {r : EStateM.Result ε Ledger α} {r' : EStateM.Result ε Database α}
    (h : SameResult K r r') : SameResult Unrelated r r' := h.mono fun _ _ _ => trivial

theorem of_error {e : ε} {l l₁ : Ledger} {r' : EStateM.Result ε Database α}
    (h : SameResult K (.error e l) r') : SameResult Unrelated (.error e l₁) r' := by
  cases h with
  | error h => exact .error trivial

theorem exists_ledger {r : EStateM.Result ε Ledger α} {a : α} {db : Database}
    (h : SameResult K r (.ok a db)) : ∃ l, r = .ok a l ∧ Mirrors l db := by
  cases h with
  | ok hm => exact ⟨_, rfl, hm⟩

theorem exists_database {r' : EStateM.Result ε Database α} {a : α} {l : Ledger}
    (h : SameResult K (.ok a l) r') : ∃ db, r' = .ok a db ∧ Mirrors l db := by
  cases h with
  | ok hm => exact ⟨_, rfl, hm⟩

theorem ite {c : Prop} [Decidable c] {r₁ r₂ : EStateM.Result ε Ledger α}
    {r₁' r₂' : EStateM.Result ε Database α} (h₁ : SameResult K r₁ r₁')
    (h₂ : SameResult K r₂ r₂') :
    SameResult K (if c then r₁ else r₂) (if c then r₁' else r₂') := by
  by_cases h : c
  · rwa [if_pos h, if_pos h]
  · rwa [if_neg h, if_neg h]

end SameResult

namespace Agree

variable {K K' : Ledger → Database → Prop}

theorem mono {p : EStateM ε Ledger α} {q : EStateM ε Database α} (h : Agree K p q)
    (hK : ∀ l db, K l db → K' l db) : Agree K' p q := fun l db hm => (h l db hm).mono hK

theorem weaken {p : EStateM ε Ledger α} {q : EStateM ε Database α} (h : Agree K p q) :
    Agree Unrelated p q := fun l db hm => (h l db hm).weaken

theorem pure (a : α) : Agree K (pure a : EStateM ε Ledger α) (pure a : EStateM ε Database α) :=
  fun _ _ h => .ok h

theorem throw (e : ε) :
    Agree Mirrors (throw e : EStateM ε Ledger α) (throw e : EStateM ε Database α) :=
  fun _ _ h => .error h

theorem bind {p : EStateM ε Ledger α} {q : EStateM ε Database α} {f : α → EStateM ε Ledger β}
    {g : α → EStateM ε Database β} (hp : Agree K p q) (hf : ∀ a, Agree K (f a) (g a)) :
    Agree K (p >>= f) (q >>= g) := by
  intro l db h
  have hpq := hp l db h
  rw [bind_apply, bind_apply]
  generalize p l = r, q db = r' at hpq
  cases hpq with
  | ok h' => exact hf _ _ _ h'
  | error h' => exact .error h'

theorem ite {c : Prop} [Decidable c] {p p' : EStateM ε Ledger α} {q q' : EStateM ε Database α}
    (h : Agree K p q) (h' : Agree K p' q') :
    Agree K (if c then p else p') (if c then q else q') := by
  by_cases hc : c
  · rwa [if_pos hc, if_pos hc]
  · rwa [if_neg hc, if_neg hc]

theorem forM {f : β → EStateM ε Ledger PUnit} {g : β → EStateM ε Database PUnit} {xs : List β}
    (h : ∀ x ∈ xs, Agree K (f x) (g x)) : Agree K (xs.forM f) (xs.forM g) := by
  induction xs with
  | nil => exact pure _
  | cons x xs ih =>
    have hxs := ih fun y hy => h y (List.mem_cons_of_mem x hy)
    exact bind (h x List.mem_cons_self) fun _ => hxs

theorem mapM {f : β → EStateM ε Ledger α} {g : β → EStateM ε Database α} {xs : List β}
    (h : ∀ x ∈ xs, Agree K (f x) (g x)) : Agree K (xs.mapM f) (xs.mapM g) := by
  induction xs with
  | nil => exact pure _
  | cons x xs ih =>
    have hxs := ih fun y hy => h y (List.mem_cons_of_mem x hy)
    rw [List.mapM_cons, List.mapM_cons]
    exact bind (h x List.mem_cons_self) fun _ => bind hxs fun _ => pure _

theorem foldlM {f : α → β → EStateM ε Ledger α} {g : α → β → EStateM ε Database α} {xs : List β}
    (h : ∀ a, ∀ x ∈ xs, Agree K (f a x) (g a x)) (a : α) :
    Agree K (xs.foldlM f a) (xs.foldlM g a) := by
  induction xs generalizing a with
  | nil => exact pure _
  | cons x xs ih =>
    have hxs := ih fun a y hy => h a y (List.mem_cons_of_mem x hy)
    rw [List.foldlM_cons, List.foldlM_cons]
    exact bind (h a x List.mem_cons_self) hxs

/-- What a database does without a fault, the ledger that it holds does. -/
theorem exists_ledger {p : EStateM ε Ledger α} {q : EStateM ε Database α} {l : Ledger}
    {db db' : Database} {a : α} (h : Agree K p q) (hm : Mirrors l db) (hq : q db = .ok a db') :
    ∃ l', p l = .ok a l' ∧ Mirrors l' db' := by
  have hpq := h l db hm
  rw [hq] at hpq
  exact hpq.exists_ledger

/-- What a ledger does without a fault, a database that holds it does. -/
theorem exists_database {p : EStateM ε Ledger α} {q : EStateM ε Database α} {l l' : Ledger}
    {db : Database} {a : α} (h : Agree K p q) (hm : Mirrors l db) (hp : p l = .ok a l') :
    ∃ db', q db = .ok a db' ∧ Mirrors l' db' := by
  have hpq := h l db hm
  rw [hp] at hpq
  exact hpq.exists_database

theorem exists_error {p : EStateM ε Ledger α} {q : EStateM ε Database α} {l l' : Ledger}
    {db : Database} {e : ε} (h : Agree K p q) (hm : Mirrors l db) (hp : p l = .error e l') :
    ∃ db', q db = .error e db' := by
  have hpq := h l db hm
  rw [hp] at hpq
  generalize q db = r at hpq ⊢
  cases hpq with
  | error _ => exact ⟨_, rfl⟩

theorem read {f : Ledger → Except StoreFault α} {g : Database → Except StoreFault α}
    (h : ∀ l db, Mirrors l db → f l = g db) : Agree Mirrors (Step.read f) (Step.read g) := by
  intro l db hm
  have hfg := h l db hm
  unfold Step.read Step.stored Edit.read
  rw [hfg]
  cases g db with
  | ok a => exact .ok hm
  | error e => exact .error hm

theorem consistent {p : Edit Ledger α} {q : Edit Database α} (h : Agree K p q) :
    Agree K (Step.consistent p) (Step.consistent q) := by
  intro l db hm
  have hpq := h l db hm
  unfold Step.consistent
  generalize p l = r, q db = r' at hpq
  cases hpq with
  | ok h' => exact .ok h'
  | error h' => exact .error h'

theorem stored {p : Edit Ledger α} {q : Edit Database α} (h : Agree K p q) :
    Agree K (Step.stored p) (Step.stored q) := by
  intro l db hm
  have hpq := h l db hm
  unfold Step.stored
  generalize p l = r, q db = r' at hpq
  cases hpq with
  | ok h' => exact .ok h'
  | error h' => exact .error h'

/-- Where a whole step is dropped on a fault, it does not matter what it left. -/
theorem atomically {p : Step Ledger α} {q : Step Database α} (h : Agree K p q) :
    Agree Mirrors (Step.atomically p) (Step.atomically q) := by
  intro l db hm
  have hpq := h l db hm
  unfold Step.atomically
  generalize p l = r, q db = r' at hpq
  cases hpq with
  | ok h' => exact .ok h'
  | error _ => exact .error hm

end Agree

end CivicLedger.Database
