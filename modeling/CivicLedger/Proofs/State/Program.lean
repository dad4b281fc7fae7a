import CivicLedger.Chain.Fault

/-!
# Programs that change a state

What a program of edits or steps does, read from its parts: how it runs, which parts of the state it
keeps, and which invariants, whether it succeeds or fails.
-/

namespace CivicLedger.Program

variable {ε σ α β γ : Type}

def left : EStateM.Result ε σ α → σ
  | .ok _ s => s
  | .error _ s => s

theorem bind_apply (p : EStateM ε σ α) (f : α → EStateM ε σ β) (s : σ) :
    (p >>= f) s = match p s with
      | .ok a s' => f a s'
      | .error e s' => .error e s' := rfl

@[simp] theorem pure_apply (a : α) (s : σ) : (pure a : EStateM ε σ α) s = .ok a s := rfl
@[simp] theorem throw_apply (e : ε) (s : σ) : (throw e : EStateM ε σ α) s = .error e s := rfl
@[simp] theorem get_apply (s : σ) : (get : EStateM ε σ σ) s = .ok s s := rfl
@[simp] theorem set_apply (t s : σ) : (set t : EStateM ε σ PUnit) s = .ok ⟨⟩ t := rfl
@[simp] theorem modify_apply (f : σ → σ) (s : σ) :
    (modify f : EStateM ε σ PUnit) s = .ok ⟨⟩ (f s) := rfl

/-- What the first part of a program gives, the second one takes. -/
theorem bind_ok {p : EStateM ε σ α} {s s' : σ} {a : α} (h : p s = .ok a s')
    (f : α → EStateM ε σ β) : (p >>= f) s = f a s' := by
  rw [bind_apply, h]

theorem bind_error {p : EStateM ε σ α} {s s' : σ} {e : ε} (h : p s = .error e s')
    (f : α → EStateM ε σ β) : (p >>= f) s = .error e s' := by
  rw [bind_apply, h]

theorem bind_eq_ok {p : EStateM ε σ α} {f : α → EStateM ε σ β} {s s' : σ} {b : β} :
    (p >>= f) s = .ok b s' ↔ ∃ a t, p s = .ok a t ∧ f a t = .ok b s' := by
  rw [bind_apply]
  constructor
  · intro h
    cases hp : p s with
    | ok a t => exact ⟨a, t, rfl, by rwa [hp] at h⟩
    | error e t => rw [hp] at h; cases h
  · rintro ⟨a, t, hp, hf⟩
    rw [hp]
    exact hf

theorem pure_eq_ok {a b : α} {s s' : σ} :
    (pure a : EStateM ε σ α) s = .ok b s' ↔ a = b ∧ s = s' := by
  simp

theorem mapM_cons_ok {f : α → EStateM ε σ β} {x : α} {xs : List α} {y : β} {ys : List β}
    {s t s' : σ} (hx : f x s = .ok y t) (hxs : xs.mapM f t = .ok ys s') :
    (x :: xs).mapM f s = .ok (y :: ys) s' := by
  rw [List.mapM_cons]
  exact (bind_ok hx _).trans ((bind_ok hxs _).trans rfl)

theorem mapM_cons_eq_ok {f : α → EStateM ε σ β} {x : α} {xs : List α} {zs : List β} {s s' : σ} :
    (x :: xs).mapM f s = .ok zs s' ↔
      ∃ y ys t, f x s = .ok y t ∧ xs.mapM f t = .ok ys s' ∧ zs = y :: ys := by
  constructor
  · intro h
    rw [List.mapM_cons] at h
    obtain ⟨y, t, hx, h⟩ := bind_eq_ok.mp h
    obtain ⟨ys, t', hxs, h⟩ := bind_eq_ok.mp h
    obtain ⟨rfl, rfl⟩ := pure_eq_ok.mp h
    exact ⟨y, ys, t, hx, hxs, rfl⟩
  · rintro ⟨y, ys, t, hx, hxs, rfl⟩
    exact mapM_cons_ok hx hxs

theorem length_of_mapM {f : α → EStateM ε σ β} {xs : List α} {ys : List β} {s s' : σ}
    (h : xs.mapM f s = .ok ys s') : ys.length = xs.length := by
  induction xs generalizing s ys with
  | nil =>
    cases h
    rfl
  | cons x xs ih =>
    obtain ⟨y, rest, t, _, hrest, rfl⟩ := mapM_cons_eq_ok.mp h
    exact congrArg Nat.succ (ih hrest)

theorem left_bind_pure (p : EStateM ε σ α) (f : α → β) (s : σ) :
    left ((p >>= fun a => pure (f a)) s) = left (p s) := by
  rw [bind_apply]
  cases p s <;> rfl

/-- A part of the state that `p` leaves as it is, whether it succeeds or fails. -/
def Keeps (f : σ → γ) (p : EStateM ε σ α) : Prop := ∀ s, f (left (p s)) = f s

namespace Keeps

variable {f : σ → γ}

theorem pure (a : α) : Keeps f (pure a : EStateM ε σ α) := fun _ => rfl

theorem bind {p : EStateM ε σ α} {g : α → EStateM ε σ β} (hp : Keeps f p)
    (hg : ∀ a, Keeps f (g a)) : Keeps f (p >>= g) := by
  intro s
  have hs := hp s
  rw [bind_apply]
  cases h : p s with
  | ok a t => rw [h] at hs; exact (hg a t).trans hs
  | error e t => rw [h] at hs; exact hs

theorem forM {g : β → EStateM ε σ PUnit} {l : List β} (hg : ∀ x ∈ l, Keeps f (g x)) :
    Keeps f (l.forM g) := by
  induction l with
  | nil => exact pure _
  | cons x l ih =>
    have hx := hg x List.mem_cons_self
    have hl := ih fun y hy => hg y (List.mem_cons_of_mem x hy)
    exact bind hx fun _ => hl

theorem mapM {g : β → EStateM ε σ α} {l : List β} (hg : ∀ x ∈ l, Keeps f (g x)) :
    Keeps f (l.mapM g) := by
  induction l with
  | nil => exact pure _
  | cons x l ih =>
    have hx := hg x List.mem_cons_self
    have hl := ih fun y hy => hg y (List.mem_cons_of_mem x hy)
    rw [List.mapM_cons]
    exact bind hx fun _ => bind hl fun _ => pure _

theorem throw (e : ε) : Keeps f (throw e : EStateM ε σ α) := fun _ => rfl

theorem of_ok {p : EStateM ε σ α} {s t : σ} {a : α} (hp : Keeps f p) (h : p s = .ok a t) :
    f t = f s := by
  have hs := hp s
  rwa [h] at hs

theorem edit_read (g : σ → Except StoreFault α) : Keeps f (Edit.read g) := by
  intro s
  unfold Edit.read
  cases g s <;> rfl

theorem consistent {e : Edit σ α} (he : Keeps f e) : Keeps f (Step.consistent e) := by
  intro s
  have hs := he s
  unfold Step.consistent
  cases h : e s with
  | ok a t => rw [h] at hs; exact hs
  | error fault t => rw [h] at hs; exact hs

theorem stored {e : Edit σ α} (he : Keeps f e) : Keeps f (Step.stored e) := by
  intro s
  have hs := he s
  unfold Step.stored
  cases h : e s with
  | ok a t => rw [h] at hs; exact hs
  | error fault t => rw [h] at hs; exact hs

theorem read (g : σ → Except StoreFault α) : Keeps f (Step.read g) := stored (edit_read g)

end Keeps

def Preserves (I : σ → Prop) (p : EStateM ε σ α) : Prop := ∀ s, I s → I (left (p s))

namespace Preserves

variable {I : σ → Prop}

theorem pure (a : α) : Preserves I (pure a : EStateM ε σ α) := fun _ hs => hs

theorem bind {p : EStateM ε σ α} {f : α → EStateM ε σ β} (hp : Preserves I p)
    (hf : ∀ a, Preserves I (f a)) : Preserves I (p >>= f) := by
  intro s hs
  have hmid := hp s hs
  rw [bind_apply]
  cases h : p s with
  | ok a t => rw [h] at hmid; exact hf a t hmid
  | error e t => rw [h] at hmid; exact hmid

theorem forM {f : β → EStateM ε σ PUnit} {l : List β} (hf : ∀ x ∈ l, Preserves I (f x)) :
    Preserves I (l.forM f) := by
  induction l with
  | nil => exact pure _
  | cons x l ih =>
    have hl := ih fun y hy => hf y (List.mem_cons_of_mem x hy)
    exact bind (hf x List.mem_cons_self) fun _ => hl

end Preserves

/-- From a state with `I` the program ends in one with `I`, or fails with `E`. -/
def Ends (I : σ → Prop) (E : ε → σ → Prop) (p : EStateM ε σ α) : Prop :=
  ∀ s, I s → match p s with
    | .ok _ s' => I s'
    | .error e s' => E e s'

namespace Ends

variable {I : σ → Prop} {E : ε → σ → Prop}

theorem of_ok {p : EStateM ε σ α} (h : ∀ s, I s → ∃ a s', p s = .ok a s' ∧ I s') : Ends I E p := by
  intro s hs
  obtain ⟨a, s', hp, hs'⟩ := h s hs
  rw [hp]
  exact hs'

theorem pure (a : α) : Ends I E (pure a : EStateM ε σ α) := fun _ hs => hs

theorem throw {e : ε} (h : ∀ s, I s → E e s) : Ends I E (throw e : EStateM ε σ α) := h

theorem bind {p : EStateM ε σ α} {f : α → EStateM ε σ β} (hp : Ends I E p)
    (hf : ∀ a, Ends I E (f a)) : Ends I E (p >>= f) := by
  intro s hs
  have hmid := hp s hs
  rw [bind_apply]
  cases h : p s with
  | ok a t => rw [h] at hmid; exact hf a t hmid
  | error e t => rw [h] at hmid; exact hmid

theorem mapM {f : β → EStateM ε σ α} {l : List β} (hf : ∀ x ∈ l, Ends I E (f x)) :
    Ends I E (l.mapM f) := by
  induction l with
  | nil => exact pure _
  | cons x l ih =>
    have hx := hf x List.mem_cons_self
    have hl := ih fun y hy => hf y (List.mem_cons_of_mem x hy)
    rw [List.mapM_cons]
    exact bind hx fun _ => bind hl fun _ => pure _

theorem forM {f : β → EStateM ε σ PUnit} {l : List β} (hf : ∀ x ∈ l, Ends I E (f x)) :
    Ends I E (l.forM f) := by
  induction l with
  | nil => exact pure _
  | cons x l ih =>
    have hx := hf x List.mem_cons_self
    have hl := ih fun y hy => hf y (List.mem_cons_of_mem x hy)
    exact bind hx fun _ => hl

theorem foldlM {f : α → β → EStateM ε σ α} {l : List β} (hf : ∀ a, ∀ x ∈ l, Ends I E (f a x))
    (a : α) : Ends I E (l.foldlM f a) := by
  induction l generalizing a with
  | nil => exact pure _
  | cons x l ih =>
    have hx := hf a x List.mem_cons_self
    rw [List.foldlM_cons]
    exact bind hx fun b => ih (fun a y hy => hf a y (List.mem_cons_of_mem x hy)) b

end Ends

theorem consistent_eq_ok {e : Edit σ α} {s s' : σ} {a : α} :
    Step.consistent e s = .ok a s' ↔ e s = .ok a s' := by
  unfold Step.consistent
  cases e s <;> simp

theorem consistent_of_error {e : Edit σ α} {s s' : σ} {fault : StoreFault}
    (h : e s = .error fault s') : Step.consistent e s = .error (ChainFault.ofStore fault) s' := by
  unfold Step.consistent
  rw [h]

theorem stored_of_ok {e : Edit σ α} {s s' : σ} {a : α} (h : e s = .ok a s') :
    Step.stored e s = .ok a s' := by
  unfold Step.stored
  rw [h]

theorem edit_read_of_ok {g : σ → Except StoreFault α} {s : σ} {a : α} (h : g s = .ok a) :
    Edit.read g s = .ok a s := by
  unfold Edit.read
  rw [h]

theorem edit_read_of_error {g : σ → Except StoreFault α} {s : σ} {fault : StoreFault}
    (h : g s = .error fault) : Edit.read g s = .error fault s := by
  unfold Edit.read
  rw [h]

theorem read_of_ok {g : σ → Except StoreFault α} {s : σ} {a : α} (h : g s = .ok a) :
    Step.read g s = .ok a s := by
  unfold Step.read Step.stored
  rw [edit_read_of_ok h]

theorem read_of_error {g : σ → Except StoreFault α} {s : σ} {fault : StoreFault}
    (h : g s = .error fault) : Step.read g s = .error (.storage fault) s := by
  unfold Step.read Step.stored
  rw [edit_read_of_error h]

theorem atomically_eq_ok {p : Step σ α} {s s' : σ} {a : α} :
    Step.atomically p s = .ok a s' ↔ p s = .ok a s' := by
  unfold Step.atomically
  cases p s <;> simp

/-- A step that fails as a whole has changed nothing. -/
theorem atomically_of_error {p : Step σ α} {s s' : σ} {fault : ChainFault}
    (h : Step.atomically p s = .error fault s') : s' = s := by
  unfold Step.atomically at h
  split at h
  · cases h
  · cases h
    rfl

end CivicLedger.Program
