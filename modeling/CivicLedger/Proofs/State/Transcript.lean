import CivicLedger.Proofs.Operation.Payload
import CivicLedger.State.Inventory

/-!
# Transcripts are told apart

A section of a transcript is read back from its frame, whatever follows it, and the members of a
section from its bytes. Where the lengths can be written, two inventories of one transcript are
therefore the same.
-/

namespace CivicLedger

open Wire

namespace Wire

variable {α β : Type}

/-- Values written by `f` are read back by `r` where their lengths can be written. -/
structure Readable (r : Reader α) (f : α → Bytes) : Prop where
  pos : ∀ a, 0 < (f a).length
  reads : ∀ a, FitsLength (f a).length → Reads r (f a) a

namespace Readable

variable {r : Reader α} {f : α → Bytes}

theorem injective (h : Readable r f) {a b : α} (ha : FitsLength (f a).length)
    (heq : f a = f b) : a = b := by
  have hb : FitsLength (f b).length := by rwa [← heq]
  exact ((h.reads a ha).unique (h.reads b hb) (congrArg (· ++ []) heq)).1

theorem list (h : Readable r f) : Readable (Wire.list r) (ofList f) where
  pos l := by
    rw [length_ofList]
    omega
  reads l hl := by
    rw [length_ofList] at hl
    refine reads_list ?_ fun a ha => h.reads a ?_
    · have hle := length_le_flatMap h.pos l
      exact hl.of_le (by omega)
    · have hle := length_le_flatMap_of_mem (f := f) ha
      exact hl.of_le (by omega)

theorem option (h : Readable r f) : Readable (Wire.option r) (ofOption f) where
  pos o := by cases o <;> exact Nat.succ_pos _
  reads o ho := by
    refine reads_option ?_
    rintro a rfl
    exact h.reads a (ho.of_le (Nat.le_succ _))

/-- A value after an address. -/
theorem keyed (h : Readable r f) :
    Readable (key >>= fun k => r >>= fun a => pure (k, a)) fun e => ofKey e.1 ++ f e.2 where
  pos e := by
    have hpos := h.pos e.2
    rw [List.length_append]
    omega
  reads e he := by
    rw [List.length_append] at he
    exact (reads_key e.1).bind ((h.reads e.2 (he.of_le (by omega))).map (Prod.mk e.1))

end Readable

/-- What is written one after another is told apart from its front. -/
theorem flatMap_injective {r : Reader α} {f : α → Bytes} (hpos : ∀ a, 0 < (f a).length)
    {l l' : List α} (hl : ∀ a ∈ l, Reads r (f a) a) (hl' : ∀ a ∈ l', Reads r (f a) a)
    (heq : l.flatMap f = l'.flatMap f) : l = l' := by
  induction l generalizing l' with
  | nil =>
    cases l' with
    | nil => rfl
    | cons b l' =>
      have hb := hpos b
      have hlength := congrArg List.length heq
      simp only [List.flatMap_nil, List.flatMap_cons, List.length_append, List.length_nil]
        at hlength
      omega
  | cons a l ih =>
    cases l' with
    | nil =>
      have ha := hpos a
      have hlength := congrArg List.length heq
      simp only [List.flatMap_nil, List.flatMap_cons, List.length_append, List.length_nil]
        at hlength
      omega
    | cons b l' =>
      rw [List.flatMap_cons, List.flatMap_cons] at heq
      have ha := hl a List.mem_cons_self
      have hb := hl' b List.mem_cons_self
      obtain ⟨rfl, hrest⟩ := ha.unique hb heq
      rw [ih (fun x hx => hl x (List.mem_cons_of_mem a hx))
        (fun x hx => hl' x (List.mem_cons_of_mem a hx)) hrest]

theorem readable_key : Readable key ofKey where
  pos k := by
    rw [show (ofKey k).length = 20 from k.bytes.property]
    omega
  reads k _ := reads_key k

theorem length_ofUInt64LE (x : UInt64) : (Bytes.ofUInt64LE x).length = 8 :=
  Bytes.length_ofNatLE _ _

theorem readable_word64 : Readable word64 Bytes.ofUInt64LE where
  pos x := by
    rw [length_ofUInt64LE]
    omega
  reads x _ := reads_word64 x

theorem readable_text : Readable text ofText where
  pos s := by
    rw [length_ofText]
    omega
  reads s h := reads_text (Payload.fitsText_of_le h (Nat.le_refl _))

theorem readable_delegate : Readable Delegate.reader Delegate.toBytes where
  pos d := by
    simp only [Delegate.toBytes, List.length_append, length_ofUInt64LE]
    omega
  reads d h := by
    simp only [Delegate.toBytes, List.length_append] at h
    exact Delegate.reads (Payload.fitsText_of_le h (by omega))

theorem readable_committee : Readable Committee.reader Committee.toBytes where
  pos c := by
    simp only [Committee.toBytes, List.length_append, length_ofUInt64LE]
    omega
  reads c h := by
    simp only [Committee.toBytes, List.length_append] at h
    exact Committee.reads ⟨Payload.fitsText_of_le h (by omega), Payload.fitsText_of_le h (by omega)⟩

theorem readable_bill : Readable Bill.reader Bill.toBytes where
  pos b := by
    simp only [Bill.toBytes, List.length_append, length_ofUInt64LE]
    omega
  reads b h := by
    simp only [Bill.toBytes, List.length_append] at h
    obtain ⟨hcount, hoptions⟩ := Payload.fitsLength_options (h.of_le (by omega) : FitsLength
      (ofList ofText b.options).length)
    exact Bill.reads ⟨Payload.fitsText_of_le h (by omega), Payload.fitsText_of_le h (by omega),
      Payload.fitsText_of_le h (by omega), hcount, hoptions⟩

theorem readable_ballot : Readable Ballot.reader Ballot.toBytes where
  pos _ := Nat.succ_pos _
  reads b _ := Ballot.reads b

theorem readable_settlement : Readable Settlement.reader Settlement.toBytes where
  pos s := by
    simp only [Settlement.toBytes, List.length_append, length_ofUInt64LE]
    omega
  reads s h := by
    simp only [Settlement.toBytes, List.length_append, length_ofList] at h
    have hle := length_le_flatMap readable_word64.pos s.totals
    exact Settlement.reads (h.of_le (by omega))

theorem readable_token : Readable Token.reader Token.toBytes where
  pos t := by
    simp only [Token.toBytes, List.length_append, length_ofUInt64LE]
    omega
  reads t h := by
    simp only [Token.toBytes, List.length_append] at h
    exact Token.reads ⟨Payload.fitsText_of_le h (by omega), Payload.fitsText_of_le h (by omega)⟩

end Wire

def TokenLock.reader : Reader TokenLock := do
  let token ← Wire.token
  let holder ← Wire.key
  let expiry ← Wire.word64
  return ⟨token, holder, expiry, ← Wire.word64⟩

theorem Wire.readable_lock : Readable TokenLock.reader TokenLock.toBytes where
  pos l := by
    simp only [TokenLock.toBytes, List.length_append, length_ofUInt64LE]
    omega
  reads l _ := by
    unfold TokenLock.toBytes
    simp only [List.append_assoc]
    exact (reads_token l.token).bind ((reads_key l.holder).bind ((reads_word64 l.expiry).bind
      ((reads_word64 l.amount).map _)))

namespace Inventory

def sectionReader : Reader (String × Bytes) := do
  let tag ← text
  return (tag, ← take (← number 8) .endOfData)

theorem reads_frame {e : String × Bytes} (htag : FitsText e.1) (h : FitsLength e.2.length) :
    Reads sectionReader (frame e) e := by
  unfold frame
  rw [List.append_assoc]
  have hbytes : Reads (take e.2.length .endOfData) e.2 e.2 := reads_take e.2 .endOfData
  exact (reads_text htag).bind ((reads_length h).bind (hbytes.map (Prod.mk e.1)))

def Sized (v : Inventory) : Prop := ∀ e ∈ v.sections, FitsLength e.2.length

instance (v : Inventory) : Decidable v.Sized :=
  inferInstanceAs (Decidable (∀ e ∈ v.sections, e.2.length < UInt64.size))

theorem fitsText_tag {v : Inventory} {e : String × Bytes} (h : e ∈ v.sections) : FitsText e.1 := by
  have hfits : ∀ t ∈ ["delegates", "delegate_voters", "committees", "committee_voters", "bills",
      "bill_votes", "bill_state", "names", "tokens", "token_holders", "token_locks"],
      (utf8 t).length < UInt64.size := by decide
  simp only [sections, List.mem_append, List.mem_map, List.mem_flatMap, List.mem_cons,
    List.not_mem_nil, or_false] at h
  rcases h with ((((((((rfl | ⟨x, hx, rfl⟩) | rfl) | ⟨x, hx, rfl⟩) | rfl) |
    ⟨x, hx, rfl | rfl⟩) | rfl) | rfl) | ⟨x, hx, rfl | rfl⟩) <;> exact hfits _ (by simp)

/-- One transcript has one list of sections. -/
theorem sections_of_transcript {v w : Inventory} (hv : v.Sized) (hw : w.Sized)
    (h : v.transcript = w.transcript) : v.sections = w.sections := by
  refine flatMap_injective (r := sectionReader) (fun e => ?_) ?_ ?_ h
  · unfold frame
    rw [List.length_append, List.length_append, length_ofText]
    omega
  · intro e he
    exact reads_frame (fitsText_tag he) (hv e he)
  · intro e he
    exact reads_frame (fitsText_tag he) (hw e he)

/-- The sections of one group are told apart from those behind them. -/
theorem map_of_flatMap {α : Type} {f : α → List (String × Bytes)} {n : Nat}
    {l l' : List α} {rest rest' : List (String × Bytes)} (hlength : l.length = l'.length)
    (h : l.flatMap f ++ rest = l'.flatMap f ++ rest') (hn : ∀ a, (f a).length = n) :
    l.map f = l'.map f ∧ rest = rest' := by
  induction l generalizing l' with
  | nil =>
    cases l' with
    | nil => exact ⟨rfl, h⟩
    | cons b l' => cases hlength
  | cons a l ih =>
    cases l' with
    | nil => cases hlength
    | cons b l' =>
      rw [List.flatMap_cons, List.flatMap_cons, List.append_assoc, List.append_assoc] at h
      obtain ⟨hfirst, hrest⟩ := List.append_inj h ((hn a).trans (hn b).symm)
      obtain ⟨hmap, hbehind⟩ := ih (Nat.succ.inj hlength) hrest
      rw [List.map_cons, List.map_cons, hfirst, hmap]
      exact ⟨rfl, hbehind⟩

/-- The records at the head of a group are read from their section. -/
theorem fst_of_section {α β : Type} {r : Reader α} {f : α → Bytes} (hr : Readable r f)
    {l l' : List (α × β)} (hfits : FitsLength (ofList (fun e => f e.1) l).length)
    (h : ofList (fun e : α × β => f e.1) l = ofList (fun e => f e.1) l') :
    l.map Prod.fst = l'.map Prod.fst := by
  have hmap (l : List (α × β)) : ofList (fun e => f e.1) l = ofList f (l.map Prod.fst) := by
    simp [ofList, List.flatMap_map]
  rw [hmap] at hfits
  rw [hmap, hmap] at h
  exact hr.list.injective hfits h

/-- The entries are the records with what their sections say. -/
theorem eq_of_map {α β γ : Type} {f : β → γ} {l l' : List (α × β)}
    (hf : ∀ e ∈ l, ∀ y, f e.2 = f y → e.2 = y) (hfst : l.map Prod.fst = l'.map Prod.fst)
    (h : l.map (fun e => f e.2) = l'.map fun e => f e.2) : l = l' := by
  induction l generalizing l' with
  | nil =>
    cases l' with
    | nil => rfl
    | cons b l' => cases hfst
  | cons a l ih =>
    cases l' with
    | nil => cases hfst
    | cons b l' =>
      simp only [List.map_cons, List.cons.injEq] at hfst h
      have hsnd := hf a List.mem_cons_self b.2 h.1
      rw [Prod.ext hfst.1 hsnd, ih (fun e he => hf e (List.mem_cons_of_mem a he)) hfst.2 h.2]

/-- A group of sections, the records first and then what belongs to each of them, is read and told
apart from what is behind it. -/
theorem eq_of_group {α β : Type} {r : Reader α} {f : α → Bytes} {g : β → List (String × Bytes)}
    {n : Nat} {l l' : List (α × β)} {rest rest' : List (String × Bytes)} (hr : Readable r f)
    (hfits : FitsLength (ofList (fun e => f e.1) l).length)
    (hrecords : ofList (fun e : α × β => f e.1) l = ofList (fun e => f e.1) l')
    (h : (l.flatMap fun e => g e.2) ++ rest = (l'.flatMap fun e => g e.2) ++ rest')
    (hn : ∀ y, (g y).length = n) (hg : ∀ e ∈ l, ∀ y, g e.2 = g y → e.2 = y) :
    l = l' ∧ rest = rest' := by
  have hfst := fst_of_section hr hfits hrecords
  have hlength : l.length = l'.length := by simpa using congrArg List.length hfst
  obtain ⟨hmap, hrest⟩ := map_of_flatMap hlength h fun e => hn e.2
  exact ⟨eq_of_map hg hfst hmap, hrest⟩

namespace Sized

variable {v : Inventory}

theorem delegateVoters (h : v.Sized) {e : Delegate × List KeyId} (he : e ∈ v.delegates) :
    FitsLength (ofList ofKey e.2).length := by
  refine h ("delegate_voters", _) ?_
  simp only [sections, List.mem_append, List.mem_map]
  exact .inl (.inl (.inl (.inl (.inl (.inl (.inl (.inr ⟨e, he, rfl⟩)))))))

theorem committeeVoters (h : v.Sized) {e : Committee × List KeyId} (he : e ∈ v.committees) :
    FitsLength (ofList ofKey e.2).length := by
  refine h ("committee_voters", _) ?_
  simp only [sections, List.mem_append, List.mem_map]
  exact .inl (.inl (.inl (.inl (.inl (.inr ⟨e, he, rfl⟩)))))

theorem bill (h : v.Sized) {e : Bill × List (KeyId × Ballot) × Option Settlement}
    (he : e ∈ v.bills) : FitsLength (ofList ofVote e.2.1).length ∧
      FitsLength (ofOption Settlement.toBytes e.2.2).length := by
  constructor
  · refine h ("bill_votes", _) ?_
    simp only [sections, List.mem_append, List.mem_flatMap]
    exact .inl (.inl (.inl (.inr ⟨e, he, List.mem_cons_self⟩)))
  · refine h ("bill_state", _) ?_
    simp only [sections, List.mem_append, List.mem_flatMap]
    exact .inl (.inl (.inl (.inr ⟨e, he, List.mem_cons_of_mem _ List.mem_cons_self⟩)))

theorem token (h : v.Sized) {e : Token × List (KeyId × UInt64) × List TokenLock}
    (he : e ∈ v.tokens) : FitsLength (ofList ofAmount e.2.1).length ∧
      FitsLength (ofList TokenLock.toBytes e.2.2).length := by
  constructor
  · refine h ("token_holders", _) ?_
    simp only [sections, List.mem_append, List.mem_flatMap]
    exact .inr ⟨e, he, List.mem_cons_self⟩
  · refine h ("token_locks", _) ?_
    simp only [sections, List.mem_append, List.mem_flatMap]
    exact .inr ⟨e, he, List.mem_cons_of_mem _ List.mem_cons_self⟩

end Sized

/-- Sections are read from the front: the records of a kind say how many sections follow. -/
theorem eq_of_sections {v w : Inventory} (hv : v.Sized) (h : v.sections = w.sections) : v = w := by
  simp only [sections, List.map_eq_flatMap, List.append_assoc, List.cons_append, List.nil_append,
    List.cons.injEq, Prod.mk.injEq, true_and] at h
  obtain ⟨hdelegates, h⟩ := h
  obtain ⟨hdelegates, h⟩ := eq_of_group (n := 1)
    (g := fun ks => [("delegate_voters", ofList ofKey ks)]) readable_delegate
    (hv ("delegates", ofList (fun e => e.1.toBytes) v.delegates) (by simp [sections]))
    hdelegates h (fun _ => rfl) fun e he ks hks => by
      simp only [List.cons.injEq, Prod.mk.injEq, true_and, and_true] at hks
      exact readable_key.list.injective (hv.delegateVoters he) hks
  simp only [List.cons.injEq, Prod.mk.injEq, true_and] at h
  obtain ⟨hcommittees, h⟩ := h
  obtain ⟨hcommittees, h⟩ := eq_of_group (n := 1)
    (g := fun ks => [("committee_voters", ofList ofKey ks)]) readable_committee
    (hv ("committees", ofList (fun e => e.1.toBytes) v.committees) (by simp [sections]))
    hcommittees h (fun _ => rfl) fun e he ks hks => by
      simp only [List.cons.injEq, Prod.mk.injEq, true_and, and_true] at hks
      exact readable_key.list.injective (hv.committeeVoters he) hks
  simp only [List.cons.injEq, Prod.mk.injEq, true_and] at h
  obtain ⟨hbills, h⟩ := h
  obtain ⟨hbills, h⟩ := eq_of_group (n := 2)
    (g := fun x => [("bill_votes", ofList ofVote x.1),
      ("bill_state", ofOption Settlement.toBytes x.2)]) readable_bill
    (hv ("bills", ofList (fun e => e.1.toBytes) v.bills) (by simp [sections]))
    hbills h (fun _ => rfl) fun e he x hx => by
      simp only [List.cons.injEq, Prod.mk.injEq, true_and, and_true] at hx
      exact Prod.ext (readable_ballot.keyed.list.injective (hv.bill he).1 hx.1)
        (readable_settlement.option.injective (hv.bill he).2 hx.2)
  simp only [List.cons.injEq, Prod.mk.injEq, true_and] at h
  obtain ⟨hnames, htokens, h⟩ := h
  have hnames : v.names = w.names := readable_text.keyed.list.injective
    (hv ("names", ofList ofName v.names) (by simp [sections])) hnames
  rw [← List.append_nil (List.flatMap _ v.tokens), ← List.append_nil (List.flatMap _ w.tokens)] at h
  obtain ⟨htokens, _⟩ := eq_of_group (n := 2)
    (g := fun x => [("token_holders", ofList ofAmount x.1),
      ("token_locks", ofList TokenLock.toBytes x.2)]) readable_token
    (hv ("tokens", ofList (fun e => e.1.toBytes) v.tokens) (by simp [sections]))
    htokens h (fun _ => rfl) fun e he x hx => by
      simp only [List.cons.injEq, Prod.mk.injEq, true_and, and_true] at hx
      exact Prod.ext (readable_word64.keyed.list.injective (hv.token he).1 hx.1)
        (readable_lock.list.injective (hv.token he).2 hx.2)
  cases v
  cases w
  simp only [Inventory.mk.injEq]
  exact ⟨hdelegates, hcommittees, hbills, hnames, htokens⟩

/-- One transcript has one inventory. -/
theorem eq_of_transcript {v w : Inventory} (hv : v.Sized) (hw : w.Sized)
    (h : v.transcript = w.transcript) : v = w :=
  eq_of_sections hv (sections_of_transcript hv hw h)

end Inventory

end CivicLedger
