import CivicLedger.Gateway.Command
import CivicLedger.Gateway.Question
import CivicLedger.Proofs.Node.Copies
import CivicLedger.Proofs.Node.Readers

/-!
# Names on either store

Clients name delegates, committees and addresses by any text. A node over memory and one over tables
that took the same updates look a name up alike, unless it is the empty text, which is no key of a
table: from tables it is answered by a fault of the store.
-/

namespace CivicLedger

open Gateway

namespace Desk

variable {σ τ : Type}

def withLedger (d : Desk σ) (t : τ) : Desk τ := ⟨t, d.coins, d.fees, d.tip, d.timeout⟩

variable [LedgerReads σ] [LedgerReads τ] {d : Desk σ} {t : τ}

theorem submit_withLedger (h : Alike d.ledger t) (sender : KeyId) (op : Operation) :
    (d.withLedger t).submit sender op = d.submit sender op := by
  have hassess : assess (d.withLedger t).ledger (d.withLedger t).point sender op =
      assess d.ledger d.point sender op := (h.assess op).symm
  have hprepare : (d.withLedger t).prepare sender op = d.prepare sender op := by
    rw [prepare, prepare, hassess]
    rfl
  have hbroadcast : (d.withLedger t).broadcast sender op = d.broadcast sender op := by
    funext w
    rw [broadcast, broadcast, hprepare]
    rfl
  funext o
  rw [submit, submit, hbroadcast]

theorem delegateAddresses_withLedger (h : Alike d.ledger t) {names : List String}
    (hnames : "" ∉ names) (seen : List String) :
    (d.withLedger t).delegateAddresses seen names = d.delegateAddresses seen names := by
  induction names generalizing seen with
  | nil => rfl
  | cons name rest ih =>
    rw [List.mem_cons, not_or] at hnames
    have hread : (d.withLedger t).read (LedgerReads.delegateNamed? · name) =
        d.read (LedgerReads.delegateNamed? · name) := by
      simp only [read, withLedger, ← h.delegateNamed? name (Ne.symm hnames.1)]
    rw [delegateAddresses, delegateAddresses, hread, ih hnames.2]

theorem delegateSet_withLedger (h : Alike d.ledger t) {names : List String}
    (hnames : "" ∉ names) :
    (d.withLedger t).delegateSet names = d.delegateSet names := by
  rw [delegateSet, delegateSet, delegateAddresses_withLedger h hnames]

theorem committeeAddress_withLedger (h : Alike d.ledger t) {text : String} (htext : text ≠ "") :
    (d.withLedger t).committeeAddress text = d.committeeAddress text := by
  have hread : (d.withLedger t).read (LedgerReads.committeeNamed? · text) =
      d.read (LedgerReads.committeeNamed? · text) := by
    simp only [read, withLedger, ← h.committeeNamed? text htext]
  rw [committeeAddress, committeeAddress, hread]

end Desk

namespace Gateway

def Command.byName : List Command := [.vote, .cancelVote, .voteCommittee, .cancelVoteCommittee]

def nameCalls : List String :=
  Question.byName.map Question.name ++ Command.byName.map Command.name

/-- The names that such a call is given: any number of delegates or one committee after the sender
of a command, one name first in a question. -/
def namesIn (method : String) (p : Arguments) : List String :=
  match Command.ofName? method with
  | some .vote | some .cancelVote => (Arguments.restTexts p 1 "delegate names").toOption.getD []
  | some .voteCommittee | some .cancelVoteCommittee =>
    (Arguments.text p 1 "committee").toOption.toList
  | some _ => []
  | none => (Arguments.text p 0 "name").toOption.toList

theorem Question.ofName?_name (q : Question) : ofName? q.name = some q := by
  cases q <;> decide

theorem Arguments.text_of_at? {p : Arguments} {i : Nat} {n : String} (label : String)
    (h : Arguments.at? p i = some (.text n)) : Arguments.text p i label = .ok n := by
  rw [Arguments.text, Arguments.text?, h]
  rfl

section

variable {σ τ : Type} [LedgerReads σ] [LedgerReads τ] {d : Desk σ} {t : τ} {p : Arguments}

theorem argument_bind_congr {α β : Type} {a : Answer α} {f g : α → Command.Call β}
    (h : ∀ x, a = .ok x → f x = g x) :
    (Command.argument a >>= f) = (Command.argument a >>= g) := by
  cases a with
  | error fault => rfl
  | ok x => exact h x rfl

/-- The names of a vote are those that it looks up. -/
theorem names_of_voteArguments {sender : KeyId} {names : List String}
    (h : Command.voteArguments p = .ok (sender, names)) :
    (Arguments.restTexts p 1 "delegate names").toOption.getD [] = names := by
  rw [Command.voteArguments] at h
  cases hkey : Arguments.key p 0 "address" with
  | error fault =>
    rw [hkey] at h
    cases h
  | ok k =>
    cases hnames : Arguments.restTexts p 1 "delegate names" with
    | error fault =>
      rw [hkey, hnames] at h
      cases h
    | ok given =>
      rw [hkey, hnames] at h
      cases given with
      | nil => cases h
      | cons n rest =>
        cases h
        rfl

theorem vote_withLedger (h : Alike d.ledger t)
    (hp : "" ∉ (Arguments.restTexts p 1 "delegate names").toOption.getD []) :
    Command.vote.run (d.withLedger t) p = Command.vote.run d p ∧
      Command.cancelVote.run (d.withLedger t) p = Command.cancelVote.run d p := by
  have hset {sender : KeyId} {names : List String}
      (hgiven : Command.voteArguments p = .ok (sender, names)) :
      (d.withLedger t).delegateSet names = d.delegateSet names :=
    Desk.delegateSet_withLedger h (names_of_voteArguments hgiven ▸ hp)
  constructor
  · refine argument_bind_congr fun given hgiven => ?_
    simp only [Desk.voteDelegates, hset hgiven, Desk.submit_withLedger h]
  · refine argument_bind_congr fun given hgiven => ?_
    simp only [Desk.revokeDelegates, hset hgiven, Desk.submit_withLedger h]

theorem voteCommittee_withLedger (h : Alike d.ledger t)
    (hp : "" ∉ (Arguments.text p 1 "committee").toOption.toList) :
    Command.voteCommittee.run (d.withLedger t) p = Command.voteCommittee.run d p ∧
      Command.cancelVoteCommittee.run (d.withLedger t) p = Command.cancelVoteCommittee.run d p := by
  have haddress {text : String} (hgiven : Arguments.text p 1 "committee" = .ok text) :
      (d.withLedger t).committeeAddress text = d.committeeAddress text := by
    refine Desk.committeeAddress_withLedger h ?_
    rintro rfl
    rw [hgiven] at hp
    exact hp List.mem_cons_self
  constructor
  · refine argument_bind_congr fun sender _ => argument_bind_congr fun text hgiven => ?_
    simp only [Desk.voteCommittee, haddress hgiven, Desk.submit_withLedger h]
  · refine argument_bind_congr fun sender _ => argument_bind_congr fun text hgiven => ?_
    simp only [Desk.revokeCommittee, haddress hgiven, Desk.submit_withLedger h]

theorem run_withLedger (h : Alike d.ledger t) {c : Command} (hc : c ∈ Command.byName)
    (hp : "" ∉ namesIn c.name p) : c.run (d.withLedger t) p = c.run d p := by
  simp only [Command.byName, List.mem_cons, List.not_mem_nil, or_false] at hc
  rcases hc with rfl | rfl | rfl | rfl
  · exact (vote_withLedger h hp).1
  · exact (vote_withLedger h hp).2
  · exact (voteCommittee_withLedger h hp).1
  · exact (voteCommittee_withLedger h hp).2

end

theorem answer_eq_of_mirrors {l : Ledger} {db : Database} (h : Database.Mirrors l db) {q : Question}
    (hq : q ∈ Question.byName) {p : Arguments}
    (hp : "" ∉ (Arguments.text p 0 "name").toOption.toList) :
    Question.answer db q.name p = Question.answer l q.name p := by
  have hmemory : Backend.memory.Holds l l := rfl
  have htables : Backend.tables.Holds l db := h
  have hask : q.ask ⟨l, l.coinBalances, l.vantage⟩ p = q.ask ⟨db, l.coinBalances, l.vantage⟩ p := by
    refine ask_congr (Ledger.sameRecords rfl hmemory.alike htables.alike)
      (Ledger.sameIndexes rfl hmemory.alike htables.alike) _ _ q ?_ ?_
    · intro _ n hn
      refine hmemory.named_eq htables rfl ?_
      rintro rfl
      rw [Arguments.text_of_at? "name" hn] at hp
      exact absurd List.mem_cons_self hp
    · rintro rfl
      exact absurd hq (by decide)
  have hpinned : Survey.pin l = .ok ⟨l, l.coinBalances, l.vantage⟩ := hmemory.pin
  have hpinned' : Survey.pin db = .ok ⟨db, l.coinBalances, l.vantage⟩ := htables.pin
  rw [Question.answer, Question.answer, hpinned, hpinned', q.ofName?_name]
  exact hask.symm

end Gateway

def FailsAs {ε α : Type} (P : ε → Prop) : Except ε α → Prop
  | .ok _ => True
  | .error fault => P fault

namespace FailsAs

variable {ε α β : Type} {P : ε → Prop}

theorem bind {r : Except ε α} {f : α → Except ε β} (hr : FailsAs P r)
    (hf : ∀ a, FailsAs P (f a)) : FailsAs P (r >>= f) := by
  cases r with
  | ok a => exact hf a
  | error fault => exact hr

theorem mapM {f : α → Except ε β} (hf : ∀ a, FailsAs P (f a)) (l : List α) :
    FailsAs P (l.mapM f) := by
  induction l with
  | nil => exact trivial
  | cons a rest ih =>
    rw [List.mapM_cons]
    exact (hf a).bind fun _ => ih.bind fun _ => trivial

end FailsAs

def CallFailsAs {ε σ α : Type} (P : ε → Prop) (c : EStateM ε σ α) : Prop :=
  ∀ s fault s', c s = .error fault s' → P fault

namespace CallFailsAs

variable {ε σ α β : Type} {P : ε → Prop}

theorem pure (a : α) : CallFailsAs P (Pure.pure a : EStateM ε σ α) := by
  intro s fault s' h
  cases h

theorem bind {c : EStateM ε σ α} {f : α → EStateM ε σ β} (hc : CallFailsAs P c)
    (hf : ∀ a, CallFailsAs P (f a)) : CallFailsAs P (c >>= f) := by
  intro s fault s' h
  change EStateM.bind c f s = _ at h
  rw [EStateM.bind] at h
  cases hcall : c s with
  | ok a s₁ =>
    rw [hcall] at h
    exact hf a s₁ fault s' h
  | error e s₁ =>
    rw [hcall] at h
    cases h
    exact hc s fault s' hcall

end CallFailsAs

namespace Desk

def IsJudged (fault : NodeFault) : Prop := Fault.nodeKind fault ≠ .database

variable (d : Desk Ledger)

theorem prepare_judged (sender : KeyId) (op : Operation) :
    FailsAs IsJudged (d.prepare sender op) := by
  have hdecides : Admission.Decides (assess d.ledger d.point sender op) :=
    Ledger.decides_assess op
  rw [prepare]
  cases hassess : assess d.ledger d.point sender op with
  | ok effect =>
    dsimp only
    split
    · exact nofun
    · cases Payload.encode op with
      | ok payload => exact trivial
      | error fault => exact nofun
  | error e =>
    cases e with
    | refused r => exact nofun
    | store fault => exact absurd hassess (hdecides.ne_fault fault)

theorem broadcast_judged (sender : KeyId) (op : Operation) (w : Wallet) :
    FailsAs IsJudged (d.broadcast sender op w).1 := by
  have hprepare := d.prepare_judged sender op
  rw [broadcast]
  cases hprepared : d.prepare sender op with
  | error fault =>
    rw [hprepared] at hprepare
    exact hprepare
  | ok prepared =>
    dsimp only
    split
    next => exact trivial
    next fault _ _ => cases fault <;> exact nofun
    next => exact nofun

theorem submit_judged (sender : KeyId) (op : Operation) :
    CallFailsAs IsJudged (d.submit sender op) := by
  intro o fault o' h
  have hbroadcast := d.broadcast_judged sender op o.wallet
  rw [submit] at h
  cases hsent : d.broadcast sender op o.wallet with
  | mk result w =>
    rw [hsent] at h hbroadcast
    cases result with
    | ok tx => cases h
    | error fault =>
      cases h
      exact hbroadcast

theorem first_judged {α : Type} {r : Except NodeFault α} (h : FailsAs IsJudged r) :
    CallFailsAs IsJudged (first r) := by
  intro o fault o' hfirst
  cases r with
  | ok a => cases hfirst
  | error e =>
    cases hfirst
    exact h

theorem delegateAddresses_judged (seen names : List String) :
    FailsAs IsJudged (d.delegateAddresses seen names) := by
  induction names generalizing seen with
  | nil => exact trivial
  | cons name rest ih =>
    have hread : d.read (LedgerReads.delegateNamed? · name) =
        .ok (d.ledger.delegateNames.get? name) := rfl
    rw [delegateAddresses, hread]
    by_cases hseen : name ∈ seen
    · rw [if_pos hseen]
      exact nofun
    · rw [if_neg hseen]
      cases d.ledger.delegateNames.get? name with
      | none => exact nofun
      | some address => exact (ih (name :: seen)).bind fun _ => trivial

theorem delegateSet_judged (names : List String) : FailsAs IsJudged (d.delegateSet names) := by
  rw [delegateSet]
  exact (d.delegateAddresses_judged [] names).bind fun _ => trivial

theorem committeeAddress_judged (text : String) : FailsAs IsJudged (d.committeeAddress text) := by
  have hread : d.read (LedgerReads.committeeNamed? · text) =
      .ok (d.ledger.committeeNames.get? text) := rfl
  rw [committeeAddress, hread]
  cases KeyId.ofText text with
  | ok address => exact trivial
  | error _ =>
    cases d.ledger.committeeNames.get? text with
    | none => exact nofun
    | some address => exact trivial

end Desk

namespace Survey

def IsJudged (fault : SurveyFault) : Prop := (Fault.ofSurvey fault).kind ≠ .database

theorem delegateNamed_judged (v : Survey Ledger) (name : String) :
    FailsAs IsJudged (v.delegateNamed name) := by
  have hread : v.ask (LedgerReads.delegateNamed? · name) =
      .ok (v.ledger.delegateNames.get? name) := rfl
  rw [delegateNamed, hread]
  cases v.ledger.delegateNames.get? name with
  | none => exact (by decide : FaultKind.invalidAddress ≠ .database)
  | some address => exact trivial

end Survey

namespace Gateway

def IsTold (fault : Fault) : Prop := fault.kind ≠ .database

theorem text_told (p : Arguments) (i : Nat) (label : String) :
    FailsAs IsTold (Arguments.text p i label) := by
  rw [Arguments.text, Arguments.text?]
  cases Arguments.at? p i with
  | none => exact nofun
  | some v => cases v <;> first | exact trivial | exact nofun

theorem key_told (p : Arguments) (i : Nat) (label : String) :
    FailsAs IsTold (Arguments.key p i label) := by
  refine (text_told p i label).bind fun text => ?_
  rw [Arguments.keyOf]
  cases KeyId.ofText text with
  | ok k => exact trivial
  | error fault => exact nofun

theorem voteArguments_told (p : Arguments) : FailsAs IsTold (Command.voteArguments p) := by
  have hnames : FailsAs IsTold (Arguments.restTexts p 1 "delegate names") := by
    refine FailsAs.mapM (fun v => ?_) _
    cases v <;> first | exact trivial | exact nofun
  refine (key_told p 0 "address").bind fun sender => hnames.bind fun names => ?_
  cases names with
  | nil => exact nofun
  | cons n rest => exact trivial

theorem argument_told {α : Type} {a : Answer α} (h : FailsAs IsTold a) :
    CallFailsAs IsTold (Command.argument a) := by
  intro o fault o' hargument
  cases a with
  | ok x => cases hargument
  | error e =>
    cases hargument
    exact h

theorem send_told {α : Type} {s : Submission α} (h : CallFailsAs Desk.IsJudged s) :
    CallFailsAs IsTold (Command.send s) := by
  intro o fault o' hsend
  rw [Command.send] at hsend
  cases hs : s o with
  | ok a o₁ =>
    rw [hs] at hsend
    cases hsend
  | error e o₁ =>
    rw [hs] at hsend
    cases hsend
    have hkind := h o e _ hs
    cases e with
    | wallet w => cases w <;> exact hkind
    | _ => exact hkind

theorem run_told (d : Desk Ledger) (p : Arguments) {c : Command} (hc : c ∈ Command.byName) :
    CallFailsAs IsTold (c.run d p) := by
  have hdelegates (sender : KeyId) (names : List String) (op : SortedSet KeyId → Operation) :
      CallFailsAs Desk.IsJudged
        (Desk.first (d.delegateSet names) >>= fun set => d.submit sender (op set)) :=
    (Desk.first_judged (d.delegateSet_judged names)).bind fun _ => d.submit_judged sender _
  have hcommittee (sender : KeyId) (text : String) (op : KeyId → Operation) :
      CallFailsAs Desk.IsJudged
        (Desk.first (d.committeeAddress text) >>= fun k => d.submit sender (op k)) :=
    (Desk.first_judged (d.committeeAddress_judged text)).bind fun _ => d.submit_judged sender _
  simp only [Command.byName, List.mem_cons, List.not_mem_nil, or_false] at hc
  rcases hc with rfl | rfl | rfl | rfl
  · exact (argument_told (voteArguments_told p)).bind fun given =>
      (send_told (hdelegates given.1 given.2 .voteDelegates)).bind fun _ => .pure _
  · exact (argument_told (voteArguments_told p)).bind fun given =>
      (send_told (hdelegates given.1 given.2 .revokeDelegates)).bind fun _ => .pure _
  · exact (argument_told (key_told p 0 _)).bind fun sender =>
      (argument_told (text_told p 1 _)).bind fun text =>
        (send_told (hcommittee sender text .voteCommittee)).bind fun _ => .pure _
  · exact (argument_told (key_told p 0 _)).bind fun sender =>
      (argument_told (text_told p 1 _)).bind fun text =>
        (send_told (hcommittee sender text .revokeCommittee)).bind fun _ => .pure _

theorem tell_told {α : Type} (f : α → Json) {r : Except SurveyFault α}
    (h : FailsAs Survey.IsJudged r) : FailsAs IsTold (Question.tell f r) := by
  cases r with
  | ok a => exact trivial
  | error fault => exact h

theorem answer_told (l : Ledger) (p : Arguments) {q : Question} (hq : q ∈ Question.byName) :
    FailsAs IsTold (Question.answer l q.name p) := by
  have hmemory : Backend.memory.Holds l l := rfl
  have hpinned : Survey.pin l = .ok ⟨l, l.coinBalances, l.vantage⟩ := hmemory.pin
  rw [Question.answer, hpinned, q.ofName?_name]
  simp only [Question.byName, List.mem_cons, List.not_mem_nil, or_false] at hq
  rcases hq with rfl | rfl | rfl | rfl
  · exact (text_told p 0 _).bind fun n =>
      tell_told _ ((Survey.delegateNamed_judged _ n).bind fun _ => trivial)
  · exact (text_told p 0 _).bind fun n =>
      tell_told _ ((Survey.delegateNamed_judged _ n).bind fun _ => trivial)
  · exact (text_told p 0 _).bind fun n =>
      tell_told _ ((Survey.delegateNamed_judged _ n).bind fun _ => trivial)
  · exact (text_told p 0 _).bind fun n => tell_told _ trivial

/-- A call by name is a command or a question. -/
theorem call_cases {method : String} (h : method ∈ nameCalls) :
    (∃ q ∈ Question.byName, method = q.name ∧ Command.ofName? method = none) ∨
      ∃ c ∈ Command.byName, method = c.name ∧ Command.ofName? method = some c := by
  rcases List.mem_append.mp h with hquestion | hcommand
  · rcases List.mem_map.mp hquestion with ⟨q, hq, rfl⟩
    exact .inl ⟨q, hq, rfl, by cases q <;> decide⟩
  · rcases List.mem_map.mp hcommand with ⟨c, hc, rfl⟩
    exact .inr ⟨c, hc, rfl, by cases c <;> decide⟩

end Gateway

namespace Node

section

variable {σ : Type}

def desk (n : Node σ) (fees : FeeSchedule) (time : Timestamp) (timeout : UInt64) : Desk σ :=
  ⟨n.store, n.sheet.coins, fees, ⟨n.tip.height, time⟩, timeout⟩

def serve [LedgerReads σ] (n : Node σ) (fees : FeeSchedule) (time : Timestamp) (timeout : UInt64)
    (method : String) (p : Arguments) : Command.Call Json :=
  Gateway.call (Question.answer n.store) (n.desk fees time timeout) method p

end

/-- Nodes over memory and over tables that have taken the same updates, and have been opened again
at the same times. -/
inductive Paired : Node Ledger → Node Database → Prop where
  | opened {n : Node Ledger} {m : Node Database} (hn : restore (∅ : Ledger) = .ok n)
    (hm : restore Database.opened = .ok m) : Paired n m
  | took {n : Node Ledger} {m : Node Database} (fees : FeeSchedule) (u : Update)
    (h : Paired n m) : Paired (deliver fees n u).node (deliver fees m u).node
  | again {n n' : Node Ledger} {m m' : Node Database} (h : Paired n m)
    (hn : restore n.store = .ok n') (hm : restore m.store = .ok m') : Paired n' m'

variable {n : Node Ledger} {m : Node Database}

theorem Paired.shadows (h : Paired n m) : Shadows n m := by
  have hopened {l : Ledger} {db : Database} {n : Node Ledger} {m : Node Database}
      (hmirrors : Database.Mirrors l db) (hn : restore l = .ok n) (hm : restore db = .ok m) :
      Shadows n m := by
    rcases exists_shadows_of_restore hmirrors hn with ⟨m', hm', hshadows⟩
    rw [hm] at hm'
    cases hm'
    exact hshadows
  induction h with
  | opened hn hm => exact hopened Database.mirrors_opened hn hm
  | took fees u _ ih => exact (ih.deliver fees u).2
  | again _ hn hm ih => exact hopened ih.store hn hm

/-- A node over memory answers no call by name with a fault of the store, and a node over tables
answers it alike, unless one of the names is empty. -/
theorem serve_by_name (h : Paired n m) (fees : FeeSchedule) (time : Timestamp) (timeout : UInt64)
    {method : String} (hmethod : method ∈ nameCalls) (p : Arguments) :
    CallFailsAs IsTold (n.serve fees time timeout method p) ∧
      ("" ∉ namesIn method p →
        m.serve fees time timeout method p = n.serve fees time timeout method p) := by
  have hshadows := h.shadows
  have hdesk : m.desk fees time timeout = (n.desk fees time timeout).withLedger m.store := by
    rw [desk, hshadows.sheet, hshadows.tip]
    rfl
  rcases call_cases hmethod with ⟨q, hq, rfl, hnone⟩ | ⟨c, hc, rfl, hsome⟩
  · rw [serve, serve, call, call, hnone]
    refine ⟨argument_told (answer_told n.store p hq), fun hnames => ?_⟩
    rw [namesIn, hnone] at hnames
    exact congrArg Command.argument (answer_eq_of_mirrors hshadows.store hq hnames)
  · rw [serve, serve, call, call, hsome]
    refine ⟨run_told _ p hc, fun hnames => ?_⟩
    rw [hdesk]
    exact run_withLedger hshadows.store.alike hc hnames

/-- A delegate is registered, and a vote names it with another one that is not. -/
theorem serve_by_name_of_two :
    let ada : KeyId := ⟨.fill 20 1⟩
    let register : Operation := .registerDelegate "ada"
    let u : Update := ⟨⟨1, 10, [⟨0, (Payload.bytesOf register).1 :: (Payload.bytesOf register).2,
      ada, 0⟩]⟩, []⟩
    let n := (deliver (.flat 0) (start (∅ : Ledger)) u).node
    let m := (deliver (.flat 0) (start Database.opened) u).node
    let p : Arguments := [.text ada.text, .text "ada", .text "bo"]
    Paired n m ∧ n.store.delegateNames.get? "ada" = some ada ∧ "vote" ∈ nameCalls ∧
      namesIn "vote" p = ["ada", "bo"] ∧ CallFailsAs IsTold (n.serve (.flat 0) 10 30 "vote" p) ∧
      m.serve (.flat 0) 10 30 "vote" p = n.serve (.flat 0) 10 30 "vote" p := by
  intro ada register u n m p
  have hpaired : Paired n m := .took _ _ (.opened (restore_opened .memory) (restore_opened .tables))
  have hnames : namesIn "vote" p = ["ada", "bo"] := by decide +kernel
  have hvote : "vote" ∈ nameCalls := by decide
  have hserved := serve_by_name hpaired (.flat 0) 10 30 hvote p
  refine ⟨hpaired, by decide +kernel, hvote, hnames, hserved.1, hserved.2 ?_⟩
  rw [hnames]
  decide

def faultKind? : EStateM.Result Fault Outbound Json → Option FaultKind
  | .ok _ _ => none
  | .error fault _ => some fault.kind

/-- Where nothing is registered, each call by the empty name fails in the tables, and in memory in
no fault of the store. -/
theorem serve_by_empty_name :
    let n := start (∅ : Ledger)
    let m := start Database.opened
    let sender : Json := .text (KeyId.text ⟨.fill 20 1⟩)
    let calls : List (String × Arguments) :=
      [("getdelegatevotes", [.text ""]), ("getdelegatefunds", [.text ""]),
        ("listreceivedvotes", [.text ""]), ("getnameaddress", [.text ""]),
        ("vote", [sender, .text ""]), ("cancelvote", [sender, .text ""]),
        ("votecommittee", [sender, .text ""]), ("cancelvotecommittee", [sender, .text ""])]
    Paired n m ∧ calls.map Prod.fst = nameCalls ∧ (utf8 "").length ≤ 511 ∧
      ∀ e ∈ calls,
        faultKind? (n.serve (.flat 0) 0 30 e.1 e.2 ⟨.empty, .zero⟩) ≠ some .database ∧
          faultKind? (m.serve (.flat 0) 0 30 e.1 e.2 ⟨.empty, .zero⟩) = some .database :=
  ⟨.opened (restore_opened .memory) (restore_opened .tables), by decide, by decide,
    by decide +kernel⟩

end Node

end CivicLedger
