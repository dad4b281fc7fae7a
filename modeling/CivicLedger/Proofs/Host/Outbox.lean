import Mathlib.Data.List.Forall2
import Mathlib.Data.List.Nodup
import CivicLedger.Proofs.Host.Lines

/-!
# The identities of requests

Sessions of an outbox over one file, each of which opens it anew, whatever becomes of their writes.
A request that is given an identity has a line that ends in its entry, and a line of its own unless
a write before it left a part of a line. An identity tells the number of a request in its session
and the request; as each session numbers from one again, it does not tell the session.
-/

namespace CivicLedger.Outbox

open Wire

structure Served where
  number : UInt64
  request : Request
  write : Write
  deriving DecidableEq

namespace Served

variable (s : Served)

def key : UInt64 × Request := (s.number, s.request)
def entry : OutboxEntry := ⟨requestId s.number s.request, s.request⟩
def reply : Wallet.Reply := s.write.reply s.entry.id
def part : List Char := s.write.part (s.entry.line.toList ++ ['\n'])

end Served

def endsSession : Write → Bool
  | .broken _ => true
  | _ => false

def servedAfter (n : UInt64) : List (Request × Write) → List Served
  | [] => []
  | (r, w) :: rest => ⟨n + 1, r, w⟩ :: if endsSession w then [] else servedAfter (n + 1) rest

def textOf (served : List Served) : List Char := served.flatMap Served.part

theorem textOf_cons (s : Served) (rest : List Served) : textOf (s :: rest) = s.part ++ textOf rest :=
  List.flatMap_cons

theorem textOf_append (a b : List Served) : textOf (a ++ b) = textOf a ++ textOf b :=
  List.flatMap_append

/-- Sessions one after another over one file: the answers given in each, and the file in the end. -/
def sessions : List (List (Request × Write)) → List Char → List (List Wallet.Reply) × List Char
  | [], text => ([], text)
  | session :: rest, text =>
    let served := serve session (resume text)
    let later := sessions rest served.2.text
    (served.1 :: later.1, later.2)

def history (series : List (List (Request × Write))) : List Served := series.flatMap (servedAfter 0)

theorem history_cons (session : List (Request × Write)) (rest : List (List (Request × Write))) :
    history (session :: rest) = servedAfter 0 session ++ history rest := List.flatMap_cons

theorem replies_serve (session : List (Request × Write)) (o : Outbox) :
    (serve session o).1 = (servedAfter o.served session).map Served.reply := by
  induction session generalizing o with
  | nil => rfl
  | cons p rest ih =>
    rcases p with ⟨r, w⟩
    have hrest := ih (o.send r w).2
    cases w with
    | whole => exact congrArg _ hrest
    | refused kept reason => exact congrArg _ hrest
    | broken kept => rfl

theorem text_serve (session : List (Request × Write)) (o : Outbox) :
    (serve session o).2.text = o.text ++ textOf (servedAfter o.served session) := by
  induction session generalizing o with
  | nil => exact (List.append_nil _).symm
  | cons p rest ih =>
    rcases p with ⟨r, w⟩
    have hrest := ih (o.send r w).2
    cases w with
    | whole => exact hrest.trans (List.append_assoc _ _ _)
    | refused kept reason => exact hrest.trans (List.append_assoc _ _ _)
    | broken kept => exact congrArg (o.text ++ ·) (List.append_nil _).symm

theorem replies_sessions (series : List (List (Request × Write))) (text : List Char) :
    (sessions series text).1 = series.map fun session => (servedAfter 0 session).map Served.reply := by
  induction series generalizing text with
  | nil => rfl
  | cons session rest ih => rw [sessions, ih, replies_serve, List.map_cons, resume]

theorem text_sessions (series : List (List (Request × Write))) (text : List Char) :
    (sessions series text).2 = text ++ textOf (history series) := by
  induction series generalizing text with
  | nil => exact (List.append_nil _).symm
  | cons session rest ih =>
    rw [sessions, ih, text_serve, List.append_assoc, resume, history_cons, textOf_append]

inductive Answers : List (Request × Write) → List Wallet.Reply → Prop where
  | nil : Answers [] []
  | taken {r id session given} : Answers session given →
      Answers ((r, .whole) :: session) (.taken id :: given)
  | refused {r kept reason session given} : Answers session given →
      Answers ((r, .refused kept reason) :: session)
        (.refused (.unavailable ("outbox write failed: " ++ reason)) :: given)
  | broken {r kept session} : Answers ((r, .broken kept) :: session) [.none]

def granted (session : List (Request × Write)) (given : List Wallet.Reply) : List OutboxEntry :=
  (session.zip given).filterMap fun (p, reply) => (identity? reply).map fun id => ⟨id, p.1⟩

theorem answers_servedAfter (session : List (Request × Write)) (n : UInt64) :
    Answers session ((servedAfter n session).map Served.reply) := by
  induction session generalizing n with
  | nil => exact .nil
  | cons p rest ih =>
    rcases p with ⟨r, w⟩
    cases w with
    | whole => exact .taken (ih (n + 1))
    | refused kept reason => exact .refused (ih (n + 1))
    | broken kept => exact .broken

def taken (history : List Served) : List Served := history.filter fun s => s.write = .whole

theorem granted_servedAfter (session : List (Request × Write)) (n : UInt64) :
    granted session ((servedAfter n session).map Served.reply) =
      (taken (servedAfter n session)).map Served.entry := by
  induction session generalizing n with
  | nil => rfl
  | cons p rest ih =>
    rcases p with ⟨r, w⟩
    cases w with
    | whole => exact congrArg (_ :: ·) (ih (n + 1))
    | refused kept reason => exact ih (n + 1)
    | broken kept =>
      simp [granted, taken, servedAfter, endsSession, Served.reply, Write.reply, identity?]

theorem mem_taken {s : Served} {served : List Served} :
    s ∈ taken served ↔ s ∈ served ∧ s.write = .whole := by
  rw [taken, List.mem_filter, decide_eq_true_eq]

theorem taken_append (a b : List Served) : taken (a ++ b) = taken a ++ taken b :=
  List.filter_append a b

theorem taken_cons_of_whole {s : Served} (h : s.write = .whole) (rest : List Served) :
    taken (s :: rest) = s :: taken rest := List.filter_cons_of_pos (by simpa using h)

theorem taken_cons_of_not {s : Served} (h : s.write ≠ .whole) (rest : List Served) :
    taken (s :: rest) = taken rest := List.filter_cons_of_neg (by simpa using h)

theorem part_of_whole {s : Served} (h : s.write = .whole) :
    s.part = s.entry.line.toList ++ ['\n'] := by
  rw [Served.part, h, Write.part]

/-- What is left of a line is a part of it, or all of it with its end. -/
theorem part_cases (s : Served) :
    s.part <+: s.entry.line.toList ∨ s.part = s.entry.line.toList ++ ['\n'] := by
  have htake (kept : Nat) : (s.entry.line.toList ++ ['\n']).take kept <+: s.entry.line.toList ∨
      (s.entry.line.toList ++ ['\n']).take kept = s.entry.line.toList ++ ['\n'] := by
    by_cases hkept : kept ≤ s.entry.line.toList.length
    · rw [List.take_append_of_le_length hkept]
      exact .inl (List.take_prefix _ _)
    · exact .inr (List.take_of_length_le (by simp; omega))
  rw [Served.part]
  cases s.write with
  | whole => exact .inr rfl
  | refused kept reason => exact htake kept
  | broken kept => exact htake kept

/-- The lines that requests leave behind a line that is not ended. -/
def linesAfter (pending : List Char) : List Served → List (List Char)
  | [] => [pending]
  | s :: rest =>
    if '\n' ∈ s.part then (pending ++ s.entry.line.toList) :: linesAfter [] rest
    else linesAfter (pending ++ s.part) rest

theorem linesAfter_of_part {s : Served} (h : s.part <+: s.entry.line.toList)
    (pending : List Char) (rest : List Served) :
    linesAfter pending (s :: rest) = linesAfter (pending ++ s.part) rest := by
  rw [linesAfter, if_neg fun hend => s.entry.newline_not_mem_line (h.subset hend)]

theorem linesAfter_of_line {s : Served} (h : s.part = s.entry.line.toList ++ ['\n'])
    (pending : List Char) (rest : List Served) :
    linesAfter pending (s :: rest) = (pending ++ s.entry.line.toList) :: linesAfter [] rest := by
  rw [linesAfter, if_pos (by simp [h])]

theorem linesFrom_append {l : List Char} (h : '\n' ∉ l) (line rest : List Char) :
    Feed.linesFrom line (l ++ rest) = Feed.linesFrom (l.reverse ++ line) rest := by
  induction l generalizing line with
  | nil => rfl
  | cons c l ih =>
    rw [List.mem_cons, not_or] at h
    rw [List.cons_append, Feed.linesFrom, if_neg (Ne.symm h.1), ih h.2, List.reverse_cons,
      List.append_assoc, List.singleton_append]

theorem linesFrom_textOf (served : List Served) (pending : List Char) :
    Feed.linesFrom pending.reverse (textOf served) = linesAfter pending served := by
  induction served generalizing pending with
  | nil => exact congrArg (fun l => [l]) pending.reverse_reverse
  | cons s rest ih =>
    have hline := s.entry.newline_not_mem_line
    rw [textOf_cons]
    rcases part_cases s with hpart | hpart
    · have hopen : '\n' ∉ s.part := fun hend => hline (hpart.subset hend)
      rw [linesAfter_of_part hpart, linesFrom_append hopen, ← List.reverse_append, ih]
    · have hrest := ih []
      rw [List.reverse_nil] at hrest
      rw [linesAfter_of_line hpart, hpart, List.append_assoc, linesFrom_append hline,
        List.singleton_append, Feed.linesFrom, if_pos rfl, ← List.reverse_append,
        List.reverse_reverse, hrest]

theorem lines_textOf (served : List Served) :
    lines (textOf served) = (linesAfter [] served).filter fun l => !l.isEmpty := by
  rw [lines]
  exact congrArg _ (linesFrom_textOf served [])

def read? (line : List Char) : Option OutboxEntry := OutboxEntry.ofLine? (String.ofList line)

theorem read?_line (e : OutboxEntry) : read? e.line.toList = some e := by
  rw [read?, String.ofList_toList, e.ofLine?_line]

theorem told_textOf (served : List Served) :
    told (textOf served) = (linesAfter [] served).filterMap read? := by
  have hnil : read? [] = none := by decide
  rw [told, lines_textOf, List.filterMap_filter]
  refine List.filterMap_congr fun l _ => ?_
  cases l with
  | nil => rw [hnil]; rfl
  | cons c l => rfl

/-- An identity that is given has a line of its own that ends in its entry. -/
theorem taken_behind (served : List Served) (pending : List Char) :
    List.SublistForall₂ (fun e line => e.line.toList <:+ line) ((taken served).map Served.entry)
      ((linesAfter pending served).filter fun l => !l.isEmpty) := by
  induction served generalizing pending with
  | nil => exact .nil
  | cons s rest ih =>
    have hsome := s.entry.line_ne_nil
    by_cases hwhole : s.write = .whole
    · rw [linesAfter_of_line (part_of_whole hwhole), taken_cons_of_whole hwhole, List.map_cons,
        List.filter_cons_of_pos (by simp [hsome])]
      exact .cons (List.suffix_append _ _) (ih [])
    · rw [taken_cons_of_not hwhole]
      rcases part_cases s with hpart | hpart
      · rw [linesAfter_of_part hpart]
        exact ih _
      · rw [linesAfter_of_line hpart, List.filter_cons_of_pos (by simp [hsome])]
        exact .cons_right (ih [])

def EndsLine (text : List Char) : Prop := ∀ c ∈ text.getLast?, c = '\n'

theorem EndsLine.of_append {a b : List Char} (h : EndsLine (a ++ b)) : EndsLine b := by
  intro c hc
  refine h c ?_
  rw [List.getLast?_append, Option.mem_def.mp hc]
  rfl

theorem EndsLine.eq_nil {text : List Char} (h : EndsLine text) (hopen : '\n' ∉ text) :
    text = [] := by
  by_contra hne
  have hlast := List.getLast?_eq_getLast_of_ne_nil hne
  have hend := h _ (Option.mem_def.mpr hlast)
  exact hopen (hend ▸ List.getLast_mem hne)

/-- A whole line behind the end of a line is a line of its own. -/
theorem mem_linesAfter {pending : List Char} {before after : List Served} {s : Served}
    (hopen : '\n' ∉ pending) (hends : EndsLine (pending ++ textOf before))
    (hs : s.write = .whole) :
    s.entry.line.toList ∈ linesAfter pending (before ++ s :: after) := by
  induction before generalizing pending with
  | nil =>
    rw [textOf, List.flatMap_nil, List.append_nil] at hends
    rw [List.nil_append, linesAfter_of_line (part_of_whole hs), hends.eq_nil hopen, List.nil_append]
    exact List.mem_cons_self
  | cons t before ih =>
    rw [textOf_cons, ← List.append_assoc] at hends
    rw [List.cons_append]
    rcases part_cases t with hpart | hpart
    · rw [linesAfter_of_part hpart]
      refine ih ?_ hends
      rw [List.mem_append, not_or]
      exact ⟨hopen, fun hend => t.entry.newline_not_mem_line (hpart.subset hend)⟩
    · rw [linesAfter_of_line hpart]
      exact List.mem_cons_of_mem _ (ih List.not_mem_nil hends.of_append)

theorem foreign_textOf {opened : List Served} (h : ∀ s ∈ opened, s.part <+: s.entry.line.toList)
    {x : List Char} (hx : Json.Foreign x) : Json.Foreign (textOf opened ++ x) := by
  induction opened with
  | nil => exact hx
  | cons s rest ih =>
    rcases List.forall_mem_cons.mp h with ⟨hs, hrest⟩
    rw [textOf_cons, List.append_assoc]
    exact OutboxEntry.foreign_part hs (ih hrest)

/-- Behind parts of lines, what is told is the entry of one of them or as without them. -/
theorem read?_textOf_append {opened : List Served}
    (h : ∀ s ∈ opened, s.part <+: s.entry.line.toList) {x : List Char} (hx : Json.Foreign x)
    {e : OutboxEntry} (hread : read? (textOf opened ++ x) = some e) :
    e ∈ opened.map Served.entry ∨ read? x = some e := by
  induction opened with
  | nil => exact .inr hread
  | cons s rest ih =>
    rcases List.forall_mem_cons.mp h with ⟨hs, hrest⟩
    rw [textOf_cons, List.append_assoc] at hread
    by_cases hnil : s.part = []
    · rw [hnil, List.nil_append] at hread
      exact (ih hrest hread).imp_left fun hmem => List.mem_cons_of_mem _ hmem
    · have htold := OutboxEntry.eq_of_ofLine?_part hs hnil (foreign_textOf hrest hx) hread
      exact .inl (List.mem_cons.mpr (.inl htold.2))

theorem filterMap_read?_sublist {line : List Char} {l : List OutboxEntry}
    (h : ∀ {e}, read? line = some e → e ∈ l) : List.Sublist ([line].filterMap read?) l := by
  cases hread : read? line with
  | none =>
    rw [List.filterMap_cons_none hread]
    exact List.nil_sublist l
  | some e =>
    rw [List.filterMap_cons_some hread]
    exact List.singleton_sublist.mpr (h hread)

/-- The lines tell entries of requests served, in their order and each of them at most once. -/
theorem read?_linesAfter_sublist (served : List Served) {opened : List Served}
    (h : ∀ s ∈ opened, s.part <+: s.entry.line.toList) :
    List.Sublist ((linesAfter (textOf opened) served).filterMap read?)
      ((opened ++ served).map Served.entry) := by
  induction served generalizing opened with
  | nil =>
    refine filterMap_read?_sublist fun hread => ?_
    rw [← List.append_nil (textOf opened)] at hread
    rw [List.append_nil]
    refine (read?_textOf_append h Json.foreign_nil hread).resolve_right fun hnil => ?_
    cases hnil
  | cons s rest ih =>
    rw [List.append_cons]
    rcases part_cases s with hpart | hpart
    · have hopened : textOf (opened ++ [s]) = textOf opened ++ s.part := by simp [textOf]
      rw [linesAfter_of_part hpart, ← hopened]
      refine ih fun t ht => ?_
      rcases List.mem_append.mp ht with ht | ht
      · exact h t ht
      · rw [List.mem_singleton.mp ht]
        exact hpart
    · rw [linesAfter_of_line hpart, ← List.singleton_append, List.filterMap_append,
        List.map_append]
      have hrest := @ih [] fun t ht => absurd ht List.not_mem_nil
      refine .append (filterMap_read?_sublist fun hread => ?_) hrest
      rw [List.map_append, List.mem_append]
      rcases read?_textOf_append h s.entry.foreign_line hread with hmem | hself
      · exact .inl hmem
      · rw [read?_line] at hself
        exact .inr (List.mem_singleton.mpr (Option.some.inj hself).symm)

/-- Where writes leave all of a line or nothing, the lines are those of the identities given. -/
theorem linesAfter_of_clean {served : List Served}
    (h : ∀ s ∈ served, s.write = .whole ∨ s.part = []) :
    linesAfter [] served = (taken served).map (·.entry.line.toList) ++ [[]] := by
  induction served with
  | nil => rfl
  | cons s rest ih =>
    rcases List.forall_mem_cons.mp h with ⟨hs, hrest⟩
    rcases hs with hwhole | hnil
    · rw [linesAfter_of_line (part_of_whole hwhole), ih hrest, taken_cons_of_whole hwhole,
        List.nil_append, List.map_cons, List.cons_append]
    · have hwhole : s.write ≠ .whole := by
        intro hwhole
        rw [part_of_whole hwhole] at hnil
        exact List.append_ne_nil_of_right_ne_nil _ (List.cons_ne_nil _ _) hnil
      have hpart : s.part <+: s.entry.line.toList := by
        rw [hnil]
        exact List.nil_prefix
      rw [linesAfter_of_part hpart, hnil, List.nil_append, ih hrest, taken_cons_of_not hwhole]

section

variable {served : List Served} (h : ∀ s ∈ served, s.write = .whole ∨ s.part = [])

include h

theorem lines_of_clean :
    lines (textOf served) = ((taken served).map Served.entry).map (·.line.toList) := by
  have hsome : ∀ l ∈ (taken served).map (·.entry.line.toList), (!l.isEmpty) = true := by
    intro l hl
    rcases List.mem_map.mp hl with ⟨s, -, rfl⟩
    simp [s.entry.line_ne_nil]
  rw [lines_textOf, linesAfter_of_clean h, List.filter_append, List.filter_eq_self.mpr hsome,
    List.map_map]
  exact List.append_nil _

theorem told_of_clean : told (textOf served) = (taken served).map Served.entry := by
  rw [told, lines_of_clean h, List.filterMap_map]
  refine (List.filterMap_congr fun e _ => ?_).trans List.filterMap_some
  exact read?_line e

end

theorem fingerprint_injective {n m : UInt64} {r q : Request}
    (h : fingerprint n r = fingerprint m q) : n = m ∧ r = q := by
  simp only [fingerprint, List.append_assoc] at h
  rcases (reads_word64 n).unique (reads_word64 m) h with ⟨hnumber, h⟩
  rcases (reads_key r.sender).unique (reads_key q.sender) h with ⟨hsender, h⟩
  rcases (reads_word64 r.fee).unique (reads_word64 q.fee) h with ⟨hfee, hpayload⟩
  cases r
  cases q
  exact ⟨hnumber, by simp_all⟩

/-- No two inputs that are hashed for some requests have one hash. -/
def CollisionFree (served : List Served) : Prop :=
  ∀ s ∈ served, ∀ t ∈ served,
    Blake2b.hash (fingerprint s.number s.request) = Blake2b.hash (fingerprint t.number t.request) →
      fingerprint s.number s.request = fingerprint t.number t.request

section

variable {served : List Served}

theorem CollisionFree.key_eq_of_id_eq (h : CollisionFree served) {s t : Served} (hs : s ∈ served)
    (ht : t ∈ served) (hid : s.entry.id = t.entry.id) : s.key = t.key := by
  have hfingerprint := fingerprint_injective (h s hs t ht (congrArg TxId.bytes hid))
  exact Prod.ext hfingerprint.1 hfingerprint.2

theorem CollisionFree.mono (h : CollisionFree served) {some : List Served}
    (hsome : ∀ s ∈ some, s ∈ served) : CollisionFree some :=
  fun s hs t ht => h s (hsome s hs) t (hsome t ht)

theorem CollisionFree.nodup_ids_iff (h : CollisionFree served) :
    ((served.map Served.entry).map OutboxEntry.id).Nodup ↔ (served.map Served.key).Nodup := by
  have hid {s t : Served} (hkey : s.key = t.key) : s.entry.id = t.entry.id := by
    rw [Served.key, Served.key, Prod.mk.injEq] at hkey
    rw [Served.entry, Served.entry, hkey.1, hkey.2]
  rw [List.map_map, List.Nodup, List.Nodup, List.pairwise_map, List.pairwise_map]
  simp only [Function.comp_apply]
  constructor
  · exact List.Pairwise.imp fun hne hkey => hne (hid hkey)
  · exact List.Pairwise.imp_of_mem fun hs ht hne hsame => hne (h.key_eq_of_id_eq hs ht hsame)

end

/-- The number of a request is its place in the session, as far as a word counts. -/
theorem number_of_mem {n : UInt64} {session : List (Request × Write)} {s : Served}
    (hs : s ∈ servedAfter n session) :
    ∃ i < (servedAfter n session).length, s.number = n + UInt64.ofNat (i + 1) := by
  induction session generalizing n with
  | nil => cases hs
  | cons p rest ih =>
    rcases List.mem_cons.mp hs with rfl | hmem
    · exact ⟨0, Nat.succ_pos _, rfl⟩
    rw [servedAfter, List.length_cons]
    split at hmem
    · cases hmem
    next hgoes =>
      rcases ih hmem with ⟨i, hi, hnumber⟩
      refine ⟨i + 1, ?_, ?_⟩
      · rw [if_neg hgoes]
        exact Nat.succ_lt_succ hi
      · rw [hnumber, UInt64.ofNat_add (i + 1), UInt64.add_comm (UInt64.ofNat (i + 1)),
          UInt64.add_assoc]
        rfl

/-- A session that does not outrun its numbers gives each request a number of its own. -/
theorem nodup_keys_servedAfter {n : UInt64} {session : List (Request × Write)}
    (h : (servedAfter n session).length ≤ UInt64.size) :
    ((servedAfter n session).map Served.key).Nodup := by
  induction session generalizing n with
  | nil => exact List.nodup_nil
  | cons p rest ih =>
    rw [servedAfter] at h ⊢
    split
    · exact List.nodup_singleton _
    next hgoes =>
      rw [if_neg hgoes, List.length_cons] at h
      refine List.nodup_cons.mpr ⟨fun hmem => ?_, ih (Nat.le_of_succ_le h)⟩
      rcases List.mem_map.mp hmem with ⟨s, hs, hkey⟩
      rcases number_of_mem hs with ⟨i, hi, hnumber⟩
      have hsame : s.number = n + 1 := congrArg Prod.fst hkey
      have hzero : UInt64.ofNat (i + 1) = 0 := by
        rw [hsame] at hnumber
        exact UInt64.add_right_inj (n + 1) |>.mp (hnumber.symm.trans (UInt64.add_zero _).symm)
      have hvalue := congrArg UInt64.toNat hzero
      rw [UInt64.toNat_ofNat_of_lt' (by omega)] at hvalue
      cases hvalue

def grantedIn (series : List (List (Request × Write))) (answers : List (List Wallet.Reply)) :
    List OutboxEntry := (List.zipWith granted series answers).flatten

/-- What sessions leave of their requests. -/
structure Recorded (series : List (List (Request × Write))) (answers : List (List Wallet.Reply))
    (text : List Char) : Prop where
  answered : List.Forall₂ Answers series answers
  /-- The requests with whole lines are given the identities of their numbers. -/
  granted : grantedIn series answers = (taken (history series)).map Served.entry
  /-- In the order of the answers, each identity has a line that ends in its entry. -/
  behind : List.SublistForall₂ (fun e line => e.line.toList <:+ line) (grantedIn series answers)
    (lines text)
  /-- The line tells the entry where no part of another is before it. -/
  own : ∀ {before s after}, history series = before ++ s :: after → s.write = .whole →
    EndsLine (textOf before) → s.entry ∈ Outbox.told text
  clean : (∀ s ∈ history series, s.write = .whole ∨ s.part = []) →
    lines text = (grantedIn series answers).map (·.line.toList) ∧
      Outbox.told text = grantedIn series answers
  /-- Only entries of requests served are told, in their order and each at most once. -/
  told : List.Sublist (Outbox.told text) ((history series).map Served.entry)
  /-- No two lines tell one identity unless two sessions give one number to the same request. -/
  distinct : ((history series).map Served.key).Nodup →
    ((Outbox.told text).map OutboxEntry.id).Nodup
  repeated : ((grantedIn series answers).map OutboxEntry.id).Nodup ↔
    ((taken (history series)).map Served.key).Nodup
  within : ∀ given ∈ answers, given.length ≤ UInt64.size → (given.filterMap identity?).Nodup

theorem grantedIn_map (series : List (List (Request × Write))) :
    grantedIn series (series.map fun session => (servedAfter 0 session).map Served.reply) =
      (taken (history series)).map Served.entry := by
  induction series with
  | nil => rfl
  | cons session rest ih =>
    rw [List.map_cons, grantedIn, List.zipWith_cons_cons, List.flatten_cons, ← grantedIn, ih,
      granted_servedAfter, history_cons, taken_append, List.map_append]

theorem filterMap_identity?_reply (served : List Served) :
    (served.map Served.reply).filterMap identity? =
      ((taken served).map Served.entry).map OutboxEntry.id := by
  induction served with
  | nil => rfl
  | cons s rest ih =>
    rcases s with ⟨number, request, w⟩
    cases w with
    | whole => exact congrArg (_ :: ·) ih
    | refused kept reason => exact ih
    | broken kept => exact ih

/-- Sessions over a file that was empty give every request whose line is whole an identity and a
line that ends in its entry. As long as no two hashes collide, identities are as different as the
numbered requests are. -/
theorem sessions_recorded {series : List (List (Request × Write))}
    (h : CollisionFree (history series)) :
    Recorded series (sessions series []).1 (sessions series []).2 := by
  have htaken : ∀ s ∈ taken (history series), s ∈ history series :=
    fun s hs => (mem_taken.mp hs).1
  have htold : List.Sublist (Outbox.told (textOf (history series)))
      ((history series).map Served.entry) := by
    rw [told_textOf]
    exact @read?_linesAfter_sublist _ [] fun s hs => absurd hs List.not_mem_nil
  rw [replies_sessions, text_sessions, List.nil_append]
  constructor
  case answered =>
    rw [List.forall₂_map_right_iff]
    exact List.forall₂_same.mpr fun session _ => answers_servedAfter session 0
  case granted => exact grantedIn_map series
  case behind =>
    rw [grantedIn_map, lines_textOf]
    exact taken_behind _ []
  case own =>
    intro before s after hsplit hwhole hends
    rw [told_textOf, hsplit]
    exact List.mem_filterMap.mpr
      ⟨_, mem_linesAfter List.not_mem_nil hends hwhole, read?_line s.entry⟩
  case clean =>
    intro hclean
    rw [grantedIn_map]
    exact ⟨lines_of_clean hclean, told_of_clean hclean⟩
  case told => exact htold
  case distinct =>
    intro hkeys
    exact (htold.map OutboxEntry.id).nodup (h.nodup_ids_iff.mpr hkeys)
  case repeated =>
    rw [grantedIn_map]
    exact (h.mono htaken).nodup_ids_iff
  case within =>
    intro given hgiven hlength
    rcases List.mem_map.mp hgiven with ⟨session, hsession, rfl⟩
    rw [List.length_map] at hlength
    have hserved : ∀ s ∈ servedAfter 0 session, s ∈ history series :=
      fun s hs => List.mem_flatMap.mpr ⟨session, hsession, hs⟩
    have hids := (h.mono hserved).nodup_ids_iff.mpr (nodup_keys_servedAfter hlength)
    rw [filterMap_identity?_reply]
    exact ((List.filter_sublist.map _).map _).nodup hids

/-- A request that comes four times, whose line is once refused in part and once broken off. -/
theorem sessions_recorded_resubmitted :
    let r : Request := ⟨[0xc3, 0x01], 7, ⟨.fill 20 0xa0⟩⟩
    let series : List (List (Request × Write)) :=
      [[(r, .whole), (r, .refused 5 "disk full"), (r, .broken 0)], [(r, .whole)]]
    CollisionFree (history series) ∧
      Recorded series (sessions series []).1 (sessions series []).2 := by
  intro r series
  have hfirst : Blake2b.hash (fingerprint 1 r) ≠ Blake2b.hash (fingerprint 2 r) := by
    decide +kernel
  have hsecond : Blake2b.hash (fingerprint 2 r) ≠ Blake2b.hash (fingerprint 3 r) := by
    decide +kernel
  have hthird : Blake2b.hash (fingerprint 1 r) ≠ Blake2b.hash (fingerprint 3 r) := by
    decide +kernel
  have hfree : CollisionFree (history series) := by
    have hkey : ∀ s ∈ history series, (s.number = 1 ∨ s.number = 2 ∨ s.number = 3) ∧ s.request = r := by
      change ∀ s ∈ [(⟨1, r, .whole⟩ : Served), ⟨2, r, .refused 5 "disk full"⟩, ⟨3, r, .broken 0⟩,
        ⟨1, r, .whole⟩], _
      simp
    intro s hs t ht hhash
    rcases hkey s hs with ⟨hnumber, hrequest⟩
    rcases hkey t ht with ⟨hnumber', hrequest'⟩
    rw [hrequest, hrequest'] at hhash ⊢
    rcases hnumber with h | h | h <;> rcases hnumber' with h' | h' | h' <;> rw [h, h'] at hhash ⊢
    · exact absurd hhash hfirst
    · exact absurd hhash hthird
    · exact absurd hhash.symm hfirst
    · exact absurd hhash hsecond
    · exact absurd hhash.symm hthird
    · exact absurd hhash.symm hsecond
  exact ⟨hfree, sessions_recorded hfree⟩

/-- Whatever the file holds, a session answers its first request by the identity over one; so two
sessions whose first request is the same give it the same identity, and two lines tell it. -/
theorem first_request_of_two_sessions :
    let r : Request := ⟨[0xc3, 0x01], 7, ⟨.fill 20 0xa0⟩⟩
    let series : List (List (Request × Write)) := [[(r, .whole)], [(r, .whole)]]
    CollisionFree (history series) ∧
      (requestId 1 r).text = "c3080f79d3bc051d3f7ca8e4e54af45c3ba754b8cc13cd550b6046f017de6c75" ∧
      (∀ text, (sendAll [r] (resume text)).1 = [requestId 1 r]) ∧
      (sessions series []).1 = [[.taken (requestId 1 r)], [.taken (requestId 1 r)]] ∧
      Outbox.told (sessions series []).2 = [⟨requestId 1 r, r⟩, ⟨requestId 1 r, r⟩] ∧
      ¬ ((Outbox.told (sessions series []).2).map OutboxEntry.id).Nodup := by
  intro r series
  have htold : Outbox.told (sessions series []).2 = [⟨requestId 1 r, r⟩, ⟨requestId 1 r, r⟩] := by
    have hclean : ∀ s ∈ history series, s.write = .whole ∨ s.part = [] := by
      change ∀ s ∈ [(⟨1, r, .whole⟩ : Served), ⟨1, r, .whole⟩], _
      simp
    rw [text_sessions, List.nil_append, told_of_clean hclean]
    rfl
  refine ⟨?_, by decide +kernel, fun text => rfl, rfl, htold, by simp [htold]⟩
  intro s hs t ht _
  have hs : s ∈ [⟨1, r, .whole⟩, ⟨1, r, .whole⟩] := hs
  have ht : t ∈ [⟨1, r, .whole⟩, ⟨1, r, .whole⟩] := ht
  simp only [List.mem_cons, List.not_mem_nil, or_false, or_self] at hs ht
  rw [hs, ht]

/-- An identity of which no line tells, as its line is behind what a session before has left. -/
theorem identity_behind_a_part :
    let r : Request := ⟨[0xc3, 0x01], 7, ⟨.fill 20 0xa0⟩⟩
    let series : List (List (Request × Write)) := [[(r, .broken 1)], [(r, .whole)]]
    (sessions series []).1 = [[.none], [.taken (requestId 1 r)]] ∧
      Outbox.told (sessions series []).2 = [] := by
  intro r series
  refine ⟨rfl, ?_⟩
  let e : OutboxEntry := ⟨requestId 1 r, r⟩
  rcases e.line_begins with ⟨l, hl⟩
  have hpart : Served.part ⟨1, r, .broken 1⟩ = ['\x7b'] := by
    change (e.line.toList ++ ['\n']).take 1 = _
    rw [hl]
    rfl
  have hprefix : ['\x7b'] <+: e.line.toList := ⟨_, hl.symm⟩
  have hread : read? ('\x7b' :: e.line.toList) = none := by
    refine Option.eq_none_iff_forall_ne_some.mpr fun e' hread => e.line_ne_nil ?_
    exact (OutboxEntry.eq_of_ofLine?_part hprefix (List.cons_ne_nil _ _) e.foreign_line hread).1
  have hlines : linesAfter [] (history series) = ['\x7b' :: e.line.toList, []] := by
    change linesAfter [] [⟨1, r, .broken 1⟩, ⟨1, r, .whole⟩] = _
    rw [linesAfter_of_part (by rw [hpart]; exact hprefix), hpart,
      linesAfter_of_line (part_of_whole rfl)]
    rfl
  rw [text_sessions, List.nil_append, told_textOf, hlines, List.filterMap_cons_none hread]
  rfl

end CivicLedger.Outbox
