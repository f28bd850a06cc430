import FogNode.Library.SingleUse
import FogNode.Source.ProofPackage
import FogNode.Source.TokenStore
import Mathlib.Algebra.Order.Group.Unbundled.Basic
import Mathlib.Algebra.Order.Ring.Rat
import Mathlib.Data.List.Perm.Subperm
import Mathlib.Tactic.Linarith
import Mathlib.Tactic.NormNum

namespace FogNode.Proofs

open FogNode.Library FogNode.Source

/-- Whom a nonce is for: a purpose, and a subject where the one given is text. -/
abbrev Holder := String × Option String

def ticket (e : NonceEntry) : Ticket Holder ℚ := ⟨(e.purpose, some e.subject), e.expiresAt, e.used⟩

/-- The call as one on tickets that are never forgotten. -/
def ticketCall (ttl : ℚ) : NonceCall → TicketCall String Holder ℚ
  | .issue now purpose subject nonce => .issue (Double.add now ttl) (purpose, some subject) nonce
  | .consume now purpose subject nonce => .redeem now (purpose, strField subject) nonce

abbrev bookAfter (ttl : ℚ) (calls : List NonceCall) : NonceBook := run (callBook ttl) ∅ calls

noncomputable abbrev tickets (ttl : ℚ) (calls : List NonceCall) : Tickets String Holder ℚ :=
  ticketsAfter (calls.map (ticketCall ttl))

/-- What `consume` answers after the listed calls. -/
def consumeAnswer (ttl : ℚ) (calls : List NonceCall) (now : ℚ) (purpose : String)
    (subject : Json) (nonce : String) : NonceStatus :=
  (NonceBook.consume (bookAfter ttl calls) now purpose subject nonce).1

variable {ttl : ℚ} {calls past : List NonceCall} {book : NonceBook}
  {t : Tickets String Holder ℚ} {n : String} {e : NonceEntry}

@[simp] theorem issued_ticketCall (c : NonceCall) : (ticketCall ttl c).issued = c.drawn := by
  cases c <;> rfl

theorem strField_eq_some {subject : Json} {s : String} :
    strField subject = some s ↔ subject = .str s := by
  cases subject <;> simp [strField]

theorem consume_unknown (h : book.get? n = none) (now : ℚ) (purpose : String) (subject : Json) :
    NonceBook.consume book now purpose subject n = (.unknown, book) := by
  rw [NonceBook.consume, h]

theorem consume_held (h : book.get? n = some e) (now : ℚ) (purpose : String) (subject : Json) :
    NonceBook.consume book now purpose subject n =
      if (ticket e).holder ≠ (purpose, strField subject) then (.wrongSubject, book)
      else if e.used then (.reused, book)
      else if e.expiresAt < now then (.expired, book.erase n)
      else (.ok, book.set n { e with used := true }) := by
  rw [NonceBook.consume, h]
  cases subject with
  | str s => simp only [ticket, strField, ne_eq, Prod.mk.injEq, Option.some.injEq, not_and_or]
  | _ => simp [ticket, strField]

theorem consume_ok_iff (h : book.get? n = some e) (now : ℚ) (purpose : String) (subject : Json) :
    (NonceBook.consume book now purpose subject n).1 = .ok ↔
      (ticket e).holder = (purpose, strField subject) ∧ e.used = false ∧ now ≤ e.expiresAt := by
  rw [consume_held h]
  split_ifs with hholder hused hlate
  · simp [hholder]
  · simp [hused]
  · simp [hlate]
  · simpa [not_lt.mp hlate, hused] using hholder

theorem exists_of_consume_ok {now : ℚ} {purpose : String} {subject : Json}
    (h : (NonceBook.consume book now purpose subject n).1 = .ok) :
    ∃ e, book.get? n = some e ∧ (ticket e).holder = (purpose, strField subject) ∧
      e.used = false ∧ now ≤ e.expiresAt := by
  cases he : book.get? n with
  | none =>
    rw [consume_unknown he] at h
    cases h
  | some e => exact ⟨e, rfl, (consume_ok_iff he now purpose subject).mp h⟩

/-- The book holds tickets only, and every ticket that no clock reading was past. -/
structure Represents (past : List NonceCall) (book : NonceBook) (t : Tickets String Holder ℚ) :
    Prop where
  held : ∀ n e, book.get? n = some e → t n = some (ticket e)
  kept : ∀ n x, t n = some x → (∀ c ∈ past, c.now ≤ x.deadline) → ∃ e, book.get? n = some e

theorem Represents.issue (h : Represents past book t) (now : ℚ) (purpose subject nonce : String) :
    Represents (past ++ [.issue now purpose subject nonce])
      (callBook ttl book (.issue now purpose subject nonce))
      (ticketStep t (ticketCall ttl (.issue now purpose subject nonce))) where
  held n e he := by
    simp only [callBook, NonceBook.issue] at he
    by_cases hn : n = nonce
    · subst hn
      rw [Dict.get?_set_self] at he
      cases he
      exact ticketStep_issue _ _ _ _
    · rw [Dict.get?_set_of_ne _ _ hn, NonceBook.purge, Dict.get?_filter,
        Option.filter_eq_some_iff] at he
      rw [ticketCall, ticketStep_issue_of_ne hn]
      exact h.held n e he.1
  kept n x hx hpast := by
    simp only [callBook, NonceBook.issue]
    by_cases hn : n = nonce
    · subst hn
      exact ⟨_, Dict.get?_set_self _ _ _⟩
    · rw [ticketCall, ticketStep_issue_of_ne hn] at hx
      obtain ⟨e, he⟩ := h.kept n x hx fun c hc ↦ hpast c (List.mem_append_left _ hc)
      have hnow : now ≤ x.deadline := hpast _ (List.mem_append_right _ List.mem_cons_self)
      cases (h.held n e he).symm.trans hx
      refine ⟨e, ?_⟩
      rw [Dict.get?_set_of_ne _ _ hn, NonceBook.purge, Dict.get?_filter,
        Option.filter_eq_some_iff]
      exact ⟨he, decide_eq_true hnow⟩

theorem Represents.redeems_iff (h : Represents past book t) (he : book.get? n = some e) (now : ℚ)
    (purpose : String) (subject : Json) :
    Redeems t now (purpose, strField subject) n ↔
      (NonceBook.consume book now purpose subject n).1 = .ok := by
  rw [consume_ok_iff he]
  constructor
  · rintro ⟨x, hx, hx'⟩
    cases (h.held n e he).symm.trans hx
    exact hx'
  · exact fun hok ↦ ⟨ticket e, h.held n e he, hok⟩

theorem Represents.consume (h : Represents past book t) (now : ℚ) (purpose : String)
    (subject : Json) (nonce : String) :
    Represents (past ++ [.consume now purpose subject nonce])
      (callBook ttl book (.consume now purpose subject nonce))
      (ticketStep t (ticketCall ttl (.consume now purpose subject nonce))) := by
  have hnow : ∀ {x : ℚ}, (∀ c ∈ past ++ [.consume now purpose subject nonce], c.now ≤ x) →
      (∀ c ∈ past, c.now ≤ x) ∧ now ≤ x := fun hpast ↦
    ⟨fun c hc ↦ hpast c (List.mem_append_left _ hc),
      hpast (.consume now purpose subject nonce) (List.mem_append_right _ List.mem_cons_self)⟩
  simp only [callBook, ticketCall]
  cases he : book.get? nonce with
  | none =>
    rw [consume_unknown he]
    refine ⟨fun n e hn ↦ ?_, fun n x hx hpast ↦ ?_⟩
    · have hne : n ≠ nonce := by
        rintro rfl
        rw [he] at hn
        cases hn
      rw [ticketStep_redeem_of_ne hne]
      exact h.held n e hn
    · obtain ⟨y, hy, -, hdeadline⟩ := redeemed_before hx
      rw [hdeadline] at hpast
      exact h.kept n y hy (hnow hpast).1
  | some e =>
    have hiff := h.redeems_iff he now purpose subject
    by_cases hok : (NonceBook.consume book now purpose subject nonce).1 = .ok
    · obtain ⟨hholder, hused, hexp⟩ := (consume_ok_iff he now purpose subject).mp hok
      rw [consume_held he, if_neg (not_not.mpr hholder), hused, if_neg Bool.false_ne_true,
        if_neg (not_lt.mpr hexp)]
      refine ⟨fun n e' hn ↦ ?_, fun n x hx hpast ↦ ?_⟩
      · rw [Dict.get?_set] at hn
        by_cases hne : n = nonce
        · subst hne
          rw [if_pos rfl] at hn
          cases hn
          rw [← hholder]
          exact ticketStep_redeem (h.held n e he) hused hexp
        · rw [if_neg hne] at hn
          rw [ticketStep_redeem_of_ne hne]
          exact h.held n e' hn
      · rw [Dict.get?_set]
        by_cases hne : n = nonce
        · exact ⟨_, if_pos hne⟩
        · rw [ticketStep_redeem_of_ne hne] at hx
          rw [if_neg hne]
          exact h.kept n x hx (hnow hpast).1
    · rw [redeem_of_not fun hr ↦ hok (hiff.mp hr)]
      rw [consume_held he] at hok ⊢
      split_ifs at hok ⊢ with hholder hused hlate
      · exact ⟨h.held, fun n x hx hpast ↦ h.kept n x hx (hnow hpast).1⟩
      · exact ⟨h.held, fun n x hx hpast ↦ h.kept n x hx (hnow hpast).1⟩
      · refine ⟨fun n e' hn ↦ h.held n e' (Dict.get?_erase_some hn).2, fun n x hx hpast ↦ ?_⟩
        obtain ⟨e', he'⟩ := h.kept n x hx (hnow hpast).1
        have hne : n ≠ nonce := by
          rintro rfl
          cases he.symm.trans he'
          cases (h.held n e he).symm.trans hx
          exact not_le.mpr hlate (hnow hpast).2
        exact ⟨e', by rw [Dict.get?_erase, if_neg hne, he']⟩
      · exact absurd rfl hok

theorem tickets_split (ttl : ℚ) (l : List NonceCall) (c : NonceCall) (m : List NonceCall) :
    tickets ttl (l ++ c :: m) =
      run ticketStep (ticketStep (tickets ttl l) (ticketCall ttl c)) (m.map (ticketCall ttl)) := by
  rw [tickets, List.map_append, List.map_cons, ticketsAfter, run_append, run_cons]

/-- After every run the book represents the tickets issued and redeemed in it. -/
theorem represents (ttl : ℚ) (calls : List NonceCall) :
    Represents calls (bookAfter ttl calls) (tickets ttl calls) := by
  refine run_history (fun l book ↦ Represents l book (tickets ttl l)) ?_ ?_ calls
  · exact ⟨fun n e h ↦ by simp at h, fun n x h ↦ by cases h⟩
  · intro l c h
    rw [tickets_split, List.map_nil, run_nil]
    cases c with
    | issue now purpose subject nonce => exact h.issue now purpose subject nonce
    | consume now purpose subject nonce => exact h.consume now purpose subject nonce

theorem mem_ticketCalls {deadline : ℚ} {holder : Holder}
    (h : .issue deadline holder n ∈ calls.map (ticketCall ttl)) :
    ∃ now purpose subject, .issue now purpose subject n ∈ calls ∧ deadline = Double.add now ttl ∧
      holder = (purpose, some subject) := by
  obtain ⟨c, hc, heq⟩ := List.mem_map.mp h
  cases c with
  | issue now purpose subject nonce =>
    cases heq
    exact ⟨now, purpose, subject, hc, rfl, rfl⟩
  | consume now purpose subject nonce => cases heq

theorem entry_issued (he : (bookAfter ttl calls).get? n = some e) :
    ∃ now, .issue now e.purpose e.subject n ∈ calls ∧ e.expiresAt = Double.add now ttl := by
  obtain ⟨l₁, l₂, hsplit⟩ := ticket_origin ((represents ttl calls).held n e he)
  have hmem : .issue e.expiresAt (e.purpose, some e.subject) n ∈ calls.map (ticketCall ttl) := by
    rw [hsplit]
    exact List.mem_append_right _ List.mem_cons_self
  obtain ⟨now, purpose, subject, hissue, hdeadline, hholder⟩ := mem_ticketCalls hmem
  cases hholder
  exact ⟨now, hissue, hdeadline⟩

/-- All random draws of the calls. -/
abbrev draws (calls : List NonceCall) : List String := calls.filterMap NonceCall.drawn

/-- A value that was drawn is not drawn by the calls after it. -/
theorem not_issued_after (ttl : ℚ) {l m : List NonceCall} (hdistinct : (draws (l ++ m)).Nodup)
    {c : NonceCall} (hc : c ∈ l) (hn : c.drawn = some n) :
    ∀ d ∈ m.map (ticketCall ttl), d.issued ≠ some n := by
  intro d hd hdn
  obtain ⟨d, hmem, rfl⟩ := List.mem_map.mp hd
  rw [issued_ticketCall] at hdn
  rw [draws, List.filterMap_append] at hdistinct
  exact (List.nodup_append.mp hdistinct).2.2 n (List.mem_filterMap.mpr ⟨c, hc, hn⟩) n
    (List.mem_filterMap.mpr ⟨d, hmem, hdn⟩) rfl

/-- The clock readings of the calls do not decrease. -/
def ClockForward (calls : List NonceCall) : Prop := (calls.map NonceCall.now).Pairwise (· ≤ ·)

instance (calls : List NonceCall) : Decidable (ClockForward calls) :=
  inferInstanceAs (Decidable (List.Pairwise _ _))

theorem ClockForward.le {l m : List NonceCall} {c : NonceCall} (h : ClockForward (l ++ c :: m)) :
    ∀ d ∈ l, d.now ≤ c.now := by
  intro d hd
  rw [ClockForward, List.map_append, List.map_cons] at h
  exact (List.pairwise_append.mp h).2.2 _ (List.mem_map_of_mem hd) _ List.mem_cons_self

/-- An issue at `now` whose nonce an issue at `stop` leaves in the book. -/
def Live (ttl stop now : ℚ) : Prop := now = stop ∨ stop ≤ Double.add now ttl

instance (ttl stop now : ℚ) : Decidable (Live ttl stop now) :=
  inferInstanceAs (Decidable (_ ∨ _))

/-- The issues up to `stop` whose nonces an issue at `stop` leaves in the book. -/
def liveIssues (ttl stop : ℚ) (calls : List NonceCall) : List NonceCall :=
  calls.filter fun c ↦ decide (c.drawn.isSome ∧ Live ttl stop c.now ∧ c.now ≤ stop)

/-- The issues at clock readings from `start` to `stop`. -/
def issuesBetween (start stop : ℚ) (calls : List NonceCall) : List NonceCall :=
  calls.filter fun c ↦ decide (c.drawn.isSome ∧ start ≤ c.now ∧ c.now ≤ stop)

/-- What single use comes to after the listed calls on a book with the given `ttl`. -/
structure SingleUse (ttl : ℚ) (calls : List NonceCall) : Prop where
  refines : Represents calls (bookAfter ttl calls) (tickets ttl calls)
  bound : ∀ now purpose subject n, consumeAnswer ttl calls now purpose subject n = .ok →
    ∃ at' text, subject = .str text ∧ .issue at' purpose text n ∈ calls ∧ now ≤ Double.add at' ttl
  once : ∀ l now purpose subject n m, calls = l ++ .consume now purpose subject n :: m →
    consumeAnswer ttl l now purpose subject n = .ok →
    ∀ now' purpose' subject', consumeAnswer ttl calls now' purpose' subject' n ≠ .ok
  wrong : ∀ at' purpose text n, .issue at' purpose text n ∈ calls →
    ∀ now purpose' subject, purpose' ≠ purpose ∨ subject ≠ .str text →
    callBook ttl (bookAfter ttl calls) (.consume now purpose' subject n) = bookAfter ttl calls
  first : ∀ l at' purpose text n m, calls = l ++ .issue at' purpose text n :: m → ∀ now,
    ClockForward (calls ++ [.consume now purpose (.str text) n]) → now ≤ Double.add at' ttl →
    (∀ now', .consume now' purpose (.str text) n ∉ m) →
    consumeAnswer ttl calls now purpose (.str text) n = .ok
  later : ∀ l at' purpose text n m, calls = l ++ .issue at' purpose text n :: m → ∀ now,
    ClockForward (calls ++ [.consume now purpose (.str text) n]) → now ≤ Double.add at' ttl →
    ∀ now', .consume now' purpose (.str text) n ∈ m →
    consumeAnswer ttl calls now purpose (.str text) n = .reused
  window : ∀ l at' purpose text n, calls = l ++ [.issue at' purpose text n] →
    ∀ k e, (bookAfter ttl calls).get? k = some e →
    ∃ now, .issue now e.purpose e.subject k ∈ calls ∧ e.expiresAt = Double.add now ttl ∧
      Live ttl at' now ∧ (0 ≤ ttl → at' - ttl ≤ now + |now + ttl| / 2 ^ 53 ∧
        (Double.add now ttl = now + ttl → at' - ttl ≤ now))
  bounded : ClockForward calls → ∀ l at' purpose text n m,
    calls = l ++ .issue at' purpose text n :: m → draws m = [] →
    (bookAfter ttl calls).size ≤ (liveIssues ttl at' calls).length ∧
      (0 ≤ ttl → (∀ c ∈ calls, Double.add c.now ttl = c.now + ttl) →
        (bookAfter ttl calls).size ≤ (issuesBetween (at' - ttl) at' calls).length)

section parts

variable {now at' : ℚ} {purpose text : String} {subject : Json} {l m : List NonceCall}

theorem bound_of_ok (h : consumeAnswer ttl calls now purpose subject n = .ok) :
    ∃ at' text, subject = .str text ∧ .issue at' purpose text n ∈ calls ∧
      now ≤ Double.add at' ttl := by
  obtain ⟨e, he, hholder, -, hnow⟩ := exists_of_consume_ok h
  obtain ⟨at', hissue, hexp⟩ := entry_issued he
  simp only [ticket, Prod.mk.injEq] at hholder
  obtain ⟨rfl, hsubject⟩ := hholder
  exact ⟨at', e.subject, strField_eq_some.mp hsubject.symm, hissue, hexp ▸ hnow⟩

theorem spent_after (hdistinct : (draws (l ++ .consume now purpose subject n :: m)).Nodup)
    (h : consumeAnswer ttl l now purpose subject n = .ok) :
    ∃ x, tickets ttl (l ++ .consume now purpose subject n :: m) n = some x ∧ x.spent = true := by
  obtain ⟨at', text, -, hissue, -⟩ := bound_of_ok h
  obtain ⟨e, he, hholder, hused, hnow⟩ := exists_of_consume_ok h
  have hm := not_issued_after ttl (List.append_cons _ _ _ ▸ hdistinct)
    (List.mem_append_left _ hissue) rfl
  refine ⟨(ticket e).spend, ?_, rfl⟩
  rw [tickets_split]
  refine spent_stays ?_ rfl hm
  rw [ticketCall, ← hholder]
  exact ticketStep_redeem ((represents ttl l).held n e he) hused hnow

theorem ok_once (hdistinct : (draws (l ++ .consume now purpose subject n :: m)).Nodup)
    (h : consumeAnswer ttl l now purpose subject n = .ok) (now' : ℚ) (purpose' : String)
    (subject' : Json) : consumeAnswer ttl (l ++ .consume now purpose subject n :: m) now' purpose'
      subject' n ≠ .ok := by
  intro h'
  obtain ⟨x, hx, hspent⟩ := spent_after hdistinct h
  obtain ⟨e, he, -, hused, -⟩ := exists_of_consume_ok h'
  cases ((represents ttl _).held n e he).symm.trans hx
  rw [ticket, hused] at hspent
  cases hspent

theorem issued_ticket (ttl : ℚ) (hdistinct : (draws calls).Nodup)
    (h : .issue at' purpose text n ∈ calls) :
    ∃ spent, tickets ttl calls n = some ⟨(purpose, some text), Double.add at' ttl, spent⟩ := by
  obtain ⟨l, m, rfl⟩ := List.append_of_mem h
  rw [List.append_cons] at hdistinct
  have hm := not_issued_after ttl hdistinct (List.mem_append_right _ List.mem_cons_self) rfl
  rw [tickets, List.map_append, List.map_cons]
  exact ticket_of_issue hm

theorem wrong_unchanged (hdistinct : (draws calls).Nodup)
    (h : .issue at' purpose text n ∈ calls) {purpose' : String}
    (hwrong : purpose' ≠ purpose ∨ subject ≠ .str text) :
    callBook ttl (bookAfter ttl calls) (.consume now purpose' subject n) =
      bookAfter ttl calls := by
  rw [callBook]
  cases he : (bookAfter ttl calls).get? n with
  | none => rw [consume_unknown he]
  | some e =>
    obtain ⟨spent, hx⟩ := issued_ticket ttl hdistinct h
    have hholder : (ticket e).holder = (purpose, some text) := by
      rw [Option.some.inj (((represents ttl calls).held n e he).symm.trans hx)]
    rw [consume_held he, hholder, if_pos]
    intro heq
    obtain ⟨hp, hs⟩ := Prod.mk.inj heq
    rcases hwrong with hwrong | hwrong
    · exact hwrong hp.symm
    · exact hwrong (strField_eq_some.mp hs.symm)

/-- A ticket whose deadline no clock reading is past is still in the book. -/
theorem entry_of_ticket {x : Ticket Holder ℚ} (hx : tickets ttl calls n = some x)
    (hclock : ClockForward (calls ++ [.consume now purpose subject n])) (hnow : now ≤ x.deadline) :
    ∃ e, (bookAfter ttl calls).get? n = some e ∧ ticket e = x := by
  obtain ⟨e, he⟩ := (represents ttl calls).kept n x hx fun c hc ↦ (hclock.le c hc).trans hnow
  exact ⟨e, he, Option.some.inj (((represents ttl calls).held n e he).symm.trans hx)⟩

theorem first_ok (hdistinct : (draws (l ++ .issue at' purpose text n :: m)).Nodup)
    (hclock : ClockForward (l ++ .issue at' purpose text n :: m ++
      [.consume now purpose (.str text) n])) (hnow : now ≤ Double.add at' ttl)
    (hfirst : ∀ now', .consume now' purpose (.str text) n ∉ m) :
    consumeAnswer ttl (l ++ .issue at' purpose text n :: m) now purpose (.str text) n = .ok := by
  rw [List.append_cons] at hdistinct
  have hm := not_issued_after ttl hdistinct (List.mem_append_right _ List.mem_cons_self) rfl
  have hx : tickets ttl (l ++ .issue at' purpose text n :: m) n =
      some ⟨(purpose, some text), Double.add at' ttl, false⟩ := by
    rw [tickets_split]
    refine untried_stays (ticketStep_issue _ _ _ _) hm fun now' hmem ↦ ?_
    obtain ⟨c, hc, heq⟩ := List.mem_map.mp hmem
    cases c with
    | issue _ _ _ _ => cases heq
    | consume _ _ subject' _ =>
      simp only [ticketCall, TicketCall.redeem.injEq, Prod.mk.injEq] at heq
      obtain ⟨rfl, ⟨rfl, hs⟩, rfl⟩ := heq
      rw [strField_eq_some] at hs
      exact hfirst _ (hs ▸ hc)
  obtain ⟨e, he, hticket⟩ := entry_of_ticket hx hclock hnow
  have hholder : (ticket e).holder = (purpose, some text) := congrArg Ticket.holder hticket
  have hused : e.used = false := congrArg Ticket.spent hticket
  have hexp : e.expiresAt = Double.add at' ttl := congrArg Ticket.deadline hticket
  exact (consume_ok_iff he now purpose (.str text)).mpr ⟨hholder, hused, hexp ▸ hnow⟩

theorem later_reused (hdistinct : (draws (l ++ .issue at' purpose text n :: m)).Nodup)
    (hclock : ClockForward (l ++ .issue at' purpose text n :: m ++
      [.consume now purpose (.str text) n])) (hnow : now ≤ Double.add at' ttl) {now' : ℚ}
    (hlater : .consume now' purpose (.str text) n ∈ m) :
    consumeAnswer ttl (l ++ .issue at' purpose text n :: m) now purpose (.str text) n =
      .reused := by
  have hnow' : now' ≤ now :=
    hclock.le (.consume now' purpose (.str text) n) (by simp [hlater])
  rw [List.append_cons] at hdistinct
  have hm := not_issued_after ttl hdistinct (List.mem_append_right _ List.mem_cons_self) rfl
  have hx : tickets ttl (l ++ .issue at' purpose text n :: m) n =
      some ⟨(purpose, some text), Double.add at' ttl, true⟩ := by
    rw [tickets_split]
    exact tried_spent (ticketStep_issue _ _ _ _) hm (List.mem_map_of_mem hlater)
      (hnow'.trans hnow)
  obtain ⟨e, he, hticket⟩ := entry_of_ticket hx hclock hnow
  have hholder : (ticket e).holder = (purpose, strField (.str text)) :=
    congrArg Ticket.holder hticket
  have hused : e.used = true := congrArg Ticket.spent hticket
  rw [consumeAnswer, consume_held he, if_neg (not_not.mpr hholder), if_pos hused]

/-- The live issues are no older than the ttl, but for the rounding of one sum. -/
theorem Live.near (httl : 0 ≤ ttl) (h : Live ttl at' now) :
    at' - ttl ≤ now + |now + ttl| / 2 ^ 53 := by
  rcases h with rfl | h
  · exact (sub_le_self _ httl).trans (le_add_of_nonneg_right (by positivity))
  · have herror := (abs_le.mp (Double.round_error (now + ttl))).2
    rw [Double.add] at h
    linarith

theorem Live.exact (httl : 0 ≤ ttl) (h : Live ttl at' now)
    (hexact : Double.add now ttl = now + ttl) : at' - ttl ≤ now := by
  rcases h with rfl | h
  · exact sub_le_self _ httl
  · exact sub_le_iff_le_add.mpr (hexact ▸ h)

/-- What is left in the book right after an issue is live at it. -/
theorem issue_window {k : String}
    (he : (bookAfter ttl (l ++ [.issue at' purpose text n])).get? k = some e) :
    ∃ now, .issue now e.purpose e.subject k ∈ l ++ [.issue at' purpose text n] ∧
      e.expiresAt = Double.add now ttl ∧ Live ttl at' now := by
  rw [bookAfter, run_snoc, callBook, NonceBook.issue] at he
  by_cases hk : k = n
  · subst hk
    rw [Dict.get?_set_self] at he
    cases he
    exact ⟨at', List.mem_append_right _ List.mem_cons_self, rfl, .inl rfl⟩
  · rw [Dict.get?_set_of_ne _ _ hk, NonceBook.purge, Dict.get?_filter,
      Option.filter_eq_some_iff] at he
    obtain ⟨now, hissue, hexp⟩ := entry_issued he.1
    have hlive : at' ≤ Double.add now ttl := hexp ▸ of_decide_eq_true he.2
    exact ⟨now, List.mem_append_left _ hissue, hexp, .inr hlive⟩

theorem key_before (hm : draws m = []) {k : String}
    (h : k ∈ (run (callBook ttl) book m).keys) : k ∈ book.keys := by
  induction m using List.reverseRecOn with
  | nil => exact h
  | append_singleton m c ih =>
    rw [draws, List.filterMap_append, List.append_eq_nil_iff] at hm
    refine ih hm.1 ?_
    rw [run_snoc] at h
    generalize run (callBook ttl) book m = b at h
    cases c with
    | issue now purpose subject nonce => simp [NonceCall.drawn] at hm
    | consume now purpose subject nonce =>
      rw [callBook] at h
      obtain ⟨e, he⟩ := Dict.mem_keys.mp h
      cases hb : b.get? nonce with
      | none => rwa [consume_unknown hb] at h
      | some e' =>
        rw [consume_held hb] at he
        split_ifs at he
        · exact Dict.mem_keys.mpr ⟨e, he⟩
        · exact Dict.mem_keys.mpr ⟨e, he⟩
        · exact Dict.mem_keys.mpr ⟨e, (Dict.get?_erase_some he).2⟩
        · rw [Dict.get?_set] at he
          split at he
          case isTrue hk => exact Dict.mem_keys.mpr ⟨e', hk ▸ hb⟩
          case isFalse => exact Dict.mem_keys.mpr ⟨e, he⟩

theorem size_bounded (hclock : ClockForward (l ++ .issue at' purpose text n :: m))
    (hm : draws m = []) :
    (bookAfter ttl (l ++ .issue at' purpose text n :: m)).size ≤
      (liveIssues ttl at' (l ++ .issue at' purpose text n :: m)).length := by
  have hkeys : ∀ k ∈ (bookAfter ttl (l ++ .issue at' purpose text n :: m)).keys,
      k ∈ draws (liveIssues ttl at' (l ++ .issue at' purpose text n :: m)) := by
    intro k hk
    rw [List.append_cons, bookAfter, run_append] at hk
    obtain ⟨e, he⟩ := Dict.mem_keys.mp (key_before hm hk)
    obtain ⟨now, hissue, -, hlive⟩ := issue_window he
    have hstop : now ≤ at' := by
      rcases List.mem_append.mp hissue with hissue | hissue
      · exact hclock.le _ hissue
      · cases List.mem_singleton.mp hissue
        exact le_refl _
    refine List.mem_filterMap.mpr ⟨.issue now e.purpose e.subject k,
      List.mem_filter.mpr ⟨?_, decide_eq_true ?_⟩, rfl⟩
    · rw [List.append_cons]
      exact List.mem_append_left _ hissue
    · exact ⟨rfl, hlive, hstop⟩
  calc (bookAfter ttl (l ++ .issue at' purpose text n :: m)).size
      = (bookAfter ttl (l ++ .issue at' purpose text n :: m)).keys.length := by
        rw [Dict.size, Dict.keys, List.length_map]
    _ ≤ (draws (liveIssues ttl at' (l ++ .issue at' purpose text n :: m))).length :=
        (List.subperm_of_subset (Dict.nodup _) hkeys).length_le
    _ ≤ (liveIssues ttl at' (l ++ .issue at' purpose text n :: m)).length :=
        List.length_filterMap_le _ _

theorem liveIssues_le (httl : 0 ≤ ttl)
    (hexact : ∀ c ∈ calls, Double.add c.now ttl = c.now + ttl) :
    (liveIssues ttl at' calls).length ≤ (issuesBetween (at' - ttl) at' calls).length := by
  rw [liveIssues, issuesBetween, ← List.countP_eq_length_filter, ← List.countP_eq_length_filter]
  refine List.countP_mono_left fun c hc h ↦ decide_eq_true ?_
  obtain ⟨hdrawn, hlive, hstop⟩ := of_decide_eq_true h
  exact ⟨hdrawn, hlive.exact httl (hexact c hc), hstop⟩

/-- The sum of a clock reading of these years, in steps of `2 ^ -22` seconds, and the ttl of
the program is exact. -/
theorem issue_exact (book : NonceBook) {now : ℚ} {ticks : ℤ} (hnow : now = ticks / 2 ^ 22)
    (h0 : 0 ≤ ticks) (h : ticks < 2 ^ 53 - 30 * 2 ^ 22) (purpose subject nonce : String) :
    book.issue Double.add NONCE_TTL_SECONDS now purpose subject nonce =
      book.issue (· + ·) NONCE_TTL_SECONDS now purpose subject nonce := by
  have hsum : now + NONCE_TTL_SECONDS = (ticks + 30 * 2 ^ 22 : ℤ) * 2 ^ (-22 : ℤ) := by
    rw [hnow, NONCE_TTL_SECONDS, zpow_neg]
    push_cast
    norm_num
    ring
  have hadd : Double.add now NONCE_TTL_SECONDS = now + NONCE_TTL_SECONDS :=
    Double.round_eq_self hsum (by rw [abs_of_nonneg] <;> omega)
  rw [NonceBook.issue, hadd, NonceBook.issue]

end parts

/-- A book of nonces is a book of single-use tickets, whatever is asked of it, as long as
no two draws coincide. -/
theorem nonce_single_use (ttl : ℚ) (calls : List NonceCall) (hdistinct : (draws calls).Nodup) :
    SingleUse ttl calls where
  refines := represents ttl calls
  bound _ _ _ _ h := bound_of_ok h
  once l now purpose subject n m hsplit h := by
    subst hsplit
    exact ok_once hdistinct h
  wrong _ _ _ _ h _ _ _ hwrong := wrong_unchanged hdistinct h hwrong
  first l at' purpose text n m hsplit now hclock hnow hfirst := by
    subst hsplit
    exact first_ok hdistinct hclock hnow hfirst
  later l at' purpose text n m hsplit now hclock hnow now' hlater := by
    subst hsplit
    exact later_reused hdistinct hclock hnow hlater
  window l at' purpose text n hsplit k e he := by
    subst hsplit
    obtain ⟨now, hissue, hexp, hlive⟩ := issue_window he
    exact ⟨now, hissue, hexp, hlive, fun httl ↦ ⟨hlive.near httl, hlive.exact httl⟩⟩
  bounded hclock l at' purpose text n m hsplit hm := by
    subst hsplit
    exact ⟨size_bounded hclock hm, fun httl hexact ↦
      (size_bounded hclock hm).trans (liveIssues_le httl hexact)⟩

/-- Two nonces of which the first is tried for the wrong subject and then used. -/
theorem nonce_single_use_two :
    SingleUse 30 [.issue 1 "p" "s" "n", .issue 2 "p" "s" "n'", .consume 3 "p" (.str "s'") "n",
      .consume 4 "p" (.str "s") "n"] :=
  nonce_single_use 30 _ (by decide)

/-- The double nearest to 0.1. -/
def tenth : ℚ := 3602879701896397 / 2 ^ 55

/-- The double nearest to 30.1, which is also the sum of `tenth` and 30 on doubles. -/
def thirtyAndTenth : ℚ := 4236198399495373 / 2 ^ 47

def issuedTwice : List NonceCall := [.issue tenth "p" "s" "n", .issue thirtyAndTenth "p" "s" "n'"]

theorem add_tenth : Double.add tenth 30 = thirtyAndTenth := by
  have hplace : Double.lastPlace (tenth + 30) = -48 := by
    apply Double.lastPlace_eq <;> norm_num [tenth]
  have hfloor : ⌊(tenth + 30) / 2 ^ (-48 : ℤ)⌋ = 8472396798990745 := by
    rw [Int.floor_eq_iff]
    norm_num [tenth]
  have hnearest : Double.nearest ((tenth + 30) / 2 ^ (-48 : ℤ)) = 8472396798990746 := by
    rw [Double.nearest, hfloor]
    norm_num [tenth]
  rw [Double.add, Double.round, hplace, hnearest, thirtyAndTenth]
  norm_num

/-- Two readings that are doubles: the nonce of the first issue is in the book after the
second, though more than 30 seconds older. -/
theorem rounded_sum_keeps :
    (draws issuedTwice).Nodup ∧ ClockForward issuedTwice ∧
      Double.round tenth = tenth ∧ Double.round thirtyAndTenth = thirtyAndTenth ∧
      (∃ k e, (bookAfter 30 issuedTwice).get? k = some e ∧
        ∀ now, .issue now e.purpose e.subject k ∈ issuedTwice → now < thirtyAndTenth - 30) ∧
      (issuesBetween (thirtyAndTenth - 30) thirtyAndTenth issuedTwice).length <
        (bookAfter 30 issuedTwice).size := by
  have hlate : tenth < thirtyAndTenth - 30 := by norm_num [tenth, thirtyAndTenth]
  have hfirst : NonceBook.issue ∅ Double.add 30 tenth "p" "s" "n" =
      Dict.set (NonceBook.purge ∅ tenth) "n" ⟨"p", "s", thirtyAndTenth, false⟩ := by
    rw [NonceBook.issue, add_tenth]
  have hbook : bookAfter 30 issuedTwice = NonceBook.issue
      (Dict.set (NonceBook.purge ∅ tenth) "n" ⟨"p", "s", thirtyAndTenth, false⟩) Double.add 30
        thirtyAndTenth "p" "s" "n'" := hfirst ▸ rfl
  rw [hbook, NonceBook.issue]
  generalize Double.add thirtyAndTenth 30 = expiry
  refine ⟨by decide, by decide +kernel, ?_, ?_,
    ⟨"n", ⟨"p", "s", thirtyAndTenth, false⟩, ?_, fun now hmem ↦ ?_⟩, ?_⟩
  · exact Double.round_eq_self (z := 3602879701896397) (k := -55) (by norm_num [tenth])
      (by norm_num)
  · exact Double.round_eq_self (z := 4236198399495373) (k := -47)
      (by norm_num [thirtyAndTenth]) (by norm_num)
  · rw [Dict.get?_set_of_ne _ _ (by decide), NonceBook.purge, Dict.get?_filter,
      Dict.get?_set_self, Option.filter_some_pos (by simp)]
  · rw [show now = tenth by simpa [issuedTwice] using hmem]
    exact hlate
  · have hone : (issuesBetween (thirtyAndTenth - 30) thirtyAndTenth issuedTwice).length = 1 := by
      decide +kernel
    rw [hone]
    simp [Dict.size, Dict.set, Dict.put, NonceBook.purge, Dict.filter,
      EmptyCollection.emptyCollection, Dict.empty]

end FogNode.Proofs
