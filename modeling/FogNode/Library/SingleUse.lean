import FogNode.Library.Runs
import Mathlib.Logic.Function.Basic

namespace FogNode.Library

/-- A ticket that its holder may redeem once, up to a deadline. -/
structure Ticket (β τ : Type) where
  holder : β
  deadline : τ
  spent : Bool

def Ticket.spend {β τ : Type} (x : Ticket β τ) : Ticket β τ := { x with spent := true }

theorem Ticket.spend_of_spent {β τ : Type} {x : Ticket β τ} (h : x.spent = true) : x.spend = x := by
  cases x
  cases h
  rfl

/-- The tickets issued so far, by name. None is ever forgotten. -/
abbrev Tickets (κ β τ : Type) := κ → Option (Ticket β τ)

inductive TicketCall (κ β τ : Type)
  | issue (deadline : τ) (holder : β) (k : κ)
  | redeem (now : τ) (holder : β) (k : κ)

variable {κ β τ : Type} [DecidableEq κ] [LE τ]

/-- The ticket that the call issues. -/
def TicketCall.issued : TicketCall κ β τ → Option κ
  | .issue _ _ k => some k
  | .redeem _ _ _ => none

/-- The attempt is that of the holder, the first one and in time. -/
def Redeems (t : Tickets κ β τ) (now : τ) (holder : β) (k : κ) : Prop :=
  ∃ x, t k = some x ∧ x.holder = holder ∧ x.spent = false ∧ now ≤ x.deadline

open scoped Classical in
noncomputable def ticketStep (t : Tickets κ β τ) : TicketCall κ β τ → Tickets κ β τ
  | .issue deadline holder k => Function.update t k (some ⟨holder, deadline, false⟩)
  | .redeem now holder k =>
    if Redeems t now holder k then Function.update t k ((t k).map Ticket.spend) else t

noncomputable abbrev ticketsAfter (l : List (TicketCall κ β τ)) : Tickets κ β τ :=
  run ticketStep (fun _ ↦ none) l

variable {t : Tickets κ β τ} {c : TicketCall κ β τ} {k : κ} {x : Ticket β τ}
  {l : List (TicketCall κ β τ)}

theorem ticketStep_issue (t : Tickets κ β τ) (deadline : τ) (holder : β) (k : κ) :
    ticketStep t (.issue deadline holder k) k = some ⟨holder, deadline, false⟩ := by
  rw [ticketStep, Function.update_self]

theorem ticketStep_issue_of_ne {j : κ} (h : k ≠ j) (t : Tickets κ β τ) (deadline : τ)
    (holder : β) : ticketStep t (.issue deadline holder j) k = t k := by
  rw [ticketStep, Function.update_of_ne h]

theorem ticketStep_redeem_of_ne {j : κ} (h : k ≠ j) (t : Tickets κ β τ) (now : τ) (holder : β) :
    ticketStep t (.redeem now holder j) k = t k := by
  rw [ticketStep]
  split
  · exact Function.update_of_ne h _ _
  · rfl

theorem ticketStep_redeem {now : τ} (hx : t k = some x) (hspent : x.spent = false)
    (hnow : now ≤ x.deadline) : ticketStep t (.redeem now x.holder k) k = some x.spend := by
  have hredeems : Redeems t now x.holder k := ⟨x, hx, rfl, hspent, hnow⟩
  rw [ticketStep, if_pos hredeems, Function.update_self, hx, Option.map_some]

theorem redeem_of_not {now : τ} {holder : β} (h : ¬ Redeems t now holder k) :
    ticketStep t (.redeem now holder k) = t := if_neg h

/-- An attempt makes no tickets and moves no deadlines. -/
theorem redeemed_before {now : τ} {holder : β} {j : κ}
    (h : ticketStep t (.redeem now holder j) k = some x) :
    ∃ y, t k = some y ∧ x.holder = y.holder ∧ x.deadline = y.deadline := by
  by_cases hredeems : Redeems t now holder j
  · by_cases hkj : k = j
    · subst hkj
      obtain ⟨y, hy, rfl, hspent, hnow⟩ := hredeems
      rw [ticketStep_redeem hy hspent hnow] at h
      cases h
      exact ⟨y, hy, rfl, rfl⟩
    · rw [ticketStep_redeem_of_ne hkj] at h
      exact ⟨x, h, rfl, rfl⟩
  · rw [redeem_of_not hredeems] at h
    exact ⟨x, h, rfl, rfl⟩

/-- A call that does not issue a ticket leaves it as it is or is its holder redeeming it. -/
theorem ticketStep_cases (hx : t k = some x) (hc : c.issued ≠ some k) :
    ticketStep t c k = some x ∨
    ticketStep t c k = some x.spend ∧ ∃ now, c = .redeem now x.holder k := by
  cases c with
  | issue deadline holder j =>
    have hne : k ≠ j := fun h ↦ hc (congrArg some h.symm)
    exact .inl ((ticketStep_issue_of_ne hne _ _ _).trans hx)
  | redeem now holder j =>
    by_cases hkj : k = j
    · subst hkj
      by_cases hredeems : Redeems t now holder k
      · obtain ⟨y, hy, rfl, hspent, hnow⟩ := hredeems
        cases hx.symm.trans hy
        exact .inr ⟨ticketStep_redeem hx hspent hnow, now, rfl⟩
      · exact .inl (by rw [redeem_of_not hredeems, hx])
    · exact .inl ((ticketStep_redeem_of_ne hkj _ _ _).trans hx)

theorem kept_or_spent (hx : t k = some x) (hl : ∀ c ∈ l, c.issued ≠ some k) :
    run ticketStep t l k = some x ∨ run ticketStep t l k = some x.spend := by
  induction l using List.reverseRecOn with
  | nil => exact .inl hx
  | append_singleton l c ih =>
    have hc := hl c (by simp)
    rw [run_snoc]
    rcases ih fun d hd ↦ hl d (List.mem_append_left _ hd) with h | h
    · exact (ticketStep_cases h hc).imp_right And.left
    · right
      rcases ticketStep_cases h hc with h' | ⟨h', -⟩
      · exact h'
      · rwa [Ticket.spend_of_spent rfl] at h'

theorem spent_stays (hx : t k = some x) (hspent : x.spent = true)
    (hl : ∀ c ∈ l, c.issued ≠ some k) : run ticketStep t l k = some x := by
  rcases kept_or_spent hx hl with h | h
  · exact h
  · rwa [Ticket.spend_of_spent hspent] at h

/-- A ticket that its holder does not try to redeem stays as it is. -/
theorem untried_stays (hx : t k = some x) (hl : ∀ c ∈ l, c.issued ≠ some k)
    (htry : ∀ now, .redeem now x.holder k ∉ l) : run ticketStep t l k = some x := by
  induction l generalizing t with
  | nil => exact hx
  | cons c l ih =>
    rcases ticketStep_cases hx (hl c List.mem_cons_self) with h | ⟨-, now, rfl⟩
    · exact ih h (fun d hd ↦ hl d (List.mem_cons_of_mem _ hd))
        fun now hmem ↦ htry now (List.mem_cons_of_mem _ hmem)
    · exact absurd List.mem_cons_self (htry now)

/-- A ticket that its holder has tried to redeem in time is spent. -/
theorem tried_spent (hx : t k = some x) (hl : ∀ c ∈ l, c.issued ≠ some k) {now : τ}
    (htry : .redeem now x.holder k ∈ l) (hnow : now ≤ x.deadline) :
    run ticketStep t l k = some x.spend := by
  obtain ⟨l₁, l₂, rfl⟩ := List.append_of_mem htry
  have hl₂ : ∀ c ∈ l₂, c.issued ≠ some k := fun c hc ↦ hl c (by simp [hc])
  rw [run_append, run_cons]
  have hspent : ticketStep (run ticketStep t l₁) (.redeem now x.holder k) k = some x.spend := by
    rcases kept_or_spent hx fun c hc ↦ hl c (List.mem_append_left _ hc) with h | h
    · cases hs : x.spent with
      | false => exact ticketStep_redeem h hs hnow
      | true =>
        have hnot : ¬ Redeems (run ticketStep t l₁) now x.holder k := by
          rintro ⟨y, hy, -, hy', -⟩
          cases h.symm.trans hy
          rw [hs] at hy'
          cases hy'
        rw [redeem_of_not hnot, h, Ticket.spend_of_spent hs]
    · have hnot : ¬ Redeems (run ticketStep t l₁) now x.holder k := by
        rintro ⟨y, hy, -, hy', -⟩
        cases h.symm.trans hy
        cases hy'
      rw [redeem_of_not hnot, h]
  exact spent_stays hspent rfl hl₂

/-- Every ticket has been issued, to its holder and with its deadline. -/
theorem ticket_origin (hx : ticketsAfter l k = some x) :
    ∃ l₁ l₂, l = l₁ ++ .issue x.deadline x.holder k :: l₂ := by
  obtain ⟨l₁, c, l₂, rfl, hbefore, y, hy, hholder, hdeadline⟩ := exists_first
    (p := fun t : Tickets κ β τ ↦ ∃ y, t k = some y ∧ y.holder = x.holder ∧
      y.deadline = x.deadline) (by simp) ⟨x, hx, rfl, rfl⟩
  refine ⟨l₁, l₂, ?_⟩
  have hold : ∀ z, run ticketStep (fun _ ↦ none) l₁ k = some z →
      z.holder = x.holder → z.deadline ≠ x.deadline :=
    fun z hz hh hd ↦ hbefore ⟨z, hz, hh, hd⟩
  cases c with
  | issue deadline holder j =>
    by_cases hkj : k = j
    · subst hkj
      rw [ticketStep_issue] at hy
      cases hy
      rw [← hholder, ← hdeadline]
    · rw [ticketStep_issue_of_ne hkj] at hy
      exact absurd hdeadline (hold y hy hholder)
  | redeem now holder j =>
    obtain ⟨z, hz, hzy⟩ := redeemed_before hy
    rw [hzy.1] at hholder
    rw [hzy.2] at hdeadline
    exact absurd hdeadline (hold z hz hholder)

/-- A ticket issued once stays the ticket it was issued as, spent or not. -/
theorem ticket_of_issue {deadline : τ} {holder : β} {l₁ l₂ : List (TicketCall κ β τ)}
    (hl₂ : ∀ c ∈ l₂, c.issued ≠ some k) :
    ∃ spent, ticketsAfter (l₁ ++ .issue deadline holder k :: l₂) k =
      some ⟨holder, deadline, spent⟩ := by
  rw [ticketsAfter, run_append, run_cons]
  rcases kept_or_spent (ticketStep_issue _ deadline holder k) hl₂ with h | h
  · exact ⟨false, h⟩
  · exact ⟨true, h⟩

end FogNode.Library
