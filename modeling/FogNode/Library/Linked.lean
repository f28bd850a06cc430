import Mathlib.Data.List.Basic
import Mathlib.Data.List.Infix
import Mathlib.Tactic.Common

namespace FogNode.Library

/-- How the items of a chain refer to each other: each has a position and a name, and
gives the name of the item before it. -/
structure Links (β η : Type) where
  index : β → ℕ
  prev : β → η
  name : β → η

variable {β η : Type} {L : Links β η} {i : ℕ} {h : η} {l m : List β} {b : β}

/-- The items stand at consecutive positions from `i` on, and the first of them comes
after the item named `h`. -/
def Linked (L : Links β η) : ℕ → η → List β → Prop
  | _, _, [] => True
  | i, h, b :: l => L.index b = i ∧ L.prev b = h ∧ Linked L (i + 1) (L.name b) l

/-- The name of the last item, or `h` where there is none. -/
def lastName (L : Links β η) : η → List β → η
  | h, [] => h
  | _, b :: l => lastName L (L.name b) l

theorem lastName_snoc (h : η) (l : List β) (b : β) : lastName L h (l ++ [b]) = L.name b := by
  induction l generalizing h with
  | nil => rfl
  | cons c l ih => exact ih (L.name c)

theorem linked_append : Linked L i h (l ++ m) ↔
    Linked L i h l ∧ Linked L (i + l.length) (lastName L h l) m := by
  induction l generalizing i h with
  | nil => simp [Linked, lastName]
  | cons b l ih =>
    simp only [List.cons_append, Linked, lastName, List.length_cons, ih, and_assoc]
    rw [Nat.add_right_comm, Nat.add_assoc i l.length 1]

theorem Linked.of_prefix (hm : Linked L i h m) (hl : l <+: m) : Linked L i h l := by
  obtain ⟨tail, rfl⟩ := hl
  exact (linked_append.mp hm).1

theorem Linked.index_eq (hl : Linked L i h l) {k : ℕ} (hk : l[k]? = some b) :
    L.index b = i + k := by
  induction l generalizing i h k with
  | nil => simp at hk
  | cons c l ih =>
    cases k with
    | zero =>
      obtain rfl : c = b := by simpa using hk
      exact hl.1
    | succ k =>
      have htail := ih hl.2.2 (by simpa using hk)
      omega

theorem Linked.prev_head (hl : Linked L i h l) (hb : l[0]? = some b) : L.prev b = h := by
  cases l with
  | nil => simp at hb
  | cons c l =>
    obtain rfl : c = b := by simpa using hb
    exact hl.2.1

theorem Linked.prev_eq (hl : Linked L i h l) {k : ℕ} {c : β} (hb : l[k]? = some b)
    (hc : l[k + 1]? = some c) : L.prev c = L.name b := by
  induction l generalizing i h k with
  | nil => simp at hb
  | cons d l ih =>
    cases k with
    | zero =>
      obtain rfl : d = b := by simpa using hb
      exact hl.2.2.prev_head (by simpa using hc)
    | succ k => exact ih hl.2.2 (by simpa using hb) (by simpa using hc)

/-- Items of a chain that still stand at their positions are its first ones. -/
theorem Linked.prefix_of_sublist (hm : Linked L i h m) (hsub : l.Sublist m)
    (hl : ∀ k b, l[k]? = some b → L.index b = i + k) : l <+: m := by
  rw [List.prefix_iff_getElem?]
  intro k hk
  have hb : l[k]? = some l[k] := List.getElem?_eq_getElem hk
  obtain ⟨j, hj, heq⟩ := List.getElem_of_mem (hsub.subset (List.getElem_mem hk))
  have hj' : m[j]? = some l[k] := by rw [List.getElem?_eq_getElem hj, heq]
  have hindex := (hm.index_eq hj').symm.trans (hl k _ hb)
  obtain rfl : j = k := by omega
  exact hj'

theorem linked_sublist_iff (hm : Linked L i h m) (hsub : l.Sublist m) :
    Linked L i h l ↔ l <+: m := by
  constructor
  · intro hl
    exact hm.prefix_of_sublist hsub fun k b hb ↦ hl.index_eq hb
  · exact hm.of_prefix

end FogNode.Library
