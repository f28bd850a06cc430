import FogNode.Library.Tower
import Mathlib.Data.Nat.Log

namespace FogNode.Library

variable {α β : Type} {hash : β → α} {pair : α → α → β} {l : List α} {ls : List (List α)} {r : α}

/-- The node above leaf `i` at level `j` has a sibling: `(i / 2 ^ j) xor 1` is a valid index. -/
def hasSibling (ls : List (List α)) (i j : ℕ) : Bool :=
  ls[j]?.any fun level ↦ decide ((i / 2 ^ j) ^^^ 1 < level.length)

/-- How many nodes level `j` over `n` leaves has: `n / 2 ^ j`, rounded up. -/
def levelSize (n j : ℕ) : ℕ := (n + 2 ^ j - 1) / 2 ^ j

@[simp] theorem levelSize_zero (n : ℕ) : levelSize n 0 = n := by simp [levelSize]

theorem levelSize_half (n j : ℕ) : levelSize ((n + 1) / 2) j = levelSize n (j + 1) := by
  have hpos : 0 < 2 ^ j := Nat.two_pow_pos j
  have hhalf : (n + 2 * 2 ^ j - 1) / 2 = (n + 1) / 2 + 2 ^ j - 1 := by omega
  rw [levelSize, levelSize, Nat.pow_succ', ← hhalf, Nat.div_div_eq_div_mul]

theorem clog_half {n : ℕ} (hn : 1 < n) : Nat.clog 2 ((n + 1) / 2) + 1 = Nat.clog 2 n :=
  (Nat.clog_of_two_le Nat.one_lt_two hn).symm

namespace Tower

/-- Every round of pairing adds one level. -/
theorem length_levels (t : Tower hash pair l ls r) : ls.length = Nat.clog 2 l.length + 1 := by
  induction t with
  | top r => rfl
  | up h t ih =>
    rw [length_pairUp] at ih
    rw [List.length_cons, ih, clog_half h]

theorem length_level (t : Tower hash pair l ls r) {j : ℕ} {level : List α}
    (h : ls[j]? = some level) : level.length = levelSize l.length j := by
  induction t generalizing j with
  | top r =>
    cases j with
    | zero =>
      cases h
      exact (levelSize_zero _).symm
    | succ j => simp at h
  | @up l ls r hl t ih =>
    cases j with
    | zero =>
      cases h
      exact (levelSize_zero _).symm
    | succ j =>
      rw [List.getElem?_cons_succ] at h
      rw [ih h, length_pairUp, levelSize_half]

end Tower

theorem hasSibling_cons_succ (level : List α) (ls : List (List α)) (i j : ℕ) :
    hasSibling (level :: ls) i (j + 1) = hasSibling ls (i / 2) j := by
  have hi : i / 2 ^ (j + 1) = i / 2 / 2 ^ j := by rw [Nat.pow_succ', Nat.div_div_eq_div_mul]
  simp only [hasSibling, List.getElem?_cons_succ, hi]

theorem countP_hasSibling_cons (level : List α) (ls : List (List α)) (i : ℕ) :
    (List.range (level :: ls).length).countP (hasSibling (level :: ls) i) =
      (List.range ls.length).countP (hasSibling ls (i / 2)) +
        if i ^^^ 1 < level.length then 1 else 0 := by
  have htail : hasSibling (level :: ls) i ∘ Nat.succ = hasSibling ls (i / 2) := by
    funext j
    exact hasSibling_cons_succ level ls i j
  rw [List.length_cons, List.range_succ_eq_map, List.countP_cons, List.countP_map, htail]
  simp [hasSibling]

/-- The path from leaf `i` has one step for every level where its node has a sibling. -/
theorem length_siblings (ls : List (List α)) (i : ℕ) :
    (siblings ls i).length = (List.range ls.length).countP (hasSibling ls i) := by
  induction ls generalizing i with
  | nil => rfl
  | cons level ls ih =>
    rw [countP_hasSibling_cons, ← ih, siblings]
    cases hs : level[i ^^^ 1]? with
    | none =>
      have hge : ¬ i ^^^ 1 < level.length := not_lt.mpr (List.getElem?_eq_none_iff.mp hs)
      rw [if_neg hge]
      rfl
    | some s =>
      have hlt : i ^^^ 1 < level.length := (List.getElem?_eq_some_iff.mp hs).1
      rw [if_pos hlt]
      rfl

theorem hasSibling_dropLast (ls : List (List α)) (i : ℕ) {j : ℕ} (hj : j < ls.length - 1) :
    hasSibling ls.dropLast i j = hasSibling ls i j := by
  simp only [hasSibling, List.getElem?_dropLast, if_pos hj]

theorem length_siblings_dropLast (ls : List (List α)) (i : ℕ) :
    (siblings ls.dropLast i).length = (List.range (ls.length - 1)).countP (hasSibling ls i) := by
  rw [length_siblings, List.length_dropLast]
  apply List.countP_congr
  intro j hj
  rw [hasSibling_dropLast ls i (List.mem_range.mp hj)]

theorem hasSibling_map {γ : Type} (f : α → γ) (ls : List (List α)) :
    hasSibling (ls.map (List.map f)) = hasSibling ls := by
  funext i j
  simp [hasSibling, Option.any_map]

end FogNode.Library
