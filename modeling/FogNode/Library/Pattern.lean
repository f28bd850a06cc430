import Mathlib.Data.List.Basic
import Mathlib.Tactic.Common

namespace FogNode.Library

/-- Regular expressions with the anchors `^` and `$` of a text. -/
inductive Pattern
  | one (accepts : Char → Bool)
  | start
  | finish
  | seq (p q : Pattern)
  | times (p : Pattern) (least most : ℕ)

/-- The relation holds `n` times in a row from the first position to the second. -/
def Chain (r : ℕ → ℕ → Prop) : ℕ → ℕ → ℕ → Prop
  | 0, i, j => i = j
  | n + 1, i, k => ∃ j, r i j ∧ Chain r n j k

namespace Pattern

/-- The pattern matches what stands in the text from the first position up to the second. A
line break that ends the text may follow `$`. -/
def Matches (text : List Char) : Pattern → ℕ → ℕ → Prop
  | one accepts, i, j => j = i + 1 ∧ ∃ c, text[i]? = some c ∧ accepts c = true
  | start, i, j => i = 0 ∧ j = i
  | finish, i, j => j = i ∧ (i = text.length ∨ text.drop i = ['\n'])
  | seq p q, i, k => ∃ j, Matches text p i j ∧ Matches text q j k
  | times p least most, i, j => ∃ n, least ≤ n ∧ n ≤ most ∧ Chain (Matches text p) n i j

/-- `re.match` finds a match, which begins where the text begins. -/
def MatchesText (p : Pattern) (text : List Char) : Prop := ∃ j, Matches text p 0 j

variable {text : List Char} {accepts : Char → Bool}

/-- Characters of one class in a row. -/
theorem chain_one {n i j : ℕ} : Chain (Matches text (one accepts)) n i j ↔
    j = i + n ∧ ∃ body rest, text.drop i = body ++ rest ∧ body.length = n ∧
      ∀ c ∈ body, accepts c = true := by
  induction n generalizing i with
  | zero =>
    constructor
    · rintro rfl
      exact ⟨rfl, [], text.drop i, rfl, rfl, by simp⟩
    · rintro ⟨rfl, -⟩
      rfl
  | succ n ih =>
    constructor
    · rintro ⟨k, ⟨rfl, c, hc, haccepts⟩, hrest⟩
      obtain ⟨rfl, body, rest, hdrop, hlen, hall⟩ := ih.mp hrest
      refine ⟨by omega, c :: body, rest, ?_, by simp [hlen], ?_⟩
      · rw [List.drop_eq_getElem?_toList_append, hc, hdrop]
        rfl
      · intro d hd
        rcases List.mem_cons.mp hd with rfl | hd
        · exact haccepts
        · exact hall d hd
    · rintro ⟨rfl, body, rest, hdrop, hlen, hall⟩
      obtain ⟨c, body, rfl⟩ := List.exists_cons_of_length_eq_add_one hlen
      refine ⟨i + 1, ⟨rfl, c, ?_, hall c List.mem_cons_self⟩, ih.mpr ⟨by omega, body, rest, ?_, by
        simpa using hlen, fun d hd ↦ hall d (List.mem_cons_of_mem _ hd)⟩⟩
      · rw [← List.head?_drop, hdrop]
        rfl
      · rw [← List.tail_drop, hdrop]
        rfl

/-- An anchored repetition of one class accepts the texts of such characters, and the same
with a line break after them. -/
theorem matchesText_class {least most : ℕ} :
    (seq start (seq (times (one accepts) least most) finish)).MatchesText text ↔
      ∃ body, (∀ c ∈ body, accepts c = true) ∧ least ≤ body.length ∧ body.length ≤ most ∧
        (text = body ∨ text = body ++ ['\n']) := by
  constructor
  · rintro ⟨_, _, ⟨-, rfl⟩, j, ⟨n, hleast, hmost, hchain⟩, -, hend⟩
    obtain ⟨rfl, body, rest, hdrop, rfl, hall⟩ := chain_one.mp hchain
    rw [List.drop_zero] at hdrop
    subst hdrop
    refine ⟨body, hall, hleast, hmost, ?_⟩
    rw [Nat.zero_add, List.drop_left, List.length_append] at hend
    rcases hend with hend | rfl
    · have hrest : rest = [] := List.length_eq_zero_iff.mp (by omega)
      exact .inl (by rw [hrest, List.append_nil])
    · exact .inr rfl
  · rintro ⟨body, hall, hleast, hmost, htext⟩
    have hsplit : ∃ rest, text = body ++ rest ∧ (rest = [] ∨ rest = ['\n']) := by
      rcases htext with rfl | rfl
      · exact ⟨[], by simp, .inl rfl⟩
      · exact ⟨_, rfl, .inr rfl⟩
    obtain ⟨rest, rfl, hrest⟩ := hsplit
    refine ⟨body.length, 0, ⟨rfl, rfl⟩, body.length, ⟨body.length, hleast, hmost, ?_⟩, rfl, ?_⟩
    · exact chain_one.mpr ⟨(Nat.zero_add _).symm, body, rest, rfl, rfl, hall⟩
    · rw [List.drop_left]
      rcases hrest with rfl | rfl
      · exact .inl (by simp)
      · exact .inr rfl

end Pattern

end FogNode.Library
