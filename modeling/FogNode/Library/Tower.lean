import Mathlib.Data.List.Basic
import Mathlib.Data.Nat.Bitwise
import Mathlib.Tactic.Common

namespace FogNode.Library

/-- The side of its parent on which a sibling stands. -/
inductive Side
  | L
  | R
  deriving DecidableEq, Repr

variable {α β : Type} (hash : β → α) (pair : α → α → β)

def node (a b : α) : α := hash (pair a b)

/-- One level of hashing. The unpaired last node is promoted unchanged. -/
def pairUp : List α → List α
  | [] => []
  | [a] => [a]
  | a :: b :: l => node hash pair a b :: pairUp l

/-- `Tower l ls r` says that pairing up the leaves `l` again and again gives the
levels `ls` and ends in the single root `r`. -/
inductive Tower : List α → List (List α) → α → Prop
  | top (r : α) : Tower [r] [[r]] r
  | up {l : List α} {ls : List (List α)} {r : α} :
      1 < l.length → Tower (pairUp hash pair l) ls r → Tower l (l :: ls) r

/-- The siblings met on the way up from index `i`, with their sides. A node
without a sibling is promoted and adds no step. -/
def siblings : List (List α) → ℕ → List (α × Side)
  | [], _ => []
  | level :: rest, i =>
    match level[i ^^^ 1]? with
    | some s => (s, if i ^^^ 1 < i then .L else .R) :: siblings rest (i / 2)
    | none => siblings rest (i / 2)

/-- What is hashed when `x` meets its sibling. -/
def preimage (x : α) (s : α × Side) : β :=
  match s.2 with
  | .L => pair s.1 x
  | .R => pair x s.1

def climb (x : α) (p : List (α × Side)) : α := p.foldl (fun y s ↦ hash (preimage pair y s)) x

/-- Everything hashed by `pairUp`. -/
def pairInputs : List α → List β
  | [] | [_] => []
  | a :: b :: l => pair a b :: pairInputs l

/-- Everything hashed below the root of a tower. -/
def towerInputs (ls : List (List α)) : List β := ls.flatMap (pairInputs pair)

/-- Everything hashed by `climb`. -/
def climbInputs : α → List (α × Side) → List β
  | _, [] => []
  | x, s :: p => preimage pair x s :: climbInputs (hash (preimage pair x s)) p

theorem even_xor_one (k : ℕ) : (2 * k) ^^^ 1 = 2 * k + 1 :=
  Nat.xor_one_of_even ⟨k, by omega⟩

theorem odd_xor_one (k : ℕ) : (2 * k + 1) ^^^ 1 = 2 * k :=
  (Nat.xor_one_of_odd ⟨k, rfl⟩).trans (by omega)

theorem length_pairUp (l : List α) : (pairUp hash pair l).length = (l.length + 1) / 2 := by
  induction l using pairUp.induct with
  | case1 | case2 => simp [pairUp]
  | case3 a b l ih => simp only [pairUp, List.length_cons, ih]; omega

theorem pairUp_ne_nil {l : List α} (hl : l ≠ []) : pairUp hash pair l ≠ [] := by
  have hpos := List.length_pos_of_ne_nil hl
  have hlen := length_pairUp hash pair l
  exact List.ne_nil_of_length_pos (by omega)

theorem exists_singleton {l : List α} (hl : l ≠ []) (h : ¬ 1 < l.length) : ∃ x, l = [x] := by
  have hpos := List.length_pos_of_ne_nil hl
  exact List.length_eq_one_iff.mp (by omega)

theorem getElem?_pairUp (l : List α) (k : ℕ) :
    (pairUp hash pair l)[k]? =
      match l[2 * k]?, l[2 * k + 1]? with
      | some a, some b => some (node hash pair a b)
      | some a, none => some a
      | none, _ => none := by
  induction l using pairUp.induct generalizing k with
  | case1 => simp [pairUp]
  | case2 a => cases k <;> simp [pairUp, Nat.mul_add]
  | case3 a b l ih =>
    cases k with
    | zero => rfl
    | succ k =>
      have he : 2 * (k + 1) = 2 * k + 1 + 1 := by omega
      simp only [pairUp, he, List.getElem?_cons_succ]
      exact ih k

theorem mem_pairInputs {l : List α} {k : ℕ} {a b : α} (ha : l[2 * k]? = some a)
    (hb : l[2 * k + 1]? = some b) : pair a b ∈ pairInputs pair l := by
  induction l using pairUp.induct generalizing k with
  | case1 => simp at ha
  | case2 c => cases k <;> simp [Nat.mul_add] at hb
  | case3 c d l ih =>
    cases k with
    | zero =>
      simp only [Nat.mul_zero, List.getElem?_cons_zero, Option.some.injEq] at ha
      simp only [Nat.mul_zero, Nat.zero_add, List.getElem?_cons_succ, List.getElem?_cons_zero,
        Option.some.injEq] at hb
      subst ha hb
      exact List.mem_cons_self
    | succ k =>
      have he : 2 * (k + 1) = 2 * k + 1 + 1 := by omega
      rw [he] at ha hb
      simp only [List.getElem?_cons_succ] at ha hb
      exact List.mem_cons_of_mem _ (ih ha hb)

theorem mem_climbInputs (x : α) (p q : List (α × Side)) (s : α × Side) :
    preimage pair (climb hash pair x p) s ∈ climbInputs hash pair x (p ++ s :: q) := by
  induction p generalizing x with
  | nil => exact List.mem_cons_self
  | cons t p ih => exact List.mem_cons_of_mem _ (ih _)

theorem climb_append (x : α) (p q : List (α × Side)) :
    climb hash pair x (p ++ q) = climb hash pair (climb hash pair x p) q := List.foldl_append

theorem climb_cons (x : α) (s : α × Side) (p : List (α × Side)) :
    climb hash pair x (s :: p) = climb hash pair (hash (preimage pair x s)) p := rfl

theorem climb_snoc (x : α) (p : List (α × Side)) (s : α × Side) :
    climb hash pair x (p ++ [s]) = hash (preimage pair (climb hash pair x p) s) := by
  rw [climb_append]; rfl

variable {hash pair}

theorem Tower.levels_ne_nil {l : List α} {ls : List (List α)} {r : α}
    (t : Tower hash pair l ls r) : ls ≠ [] := by
  cases t <;> simp

theorem Tower.getLast? {l : List α} {ls : List (List α)} {r : α} (t : Tower hash pair l ls r) :
    ls.getLast? = some [r] := by
  induction t with
  | top r => rfl
  | up h t ih => rw [List.getLast?_cons, ih]; rfl

theorem Tower.dropLast_up {l : List α} {ls : List (List α)} {r : α}
    (t : Tower hash pair l ls r) (m : List α) : (m :: ls).dropLast = m :: ls.dropLast :=
  List.dropLast_cons_of_ne_nil t.levels_ne_nil

theorem siblings_even {l : List α} {k : ℕ} (ls : List (List α)) {b : α}
    (hb : l[2 * k + 1]? = some b) : siblings (l :: ls) (2 * k) = (b, .R) :: siblings ls k := by
  have h₁ : ¬ 2 * k + 1 < 2 * k := by omega
  have h₂ : 2 * k / 2 = k := by omega
  simp only [siblings, even_xor_one, hb, if_neg h₁, h₂]

theorem siblings_odd {l : List α} {k : ℕ} (ls : List (List α)) {a : α}
    (ha : l[2 * k]? = some a) : siblings (l :: ls) (2 * k + 1) = (a, .L) :: siblings ls k := by
  have h₁ : 2 * k < 2 * k + 1 := by omega
  have h₂ : (2 * k + 1) / 2 = k := by omega
  simp only [siblings, odd_xor_one, ha, if_pos h₁, h₂]

theorem siblings_promoted {l : List α} {k : ℕ} (ls : List (List α))
    (hb : l[2 * k + 1]? = none) : siblings (l :: ls) (2 * k) = siblings ls k := by
  have h₂ : 2 * k / 2 = k := by omega
  simp only [siblings, even_xor_one, hb, h₂]

/-- The siblings of a leaf lead from it to the root. -/
theorem Tower.climb_siblings {l : List α} {ls : List (List α)} {r : α}
    (t : Tower hash pair l ls r) {i : ℕ} {x : α} (hx : l[i]? = some x) :
    climb hash pair x (siblings ls.dropLast i) = r := by
  induction t generalizing i x with
  | top r =>
    cases i with
    | zero => simpa [siblings, climb] using hx.symm
    | succ i => simp at hx
  | @up l ls r hl t ih =>
    rw [t.dropLast_up]
    obtain ⟨k, rfl | rfl⟩ : ∃ k, i = 2 * k ∨ i = 2 * k + 1 := ⟨i / 2, by omega⟩
    · cases hb : l[2 * k + 1]? with
      | some b =>
        rw [siblings_even _ hb, climb_cons]
        apply ih
        rw [getElem?_pairUp, hx, hb]
        rfl
      | none =>
        rw [siblings_promoted _ hb]
        apply ih
        rw [getElem?_pairUp, hx, hb]
    · have hlt : 2 * k < l.length := by
        have h := (List.getElem?_eq_some_iff.mp hx).1
        omega
      have ha : l[2 * k]? = some l[2 * k] := List.getElem?_eq_getElem hlt
      rw [siblings_odd _ ha, climb_cons]
      apply ih
      rw [getElem?_pairUp, ha, hx]
      rfl

/-- A path from any `x` to the root of a tower ends in the siblings of one leaf,
unless `x` is itself an inner node or a collision of `hash` shows up. -/
theorem Tower.path_end {l : List α} {ls : List (List α)} {r : α} (t : Tower hash pair l ls r)
    (hpair : ∀ a b c d, pair a b = pair c d → a = c ∧ b = d) (x : α) (p : List (α × Side))
    (h : climb hash pair x p = r) :
    (∃ i q, p = q ++ siblings ls.dropLast i ∧ l[i]? = some (climb hash pair x q)) ∨
    (∃ b ∈ towerInputs pair ls, hash b = x) ∨
    (∃ b ∈ towerInputs pair ls, ∃ c ∈ climbInputs hash pair x p, b ≠ c ∧ hash b = hash c) := by
  induction t with
  | top r => exact .inl ⟨0, p, by simp [siblings], by simpa using h.symm⟩
  | @up l ls r hl t ih =>
    have hsub : ∀ b ∈ towerInputs pair ls, b ∈ towerInputs pair (l :: ls) := fun b hb ↦ by
      simp only [towerInputs, List.flatMap_cons, List.mem_append]
      exact .inr hb
    have hlevel : ∀ b ∈ pairInputs pair l, b ∈ towerInputs pair (l :: ls) := fun b hb ↦ by
      simp only [towerInputs, List.flatMap_cons, List.mem_append]
      exact .inl hb
    rw [t.dropLast_up]
    rcases ih h with ⟨k, q, hp, hq⟩ | ⟨b, hb, hx⟩ | ⟨b, hb, c, hc, hbc⟩
    · rw [getElem?_pairUp] at hq
      cases ha : l[2 * k]? with
      | none => simp [ha] at hq
      | some a =>
        cases hb : l[2 * k + 1]? with
        | none =>
          simp only [ha, hb, Option.some.injEq] at hq
          exact .inl ⟨2 * k, q, by rw [siblings_promoted _ hb, hp], by rw [ha, hq]⟩
        | some b =>
          simp only [ha, hb, Option.some.injEq] at hq
          have hin := hlevel _ (mem_pairInputs pair ha hb)
          rcases List.eq_nil_or_concat q with rfl | ⟨q, s, rfl⟩
          · exact .inr (.inl ⟨_, hin, hq⟩)
          · rw [List.concat_eq_append] at hq hp
            rw [climb_snoc] at hq
            by_cases heq : pair a b = preimage pair (climb hash pair x q) s
            · -- the last step of `q` uses the two nodes of the level below
              obtain ⟨s, side⟩ := s
              cases side with
              | L =>
                obtain ⟨rfl, hb'⟩ := hpair _ _ _ _ heq
                refine .inl ⟨2 * k + 1, q, ?_, by rw [hb, hb']⟩
                rw [siblings_odd _ ha, hp]
                simp
              | R =>
                obtain ⟨ha', rfl⟩ := hpair _ _ _ _ heq
                refine .inl ⟨2 * k, q, ?_, by rw [ha, ha']⟩
                rw [siblings_even _ hb, hp]
                simp
            · refine .inr (.inr ⟨_, hin, _, ?_, heq, hq⟩)
              rw [hp, List.append_assoc]
              exact mem_climbInputs hash pair x q _ s
    · exact .inr (.inl ⟨b, hsub b hb, hx⟩)
    · exact .inr (.inr ⟨b, hsub b hb, c, hc, hbc⟩)

theorem Tower.root_unique {l : List α} {ls ls' : List (List α)} {r r' : α}
    (t : Tower hash pair l ls r) (t' : Tower hash pair l ls' r') : ls = ls' ∧ r = r' := by
  induction t generalizing ls' r' with
  | top r =>
    cases t' with
    | top => exact ⟨rfl, rfl⟩
    | up h t' => simp at h
  | up h t ih =>
    cases t' with
    | top => simp at h
    | up h' t' =>
      obtain ⟨rfl, rfl⟩ := ih t'
      exact ⟨rfl, rfl⟩

end FogNode.Library
