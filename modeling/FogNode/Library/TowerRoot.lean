import FogNode.Library.Tower
import Mathlib.Data.List.Nodup
import Mathlib.Data.List.Perm.Subperm

namespace FogNode.Library

variable {α β : Type} {hash : β → α} {pair : α → α → β} {l l' : List α} {ls ls' : List (List α)}
  {r r' : α}

theorem pairUp_append {l₁ : List α} (h : Even l₁.length) (l₂ : List α) :
    pairUp hash pair (l₁ ++ l₂) = pairUp hash pair l₁ ++ pairUp hash pair l₂ := by
  induction l₁ using pairUp.induct with
  | case1 => rfl
  | case2 a => simp at h
  | case3 a b l₁ ih =>
    have heven : Even l₁.length := by simpa [Nat.even_add_one] using h
    simp only [List.cons_append, pairUp, ih heven]

theorem Tower.root_singleton {x : α} (t : Tower hash pair [x] ls r) : r = x := by
  cases t with
  | top => rfl
  | up h _ => simp at h

theorem exists_tower (hash : β → α) (pair : α → α → β) (hl : l ≠ []) :
    ∃ ls r, Tower hash pair l ls r := by
  induction hn : l.length using Nat.strong_induction_on generalizing l with
  | _ n ih =>
    by_cases h1 : 1 < l.length
    · have hlen := length_pairUp hash pair l
      obtain ⟨ls, r, t⟩ := ih _ (by omega) (pairUp_ne_nil hash pair hl) rfl
      exact ⟨_, r, .up h1 t⟩
    · obtain ⟨r, rfl⟩ := exists_singleton hl h1
      exact ⟨_, r, .top r⟩

theorem Tower.of_pairUp (hl : l ≠ []) (t : Tower hash pair (pairUp hash pair l) ls r) :
    ∃ ls', Tower hash pair l ls' r := by
  by_cases h1 : 1 < l.length
  · exact ⟨_, .up h1 t⟩
  · obtain ⟨x, rfl⟩ := exists_singleton hl h1
    exact ⟨_, t⟩

theorem Tower.pairUp_of_lt (t : Tower hash pair l ls r) (h : 1 < l.length) :
    ∃ ls', Tower hash pair (pairUp hash pair l) ls' r := by
  cases t with
  | top r => simp at h
  | up _ t => exact ⟨_, t⟩

/-- The root of more than one leaf is the node over two roots: that of the first `2 ^ m`
leaves, where `2 ^ m` is the largest power of two below their number, and that of the others. -/
theorem Tower.root_split (t : Tower hash pair l ls r) {m : ℕ} (hlt : 2 ^ m < l.length)
    (hle : l.length ≤ 2 ^ (m + 1)) :
    ∃ ls₁ r₁ ls₂ r₂, Tower hash pair (l.take (2 ^ m)) ls₁ r₁ ∧
      Tower hash pair (l.drop (2 ^ m)) ls₂ r₂ ∧ r = node hash pair r₁ r₂ := by
  induction m generalizing l ls with
  | zero =>
    match l, hlt, hle with
    | [a, b], _, _ =>
      cases t with
      | up _ t =>
        cases t with
        | top => exact ⟨_, a, _, b, .top a, .top b, rfl⟩
        | up h _ => simp [pairUp] at h
  | succ m ih =>
    have hpow : 2 ^ (m + 1) = 2 * 2 ^ m := by rw [Nat.pow_succ, Nat.mul_comm]
    have hpow' : 2 ^ (m + 1 + 1) = 2 * 2 ^ (m + 1) := by rw [Nat.pow_succ, Nat.mul_comm]
    have hpos : 0 < 2 ^ m := Nat.two_pow_pos m
    cases t with
    | top r => simp at hlt
    | up h1 t =>
      have hlen := length_pairUp hash pair l
      obtain ⟨ls₁, r₁, ls₂, r₂, t₁, t₂, hr⟩ := ih t (by omega) (by omega)
      have hfirst : (l.take (2 ^ (m + 1))).length = 2 ^ (m + 1) := by
        rw [List.length_take]
        omega
      have hrest : (l.drop (2 ^ (m + 1))).length = l.length - 2 ^ (m + 1) := List.length_drop
      have hsplit : pairUp hash pair l = pairUp hash pair (l.take (2 ^ (m + 1))) ++
          pairUp hash pair (l.drop (2 ^ (m + 1))) := by
        rw [← pairUp_append (by rw [hfirst, hpow]; exact even_two_mul _), List.take_append_drop]
      have hhalf : (pairUp hash pair (l.take (2 ^ (m + 1)))).length = 2 ^ m := by
        rw [length_pairUp, hfirst]
        omega
      rw [hsplit, List.take_left' hhalf] at t₁
      rw [hsplit, List.drop_left' hhalf] at t₂
      obtain ⟨ls₁', t₁'⟩ := t₁.of_pairUp (List.ne_nil_of_length_pos (by omega))
      obtain ⟨ls₂', t₂'⟩ := t₂.of_pairUp (List.ne_nil_of_length_pos (by omega))
      exact ⟨ls₁', r₁, ls₂', r₂, t₁', t₂', hr⟩

/-- A value that absorbs whatever it is paired with reaches the root from any leaf. -/
theorem Tower.absorbed (t : Tower hash pair l ls r) {z : α}
    (hleft : ∀ a, node hash pair z a = z) (hright : ∀ a, node hash pair a z = z) (hz : z ∈ l) :
    r = z := by
  have hup : ∀ l : List α, z ∈ l → z ∈ pairUp hash pair l := by
    intro l hz
    induction l using pairUp.induct with
    | case1 => exact hz
    | case2 a => exact hz
    | case3 a b l ih =>
      rw [pairUp]
      rcases List.mem_cons.mp hz with rfl | hz
      · exact List.mem_cons.mpr (.inl (hleft b).symm)
      rcases List.mem_cons.mp hz with rfl | hz
      · exact List.mem_cons.mpr (.inl (hright a).symm)
      · exact List.mem_cons_of_mem _ (ih hz)
  induction t with
  | top r => exact (List.mem_singleton.mp hz).symm
  | up h t ih => exact ih (hup _ hz)

/-- What is hashed on the way up from a leaf is hashed in the tower. -/
theorem Tower.climbInputs_siblings (t : Tower hash pair l ls r) {i : ℕ} {x : α}
    (hx : l[i]? = some x) {b : β} (hb : b ∈ climbInputs hash pair x (siblings ls.dropLast i)) :
    b ∈ towerInputs pair ls := by
  induction t generalizing i x with
  | top r => simp [siblings, climbInputs] at hb
  | @up l ls r hl t ih =>
    rw [t.dropLast_up] at hb
    rw [towerInputs, List.flatMap_cons, List.mem_append]
    obtain ⟨k, rfl | rfl⟩ : ∃ k, i = 2 * k ∨ i = 2 * k + 1 := ⟨i / 2, by omega⟩
    · cases hs : l[2 * k + 1]? with
      | some s =>
        rw [siblings_even _ hs] at hb
        rcases List.mem_cons.mp hb with rfl | hb
        · exact .inl (mem_pairInputs pair hx hs)
        · refine .inr (ih ?_ hb)
          rw [getElem?_pairUp, hx, hs]
          rfl
      | none =>
        rw [siblings_promoted _ hs] at hb
        refine .inr (ih ?_ hb)
        rw [getElem?_pairUp, hx, hs]
    · have hlt : 2 * k < l.length := by
        have h := (List.getElem?_eq_some_iff.mp hx).1
        omega
      have hs : l[2 * k]? = some l[2 * k] := List.getElem?_eq_getElem hlt
      rw [siblings_odd _ hs] at hb
      rcases List.mem_cons.mp hb with rfl | hb
      · exact .inl (mem_pairInputs pair hs hx)
      · refine .inr (ih ?_ hb)
        rw [getElem?_pairUp, hs, hx]
        rfl

/-- Something hashed for one tower and something else hashed for the other have one hash. -/
def Clash (hash : β → α) (pair : α → α → β) (ls ls' : List (List α)) : Prop :=
  ∃ b ∈ towerInputs pair ls, ∃ c ∈ towerInputs pair ls', b ≠ c ∧ hash b = hash c

theorem Clash.symm (h : Clash hash pair ls ls') : Clash hash pair ls' ls := by
  obtain ⟨b, hb, c, hc, hne, he⟩ := h
  exact ⟨c, hc, b, hb, hne.symm, he.symm⟩

/-- A leaf of one tower is an inner node of the other. -/
def LeafInside (hash : β → α) (pair : α → α → β) (l : List α) (ls : List (List α)) : Prop :=
  ∃ x ∈ l, ∃ b ∈ towerInputs pair ls, hash b = x

theorem pairUp_determines (hpair : ∀ a b c d, pair a b = pair c d → a = c ∧ b = d)
    (hlen : l.length = l'.length) (h : pairUp hash pair l = pairUp hash pair l') :
    l = l' ∨ ∃ b ∈ pairInputs pair l, ∃ c ∈ pairInputs pair l', b ≠ c ∧ hash b = hash c := by
  induction l using pairUp.induct generalizing l' with
  | case1 => exact .inl (List.length_eq_zero_iff.mp hlen.symm).symm
  | case2 a =>
    obtain ⟨a', rfl⟩ := List.length_eq_one_iff.mp hlen.symm
    exact .inl h
  | case3 a b l ih =>
    obtain ⟨a', l', rfl⟩ := List.exists_cons_of_length_eq_add_one hlen.symm
    simp only [List.length_cons, Nat.add_right_cancel_iff] at hlen
    obtain ⟨b', l', rfl⟩ := List.exists_cons_of_length_eq_add_one hlen.symm
    simp only [List.length_cons, Nat.add_right_cancel_iff] at hlen
    simp only [pairUp, List.cons.injEq] at h
    obtain ⟨hnode, hrest⟩ := h
    by_cases heq : pair a b = pair a' b'
    · obtain ⟨rfl, rfl⟩ := hpair _ _ _ _ heq
      rcases ih hlen hrest with rfl | ⟨c, hc, d, hd, hcd⟩
      · exact .inl rfl
      · exact .inr ⟨c, List.mem_cons_of_mem _ hc, d, List.mem_cons_of_mem _ hd, hcd⟩
    · exact .inr ⟨_, List.mem_cons_self, _, List.mem_cons_self, heq, hnode⟩

/-- Towers over equally many leaves with one root stand on the same leaves. -/
theorem Tower.leaves_determined (t : Tower hash pair l ls r) (t' : Tower hash pair l' ls' r)
    (hpair : ∀ a b c d, pair a b = pair c d → a = c ∧ b = d) (hlen : l.length = l'.length) :
    l = l' ∨ Clash hash pair ls ls' := by
  induction t generalizing l' ls' with
  | top r =>
    cases t' with
    | top => exact .inl rfl
    | up h _ =>
      rw [← hlen] at h
      simp at h
  | @up l ls r h t ih =>
    cases t' with
    | top => simp at hlen; omega
    | @up _ ls' _ h' t' =>
      have hlen' : (pairUp hash pair l).length = (pairUp hash pair l').length := by
        rw [length_pairUp, length_pairUp, hlen]
      rcases ih t' hlen' with heq | ⟨b, hb, c, hc, hbc⟩
      · rcases pairUp_determines hpair hlen heq with rfl | ⟨b, hb, c, hc, hbc⟩
        · exact .inl rfl
        · refine .inr ⟨b, ?_, c, ?_, hbc⟩
          · rw [towerInputs, List.flatMap_cons]
            exact List.mem_append_left _ hb
          · rw [towerInputs, List.flatMap_cons]
            exact List.mem_append_left _ hc
      · refine .inr ⟨b, ?_, c, ?_, hbc⟩
        · rw [towerInputs, List.flatMap_cons]
          exact List.mem_append_right _ hb
        · rw [towerInputs, List.flatMap_cons]
          exact List.mem_append_right _ hc

/-- Every leaf of a tower is a leaf of any other tower with the same root, unless a leaf of
one is inside the other or hashes clash. -/
theorem Tower.leaf_shared (t : Tower hash pair l ls r) (t' : Tower hash pair l' ls' r)
    (hpair : ∀ a b c d, pair a b = pair c d → a = c ∧ b = d) {x : α} (hx : x ∈ l') :
    x ∈ l ∨ LeafInside hash pair l ls' ∨ LeafInside hash pair l' ls ∨ Clash hash pair ls ls' := by
  obtain ⟨i, hi⟩ := List.mem_iff_getElem?.mp hx
  have hclimb := t'.climb_siblings hi
  rcases t.path_end hpair x _ hclimb with ⟨j, q, hq, hj⟩ | ⟨b, hb, hbx⟩ | ⟨b, hb, c, hc, hbc⟩
  · rcases List.eq_nil_or_concat q with rfl | ⟨q, s, rfl⟩
    · exact .inl (List.mem_of_getElem? hj)
    · rw [List.concat_eq_append] at hq hj
      rw [climb_snoc] at hj
      refine .inr (.inl ⟨_, List.mem_of_getElem? hj, _, t'.climbInputs_siblings hi ?_, rfl⟩)
      rw [hq, List.append_assoc]
      exact mem_climbInputs hash pair x q _ s
  · exact .inr (.inr (.inl ⟨x, hx, b, hb, hbx⟩))
  · exact .inr (.inr (.inr ⟨b, hb, c, t'.climbInputs_siblings hi hc, hbc⟩))

/-- Towers over distinct leaves with one root stand on the same leaves, whatever their sizes. -/
theorem Tower.same_root (t : Tower hash pair l ls r) (t' : Tower hash pair l' ls' r)
    (hpair : ∀ a b c d, pair a b = pair c d → a = c ∧ b = d) (hl : l.Nodup) (hl' : l'.Nodup) :
    l = l' ∨ LeafInside hash pair l ls' ∨ LeafInside hash pair l' ls ∨ Clash hash pair ls ls' := by
  by_cases hbad : LeafInside hash pair l ls' ∨ LeafInside hash pair l' ls ∨ Clash hash pair ls ls'
  · exact .inr hbad
  have hsub : l' ⊆ l := fun x hx ↦ (t.leaf_shared t' hpair hx).resolve_right hbad
  have hsub' : l ⊆ l' := by
    intro x hx
    rcases t'.leaf_shared t hpair hx with h | h | h | h
    · exact h
    · exact absurd (.inr (.inl h)) hbad
    · exact absurd (.inl h) hbad
    · exact absurd (.inr (.inr h.symm)) hbad
  have hlen : l.length = l'.length :=
    le_antisymm (List.subperm_of_subset hl hsub').length_le
      (List.subperm_of_subset hl' hsub).length_le
  exact (t.leaves_determined t' hpair hlen).imp_right fun h ↦ .inr (.inr h)

end FogNode.Library
