import FogNode.Library.Runs
import Mathlib.Logic.Function.Iterate

namespace FogNode.Library

/-- Threads, each at its own point, over a state that they share. -/
structure Pool (σ φ : Type) where
  shared : σ
  phases : ℕ → φ

/-- A thread takes its next step, or something else happens to the shared state. -/
inductive PoolMove (α : Type)
  | thread (i : ℕ)
  | world (a : α)

variable {σ φ α : Type}

def Pool.move (step : ℕ → φ → σ → φ × σ) (world : σ → α → σ) (pool : Pool σ φ) :
    PoolMove α → Pool σ φ
  | .thread i =>
    let out := step i (pool.phases i) pool.shared
    ⟨out.2, Function.update pool.phases i out.1⟩
  | .world a => ⟨world pool.shared a, pool.phases⟩

section

variable {step : ℕ → φ → σ → φ × σ} {world : σ → α → σ} {pool : Pool σ φ}

theorem move_own (i : ℕ) : (pool.move step world (.thread i)).phases i =
    (step i (pool.phases i) pool.shared).1 := Function.update_self ..

theorem move_other {i : ℕ} {m : PoolMove α} (h : m ≠ .thread i) :
    (pool.move step world m).phases i = pool.phases i := by
  cases m with
  | thread j => exact Function.update_of_ne (fun hij ↦ h (congrArg PoolMove.thread hij.symm)) _ _
  | world a => rfl

/-- A thread that is alone for some moves. -/
theorem run_own (i n : ℕ) :
    ((run (Pool.move step world) pool (List.replicate n (.thread i))).phases i,
      (run (Pool.move step world) pool (List.replicate n (.thread i))).shared) =
    (fun x ↦ step i x.1 x.2)^[n] (pool.phases i, pool.shared) := by
  induction n generalizing pool with
  | zero => rfl
  | succ n ih =>
    rw [List.replicate_succ, run_cons, ih, Function.iterate_succ_apply, move_own]
    rfl

theorem phases_others {i : ℕ} {l : List (PoolMove α)} (h : ∀ m ∈ l, m ≠ .thread i) :
    (run (Pool.move step world) pool l).phases i = pool.phases i := by
  induction l generalizing pool with
  | nil => rfl
  | cons m l ih =>
    rw [run_cons, ih fun m' hm' ↦ h m' (List.mem_cons_of_mem _ hm'),
      move_other (h m List.mem_cons_self)]

/-- What every step of a thread and everything else preserves of the shared state. -/
theorem shared_invariant {I : σ → Prop} (hthread : ∀ i p s, I s → I (step i p s).2)
    (hworld : ∀ s a, I s → I (world s a)) (h : I pool.shared) (l : List (PoolMove α)) :
    I (run (Pool.move step world) pool l).shared := by
  refine run_invariant (I := fun q : Pool σ φ ↦ I q.shared) (fun q m hq ↦ ?_) h l
  cases m with
  | thread i => exact hthread i _ _ hq
  | world a => exact hworld _ a hq

/-- A relation on the shared state that is reflexive and transitive and contains every step
taken from an invariant state relates any two moments. -/
theorem shared_relates {I : σ → Prop} {R : σ → σ → Prop}
    (hthread : ∀ i p s, I s → I (step i p s).2 ∧ R s (step i p s).2)
    (hworld : ∀ s a, I s → I (world s a) ∧ R s (world s a)) (hrefl : ∀ s, R s s)
    (htrans : ∀ s t u, R s t → R t u → R s u) (h : I pool.shared) (l : List (PoolMove α)) :
    R pool.shared (run (Pool.move step world) pool l).shared := by
  refine run_relates (I := fun q : Pool σ φ ↦ I q.shared)
    (R := fun q q' : Pool σ φ ↦ R q.shared q'.shared) (fun q m hq ↦ ?_) (fun q ↦ hrefl _)
    (fun q q' q'' ↦ htrans _ _ _) (fun q m hq ↦ ?_) h l
  · cases m with
    | thread i => exact (hthread i _ _ hq).1
    | world a => exact (hworld _ a hq).1
  · cases m with
    | thread i => exact (hthread i _ _ hq).2
    | world a => exact (hworld _ a hq).2

/-- What a thread's own steps carry on and nothing else disturbs, of the moves so far and
the point that the thread is at, holds after every run. -/
theorem phase_history {i : ℕ} (Q : List (PoolMove α) → φ → Prop) (hnil : Q [] (pool.phases i))
    (hown : ∀ l, Q l ((run (Pool.move step world) pool l).phases i) → Q (l ++ [.thread i])
      (step i ((run (Pool.move step world) pool l).phases i)
        (run (Pool.move step world) pool l).shared).1)
    (hother : ∀ l m p, m ≠ .thread i → Q l p → Q (l ++ [m]) p) (l : List (PoolMove α)) :
    Q l ((run (Pool.move step world) pool l).phases i) := by
  refine run_history (fun l (q : Pool σ φ) ↦ Q l (q.phases i)) hnil (fun l m hq ↦ ?_) l
  by_cases hm : m = .thread i
  · subst hm
    rw [move_own]
    exact hown l hq
  · rw [move_other hm]
    exact hother l m _ hm hq

/-- The thread took a step at the moment that the first of the moves lead to. -/
def Stepped (i : ℕ) (l first : List (PoolMove α)) : Prop := ∃ rest, l = first ++ .thread i :: rest

theorem Stepped.now (i : ℕ) (l : List (PoolMove α)) : Stepped i (l ++ [.thread i]) l := ⟨[], rfl⟩

theorem Stepped.snoc {i : ℕ} {l first : List (PoolMove α)} (h : Stepped i l first)
    (m : PoolMove α) : Stepped i (l ++ [m]) first := by
  obtain ⟨rest, rfl⟩ := h
  exact ⟨rest ++ [m], by simp⟩

theorem Stepped.isPrefix {i : ℕ} {l first : List (PoolMove α)} (h : Stepped i l first) :
    first <+: l := by
  obtain ⟨rest, rfl⟩ := h
  exact List.prefix_append _ _

theorem Stepped.trans {i j : ℕ} {l first second : List (PoolMove α)} (h : Stepped i second first)
    (h' : Stepped j l second) : Stepped i l first := by
  obtain ⟨rest, rfl⟩ := h
  obtain ⟨rest', rfl⟩ := h'
  exact ⟨rest ++ .thread j :: rest', by simp⟩

/-- Of two steps of two threads one comes first. -/
theorem Stepped.cases {i j : ℕ} {l first first' : List (PoolMove α)} (h : Stepped i l first)
    (h' : Stepped j l first') (hne : i ≠ j) : Stepped i first' first ∨ Stepped j first first' := by
  obtain ⟨rest, rfl⟩ := h
  obtain ⟨rest', hsplit⟩ := h'
  rcases List.append_eq_append_iff.mp hsplit with ⟨c, rfl, hc⟩ | ⟨c, rfl, hc⟩
  · cases c with
    | nil =>
      injection hc with hij
      injection hij with hij
      exact absurd hij hne
    | cons m c =>
      injection hc with hm
      exact .inl ⟨c, by rw [hm]⟩
  · cases c with
    | nil =>
      injection hc with hij
      injection hij with hij
      exact absurd hij.symm hne
    | cons m c =>
      injection hc with hm
      exact .inr ⟨c, by rw [hm]⟩

end

end FogNode.Library
