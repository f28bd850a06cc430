import Mathlib.Data.List.Induction
import Mathlib.Logic.Relation
import Mathlib.Tactic.Common

namespace FogNode.Library

variable {σ α : Type}

/-- The state after the listed inputs. A list of inputs is one schedule of the
system, so a statement about all lists is about every run. -/
def run (step : σ → α → σ) (s : σ) (l : List α) : σ := l.foldl step s

variable {step : σ → α → σ}

@[simp] theorem run_nil (s : σ) : run step s [] = s := rfl

@[simp] theorem run_cons (s : σ) (a : α) (l : List α) :
    run step s (a :: l) = run step (step s a) l := rfl

theorem run_append (s : σ) (l m : List α) : run step s (l ++ m) = run step (run step s l) m :=
  List.foldl_append

theorem run_snoc (s : σ) (l : List α) (a : α) :
    run step s (l ++ [a]) = step (run step s l) a := by
  rw [run_append]; rfl

/-- Some number of equal inputs leads from `s` to `t`. -/
def Leads (step : σ → α → σ) (a : α) (s t : σ) : Prop :=
  ∃ n, run step s (List.replicate n a) = t

namespace Leads

variable {a : α} {s t u : σ}

theorem refl (s : σ) : Leads step a s s := ⟨0, rfl⟩

theorem head (h : Leads step a (step s a) t) : Leads step a s t := by
  obtain ⟨n, hn⟩ := h
  exact ⟨n + 1, by rw [List.replicate_succ, run_cons, hn]⟩

theorem one (h : step s a = t) : Leads step a s t := head (h ▸ refl _)

theorem trans (h : Leads step a s t) (h' : Leads step a t u) : Leads step a s u := by
  obtain ⟨n, rfl⟩ := h
  obtain ⟨m, rfl⟩ := h'
  exact ⟨n + m, by rw [← List.replicate_append_replicate, run_append]⟩

end Leads

/-- What every step preserves holds after every run. -/
theorem run_invariant {I : σ → Prop} (hI : ∀ s a, I s → I (step s a)) {s : σ} (hs : I s)
    (l : List α) : I (run step s l) := by
  induction l generalizing s with
  | nil => exact hs
  | cons a l ih => exact ih (hI s a hs)

/-- A relation that is reflexive, transitive and contains every step taken from an
invariant state relates the two ends of every run. -/
theorem run_relates {I : σ → Prop} {R : σ → σ → Prop} (hI : ∀ s a, I s → I (step s a))
    (hrefl : ∀ s, R s s) (htrans : ∀ s t u, R s t → R t u → R s u)
    (hR : ∀ s a, I s → R s (step s a)) {s : σ} (hs : I s) (l : List α) : R s (run step s l) := by
  induction l generalizing s with
  | nil => exact hrefl s
  | cons a l ih => exact htrans _ _ _ (hR s a hs) (ih (hI s a hs))

/-- What holds at the start and is kept by every step, of the inputs read so far
together with the state they lead to, holds of every run. -/
theorem run_history (Q : List α → σ → Prop) {s : σ} (hs : Q [] s)
    (hQ : ∀ l a, Q l (run step s l) → Q (l ++ [a]) (step (run step s l) a)) (l : List α) :
    Q l (run step s l) := by
  induction l using List.reverseRecOn with
  | nil => exact hs
  | append_singleton l a ih =>
    rw [run_snoc]
    exact hQ l a ih

/-- What does not hold at the start and holds at the end came to hold at some step. -/
theorem exists_first {p : σ → Prop} {s : σ} (hs : ¬ p s) {l : List α} (h : p (run step s l)) :
    ∃ l₁ a l₂, l = l₁ ++ a :: l₂ ∧ ¬ p (run step s l₁) ∧ p (step (run step s l₁) a) := by
  induction l generalizing s with
  | nil => exact absurd h hs
  | cons a l ih =>
    by_cases ha : p (step s a)
    · exact ⟨[], a, l, rfl, hs, ha⟩
    · obtain ⟨l₁, b, l₂, rfl, hb, hb'⟩ := ih ha h
      exact ⟨a :: l₁, b, l₂, rfl, hb, hb'⟩

/-- What some steps set and lasts until a step resets it holds after a run exactly if a step
of the run set it and none since then reset it. -/
theorem latched_iff {I D : σ → Prop} {sets : σ → α → Prop} {resets : α → Prop}
    (hI : ∀ s a, I s → I (step s a))
    (hD : ∀ s a, I s → (D (step s a) ↔ sets s a ∨ (D s ∧ ¬ resets a))) {s : σ} (hs : I s)
    (hnot : ¬ D s) (l : List α) :
    D (run step s l) ↔ ∃ first a rest, l = first ++ a :: rest ∧ sets (run step s first) a ∧
      ∀ b ∈ rest, ¬ resets b := by
  induction l using List.reverseRecOn with
  | nil => exact iff_of_false hnot (by simp)
  | append_singleton l a ih =>
    rw [run_snoc, hD _ a (run_invariant hI hs l), ih]
    constructor
    · rintro (hset | ⟨⟨first, b, rest, rfl, hset, hrest⟩, hkeep⟩)
      · exact ⟨l, a, [], rfl, hset, by simp⟩
      · refine ⟨first, b, rest ++ [a], by simp, hset, fun c hc ↦ ?_⟩
        rcases List.mem_append.mp hc with hc | hc
        · exact hrest c hc
        · rwa [List.mem_singleton.mp hc]
    · rintro ⟨first, b, rest, hsplit, hset, hrest⟩
      rcases List.eq_nil_or_concat rest with rfl | ⟨rest, last, rfl⟩
      · obtain ⟨rfl, hb⟩ := List.append_inj' hsplit rfl
        cases hb
        exact .inl hset
      · rw [List.concat_eq_append, ← List.cons_append, ← List.append_assoc] at hsplit
        obtain ⟨rfl, hlast⟩ := List.append_inj' hsplit rfl
        cases hlast
        rw [List.concat_eq_append] at hrest
        exact .inr ⟨⟨first, b, rest, rfl, hset, fun c hc ↦ hrest c (List.mem_append_left _ hc)⟩,
          hrest _ (by simp)⟩

/-- What the steps of a run put out. -/
def outputs {β : Type} (step : σ → α → σ) (out : σ → α → Option β) : σ → List α → List β
  | _, [] => []
  | s, a :: l => (out s a).toList ++ outputs step out (step s a) l

section outputs

variable {β : Type} {out : σ → α → Option β}

theorem outputs_append (s : σ) (l m : List α) :
    outputs step out s (l ++ m) = outputs step out s l ++ outputs step out (run step s l) m := by
  induction l generalizing s with
  | nil => rfl
  | cons a l ih => simp only [List.cons_append, outputs, ih, run_cons, List.append_assoc]

theorem outputs_snoc (s : σ) (l : List α) (a : α) :
    outputs step out s (l ++ [a]) = outputs step out s l ++ (out (run step s l) a).toList := by
  rw [outputs_append, outputs, outputs, List.append_nil]

theorem mem_outputs_cons {s : σ} {a : α} {b : β} (h : out s a = some b) (l : List α) :
    b ∈ outputs step out s (a :: l) := by
  rw [outputs, h]
  exact List.mem_cons_self

theorem mem_outputs {s : σ} {l₁ : List α} {a : α} {b : β} (h : out (run step s l₁) a = some b)
    (l₂ : List α) : b ∈ outputs step out s (l₁ ++ a :: l₂) := by
  rw [outputs_append]
  exact List.mem_append_right _ (mem_outputs_cons h l₂)

/-- When all outputs differ, what is put out before a step is not put out again. -/
theorem not_again {s : σ} {l m : List α} (hnd : (outputs step out s (l ++ m)).Nodup) {b : β}
    (hb : b ∈ outputs step out s l) : b ∉ outputs step out (run step s l) m := by
  rw [outputs_append] at hnd
  exact fun hb' ↦ (List.nodup_append.mp hnd).2.2 b hb b hb' rfl

/-- When all outputs differ, what is put out at two steps is put out at one step. -/
theorem same_step {s : σ} {l l' m m' : List α} {a a' : α} {b : β}
    (hnd : (outputs step out s (l ++ a :: m)).Nodup) (hsplit : l ++ a :: m = l' ++ a' :: m')
    (h : out (run step s l) a = some b) (h' : out (run step s l') a' = some b) :
    l = l' ∧ a = a' ∧ m = m' := by
  rcases List.append_eq_append_iff.mp hsplit with ⟨c, rfl, hc⟩ | ⟨c, rfl, hc⟩
  · cases c with
    | nil =>
      cases hc
      exact ⟨by simp, rfl, rfl⟩
    | cons d c =>
      cases hc
      rw [hsplit] at hnd
      exact absurd (mem_outputs_cons h' m') (not_again hnd (mem_outputs h c))
  · cases c with
    | nil =>
      cases hc
      exact ⟨by simp, rfl, rfl⟩
    | cons d c =>
      cases hc
      exact absurd (mem_outputs_cons h m) (not_again hnd (mem_outputs h' c))

/-- Where every step puts out something, a part of what a run puts out is that of a part
of the run. -/
theorem outputs_split {f : σ → α → β} {s : σ} {l : List α} {l₁ l₂ : List β} {b : β}
    (h : outputs step (fun s a ↦ some (f s a)) s l = l₁ ++ b :: l₂) :
    ∃ m₁ a m₂, l = m₁ ++ a :: m₂ ∧ outputs step (fun s a ↦ some (f s a)) s m₁ = l₁ ∧
      f (run step s m₁) a = b := by
  induction l generalizing s l₁ with
  | nil => simp [outputs] at h
  | cons a l ih =>
    cases l₁ with
    | nil => exact ⟨[], a, l, rfl, rfl, (List.cons.inj h).1⟩
    | cons c l₁ =>
      obtain ⟨rfl, htail⟩ := List.cons.inj h
      obtain ⟨m₁, a', m₂, rfl, rfl, hb⟩ := ih htail
      exact ⟨a :: m₁, a', m₂, rfl, rfl, hb⟩

end outputs

/-- The inputs of a run are all admissible at the state that reads them. -/
def Admissible (step : σ → α → σ) (ok : σ → α → Prop) : σ → List α → Prop
  | _, [] => True
  | s, a :: l => ok s a ∧ Admissible step ok (step s a) l

instance Admissible.decidable {ok : σ → α → Prop} [∀ s a, Decidable (ok s a)] :
    (s : σ) → (l : List α) → Decidable (Admissible step ok s l)
  | _, [] => inferInstanceAs (Decidable True)
  | s, a :: l =>
    have : Decidable (Admissible step ok (step s a) l) := Admissible.decidable (step s a) l
    inferInstanceAs (Decidable (ok s a ∧ Admissible step ok (step s a) l))

/-- As `run_invariant`, for runs of which every step is admissible. -/
theorem run_invariant_of {I : σ → Prop} {ok : σ → α → Prop}
    (hI : ∀ s a, I s → ok s a → I (step s a)) {s : σ} (hs : I s) {l : List α}
    (hl : Admissible step ok s l) : I (run step s l) := by
  induction l generalizing s with
  | nil => exact hs
  | cons a l ih => exact ih (hI s a hs hl.1) hl.2

theorem admissible_append {ok : σ → α → Prop} (s : σ) (l m : List α) :
    Admissible step ok s (l ++ m) ↔
      Admissible step ok s l ∧ Admissible step ok (run step s l) m := by
  induction l generalizing s with
  | nil => simp [Admissible]
  | cons a l ih => simp only [List.cons_append, Admissible, run_cons, ih, and_assoc]

/-- Conditions that agree wherever the invariant holds admit the same runs. -/
theorem admissible_congr {I : σ → Prop} {ok ok' : σ → α → Prop} (hI : ∀ s a, I s → I (step s a))
    (h : ∀ s a, I s → (ok s a ↔ ok' s a)) {s : σ} (hs : I s) (l : List α) :
    Admissible step ok s l ↔ Admissible step ok' s l := by
  induction l generalizing s with
  | nil => exact Iff.rfl
  | cons a l ih => exact and_congr (h s a hs) (ih (hI s a hs))

/-- The runs whose states are all good are those whose steps are all admissible, when
from a good state exactly the admissible steps lead to a good one. -/
theorem admissible_iff {I : σ → Prop} {good : List α → Prop} {ok : σ → α → Prop}
    (hI : ∀ s a, I s → I (step s a)) {s : σ} (hs : I s) (hnil : good [])
    (hgood : ∀ l a, I (run step s l) → good l → (good (l ++ [a]) ↔ ok (run step s l) a))
    (l : List α) : (∀ m, m <+: l → good m) ↔ Admissible step ok s l := by
  induction l using List.reverseRecOn with
  | nil =>
    refine ⟨fun _ ↦ trivial, fun _ m hm ↦ ?_⟩
    rwa [List.prefix_nil.mp hm]
  | append_singleton l a ih =>
    have hl := run_invariant hI hs l
    rw [admissible_append, ← ih]
    constructor
    · intro h
      have hbefore : ∀ m, m <+: l → good m := fun m hm ↦ h m (hm.trans (List.prefix_append l [a]))
      exact ⟨hbefore, (hgood l a hl (hbefore l (List.prefix_refl l))).mp
        (h _ (List.prefix_refl _)), trivial⟩
    · rintro ⟨h, hok, -⟩ m hm
      rcases List.prefix_concat_iff.mp hm with rfl | hm
      · exact (hgood l a hl (h l (List.prefix_refl l))).mpr hok
      · exact h m hm

end FogNode.Library
