import Mathlib.Algebra.GroupWithZero.Nat
import Mathlib.Data.List.Forall2
import Mathlib.Tactic.Common

namespace FogNode.Library

variable {α β γ : Type} {R : α → β → Prop} {l : List α} {m : List β}

theorem exists_left_of_forall₂ (h : List.Forall₂ R l m) {b : β} (hb : b ∈ m) :
    ∃ a ∈ l, R a b := by
  induction h with
  | nil => simp at hb
  | cons hr _ ih =>
    rcases List.mem_cons.mp hb with rfl | hb
    · exact ⟨_, List.mem_cons_self, hr⟩
    · obtain ⟨a, ha, hr⟩ := ih hb
      exact ⟨a, List.mem_cons_of_mem _ ha, hr⟩

theorem exists_zip_of_forall₂ (h : List.Forall₂ R l m) {a : α} (ha : a ∈ l) :
    ∃ b, (a, b) ∈ l.zip m ∧ R a b := by
  induction h with
  | nil => simp at ha
  | cons hr _ ih =>
    rcases List.mem_cons.mp ha with rfl | ha
    · exact ⟨_, List.mem_cons_self, hr⟩
    · obtain ⟨b, hb, hr⟩ := ih ha
      exact ⟨b, List.mem_cons_of_mem _ hb, hr⟩

theorem exists_right_of_forall₂ (h : List.Forall₂ R l m) {a : α} (ha : a ∈ l) :
    ∃ b ∈ m, R a b := by
  obtain ⟨b, hb, hr⟩ := exists_zip_of_forall₂ h ha
  exact ⟨b, (List.of_mem_zip hb).2, hr⟩

/-- The images of the related values differ when those they are related to do. -/
theorem nodup_map_of_forall₂ (h : List.Forall₂ R l m) (hl : l.Nodup) {f : β → γ}
    (hf : ∀ a a' b b', R a b → R a' b' → f b = f b' → a = a') : (m.map f).Nodup := by
  induction h with
  | nil => exact List.nodup_nil
  | cons hr htail ih =>
    rw [List.nodup_cons] at hl
    rw [List.map_cons, List.nodup_cons]
    refine ⟨fun hmem ↦ ?_, ih hl.2⟩
    obtain ⟨b', hb', he⟩ := List.mem_map.mp hmem
    obtain ⟨a', ha', hr'⟩ := exists_left_of_forall₂ htail hb'
    exact hl.1 (hf _ _ _ _ hr hr' he.symm ▸ ha')

theorem mem_of_lookup [BEq α] [LawfulBEq α] {l : List (α × β)} {a : α} {b : β}
    (h : l.lookup a = some b) : (a, b) ∈ l := by
  obtain ⟨l₁, l₂, rfl, -⟩ := List.lookup_eq_some_iff.mp h
  simp

theorem mapM_cons_eq_some {f : α → Option β} {a : α} :
    (a :: l).mapM f = some m ↔ ∃ b bs, f a = some b ∧ l.mapM f = some bs ∧ m = b :: bs := by
  simp only [List.mapM_cons, Option.bind_eq_bind, Option.bind_eq_some_iff, Option.pure_def,
    Option.some.injEq]
  constructor
  · rintro ⟨b, hb, bs, hbs, rfl⟩
    exact ⟨b, bs, hb, hbs, rfl⟩
  · rintro ⟨b, bs, hb, hbs, rfl⟩
    exact ⟨b, hb, bs, hbs, rfl⟩

theorem mapM_ok {ε : Type} {f : α → Except ε β} (h : l.mapM f = .ok m) {a : α} (ha : a ∈ l) :
    ∃ b ∈ m, f a = .ok b := by
  induction l generalizing m with
  | nil => simp at ha
  | cons d l ih =>
    rw [List.mapM_cons] at h
    cases hd : f d with
    | error e =>
      rw [hd] at h
      cases h
    | ok b =>
      cases hl : l.mapM f with
      | error e =>
        rw [hd, hl] at h
        cases h
      | ok bs =>
        rw [hd, hl] at h
        cases h
        rcases List.mem_cons.mp ha with rfl | ha
        · exact ⟨b, List.mem_cons_self, hd⟩
        · obtain ⟨c, hc, hfa⟩ := ih hl ha
          exact ⟨c, List.mem_cons_of_mem _ hc, hfa⟩

theorem mapM_error {ε : Type} {f : α → Except ε β} {e : ε} (h : l.mapM f = .error e) :
    ∃ a ∈ l, f a = .error e := by
  induction l with
  | nil => cases h
  | cons d l ih =>
    rw [List.mapM_cons] at h
    cases hd : f d with
    | error e' =>
      rw [hd] at h
      cases h
      exact ⟨d, List.mem_cons_self, hd⟩
    | ok b =>
      cases hl : l.mapM f with
      | error e' =>
        rw [hd, hl] at h
        cases h
        obtain ⟨a, ha, hfa⟩ := ih hl
        exact ⟨a, List.mem_cons_of_mem _ ha, hfa⟩
      | ok bs =>
        rw [hd, hl] at h
        cases h

/-- A check of every item that keeps the items as they are. -/
theorem mapM_eq_self {ε : Type} {f : α → Except ε α} {l m : List α}
    (hf : ∀ a b, f a = .ok b → b = a) :
    l.mapM f = .ok m ↔ m = l ∧ ∀ a ∈ l, f a = .ok a := by
  induction l generalizing m with
  | nil => simp [pure, Except.pure, eq_comm]
  | cons a l ih =>
    rw [List.mapM_cons, List.forall_mem_cons]
    cases ha : f a with
    | error e => simp [bind, Except.bind]
    | ok b =>
      cases hf a b ha
      cases hl : l.mapM f with
      | error e =>
        refine iff_of_false (by simp [bind, Except.bind]) fun h ↦ ?_
        cases hl.symm.trans (ih.mpr ⟨rfl, h.2.2⟩)
      | ok bs =>
        obtain ⟨rfl, hall⟩ := ih.mp hl
        simp only [bind, Except.bind, pure, Except.pure, Except.ok.injEq, true_and]
        exact ⟨fun h ↦ ⟨h.symm, hall⟩, fun h ↦ h.1.symm⟩

section separator

variable {x : α}

theorem count_intercalate [DecidableEq α] (x : α) (l : List α) (ls : List (List α)) :
    ([x].intercalate (l :: ls)).count x = ls.length + ((l :: ls).map (List.count x)).sum := by
  induction ls generalizing l with
  | nil => simp
  | cons m ls ih =>
    rw [List.intercalate_cons_cons, List.count_append, List.count_append, ih]
    simp only [List.count_singleton_self, List.length_cons, List.map_cons, List.sum_cons]
    omega

theorem append_separator_inj {l m r r' : List α} (hl : x ∉ l) (hm : x ∉ m)
    (h : l ++ x :: r = m ++ x :: r') : l = m ∧ r = r' := by
  rcases List.append_eq_append_iff.mp h with ⟨a, rfl, ha⟩ | ⟨a, rfl, ha⟩
  · cases a with
    | nil => exact ⟨by simp, by simpa using ha⟩
    | cons y a =>
      cases ha
      simp at hm
  · cases a with
    | nil => exact ⟨by simp, by simpa using ha.symm⟩
    | cons y a =>
      cases ha
      simp at hl

theorem intercalate_inj {ls ms : List (List α)} (hls : ∀ l ∈ ls, x ∉ l) (hms : ∀ m ∈ ms, x ∉ m)
    (hlen : ls.length = ms.length) (h : [x].intercalate ls = [x].intercalate ms) : ls = ms := by
  induction ls generalizing ms with
  | nil => exact (List.length_eq_zero_iff.mp hlen.symm).symm
  | cons l ls ih =>
    cases ms with
    | nil => cases hlen
    | cons m ms =>
      cases ls with
      | nil =>
        obtain rfl := List.length_eq_zero_iff.mp (Nat.succ.inj hlen).symm
        simpa using h
      | cons l' ls =>
        cases ms with
        | nil => cases hlen
        | cons m' ms =>
          simp only [List.intercalate_cons_cons, List.append_assoc, List.singleton_append] at h
          obtain ⟨rfl, hrest⟩ := append_separator_inj (hls l List.mem_cons_self)
            (hms m List.mem_cons_self) h
          rw [ih (fun p hp ↦ hls p (List.mem_cons_of_mem _ hp))
            (fun p hp ↦ hms p (List.mem_cons_of_mem _ hp)) (Nat.succ.inj hlen) hrest]

/-- Parts without the separator can be told from any other parts as many. -/
theorem intercalate_determines [DecidableEq α] {ls ms : List (List α)} (hls : ∀ l ∈ ls, x ∉ l)
    (hlen : ls.length = ms.length) (h : [x].intercalate ls = [x].intercalate ms) : ls = ms := by
  refine intercalate_inj hls ?_ hlen h
  cases ls with
  | nil =>
    rw [List.length_eq_zero_iff.mp hlen.symm]
    simp
  | cons l ls =>
    cases ms with
    | nil => cases hlen
    | cons m ms =>
      have hcount := congrArg (List.count x) h
      rw [count_intercalate, count_intercalate, Nat.succ.inj hlen] at hcount
      have hzero : ((l :: ls).map (List.count x)).sum = 0 := by
        rw [List.sum_eq_zero_iff_forall_eq_nat]
        intro n hn
        obtain ⟨p, hp, rfl⟩ := List.mem_map.mp hn
        exact List.count_eq_zero.mpr (hls p hp)
      have hsum : ((m :: ms).map (List.count x)).sum = 0 := by omega
      intro p hp
      rw [List.sum_eq_zero_iff_forall_eq_nat] at hsum
      exact List.count_eq_zero.mp (hsum _ (List.mem_map_of_mem hp))

theorem intercalate_append (l m : List α) (ls : List (List α)) :
    [x].intercalate ((l ++ m) :: ls) = l ++ [x].intercalate (m :: ls) := by
  cases ls with
  | nil => simp
  | cons k ls => simp only [List.intercalate_cons_cons, List.append_assoc]

/-- Where a part contains the separator, the parts can be cut in another way. -/
theorem exists_recut {ls : List (List α)} (hlen : 2 ≤ ls.length) {l : List α} (hl : l ∈ ls)
    (hx : x ∈ l) : ∃ ms, ms.length = ls.length ∧ ms ≠ ls ∧
      [x].intercalate ls = [x].intercalate ms := by
  obtain ⟨p, q, rfl⟩ := List.append_of_mem hx
  induction ls with
  | nil => simp at hl
  | cons a ls ih =>
    cases ls with
    | nil => simp at hlen
    | cons b ls =>
      rcases List.mem_cons.mp hl with rfl | hmem
      · have hcut : [x].intercalate ((q ++ x :: b) :: ls) =
            q ++ x :: [x].intercalate (b :: ls) := by
          rw [intercalate_append, show x :: b = [x] ++ b from rfl, intercalate_append]
          rfl
        refine ⟨p :: (q ++ x :: b) :: ls, rfl, by simp, ?_⟩
        simp only [List.intercalate_cons_cons, hcut, List.append_assoc, List.cons_append,
          List.nil_append]
      · cases ls with
        | nil =>
          obtain rfl := List.mem_singleton.mp hmem
          exact ⟨[a ++ x :: p, q], rfl, by simp, by simp [List.intercalate_cons_cons]⟩
        | cons c ls =>
          obtain ⟨ms, hms, hne, heq⟩ := ih (by simp) hmem
          obtain ⟨m, ms, rfl⟩ := List.exists_cons_of_length_eq_add_one hms
          refine ⟨a :: m :: ms, by simpa using hms, by simpa using hne, ?_⟩
          rw [List.intercalate_cons_cons, heq, List.intercalate_cons_cons]

/-- Parts can be told from any other parts as many exactly when none contains the separator. -/
theorem intercalate_determines_iff [DecidableEq α] {ls : List (List α)} (hlen : 2 ≤ ls.length) :
    (∀ ms : List (List α), ms.length = ls.length →
      [x].intercalate ls = [x].intercalate ms → ls = ms) ↔ ∀ l ∈ ls, x ∉ l := by
  constructor
  · intro h l hl hx
    obtain ⟨ms, hms, hne, heq⟩ := exists_recut hlen hl hx
    exact hne (h ms hms heq).symm
  · exact fun h ms hms ↦ intercalate_determines h hms.symm

end separator
end FogNode.Library
