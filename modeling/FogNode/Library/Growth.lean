import Mathlib.Tactic.Common

namespace FogNode.Library

variable {κ ν : Type} {r : ν → ν → Prop} {f g h : κ → Option ν}

/-- No entry of `f` is lost in `g`, and each has only moved along `r`. -/
def Grows (r : ν → ν → Prop) (f g : κ → Option ν) : Prop :=
  ∀ k v, f k = some v → ∃ w, g k = some w ∧ r v w

/-- Every entry satisfies `p`. -/
def Everywhere (p : ν → Prop) (f : κ → Option ν) : Prop := ∀ k v, f k = some v → p v

namespace Everywhere

variable [DecidableEq κ] {p : ν → Prop} {k : κ}

theorem insert (hf : Everywhere p f) {v : ν} (hg : ∀ j, g j = if j = k then some v else f j)
    (hv : p v) : Everywhere p g := by
  intro j w hw
  rw [hg] at hw
  split at hw
  case isTrue => cases hw; exact hv
  case isFalse => exact hf j w hw

theorem modify (hf : Everywhere p f) {t : ν → ν}
    (hg : ∀ j, g j = if j = k then (f k).map t else f j)
    (ht : ∀ v, f k = some v → p v → p (t v)) : Everywhere p g := by
  intro j w hw
  rw [hg] at hw
  split at hw
  case isTrue =>
    obtain ⟨v, hv, rfl⟩ := Option.map_eq_some_iff.mp hw
    exact ht v hv (hf k v hv)
  case isFalse => exact hf j w hw

end Everywhere

namespace Grows

theorem refl (hr : ∀ v, r v v) (f : κ → Option ν) : Grows r f f := fun _ v hv ↦ ⟨v, hv, hr v⟩

theorem trans (hr : ∀ u v w, r u v → r v w → r u w) (hfg : Grows r f g) (hgh : Grows r g h) :
    Grows r f h := by
  intro k u hu
  obtain ⟨v, hv, huv⟩ := hfg k u hu
  obtain ⟨w, hw, hvw⟩ := hgh k v hv
  exact ⟨w, hw, hr u v w huv hvw⟩

section

variable [DecidableEq κ] {k : κ}

theorem insert (hr : ∀ v, r v v) {v : ν} (hg : ∀ j, g j = if j = k then some v else f j)
    (hk : f k = none) : Grows r f g := by
  intro j w hw
  have hj : j ≠ k := by
    rintro rfl
    rw [hk] at hw
    cases hw
  exact ⟨w, by rw [hg, if_neg hj, hw], hr w⟩

theorem modify (hr : ∀ v, r v v) {t : ν → ν}
    (hg : ∀ j, g j = if j = k then (f k).map t else f j)
    (ht : ∀ v, f k = some v → r v (t v)) : Grows r f g := by
  intro j w hw
  rw [hg]
  split
  case isTrue hj =>
    subst hj
    exact ⟨t w, by rw [hw]; rfl, ht w hw⟩
  case isFalse => exact ⟨w, hw, hr w⟩

end

/-- What `r` preserves of an entry holds for ever. -/
theorem settled (hfg : Grows r f g) {k : κ} {p : ν → Prop} (hp : ∀ v w, p v → r v w → p w)
    (hk : ∃ v, f k = some v ∧ p v) : ∃ w, g k = some w ∧ p w := by
  obtain ⟨v, hv, hpv⟩ := hk
  obtain ⟨w, hw, hvw⟩ := hfg k v hv
  exact ⟨w, hw, hp v w hpv hvw⟩

/-- What only grows by equality is immutable. -/
theorem eq_some (hfg : Grows (· = ·) f g) {k : κ} {v : ν} (hk : f k = some v) :
    g k = some v := by
  obtain ⟨w, hw, rfl⟩ := hfg k v hk
  exact hw

end Grows

end FogNode.Library
