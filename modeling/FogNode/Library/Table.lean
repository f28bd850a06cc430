import FogNode.Library.Dict

namespace FogNode.Library

variable {κ ν : Type} [DecidableEq κ]

/-- A dictionary whose values are stored under a key of their own. -/
structure Table (key : ν → κ) where
  dict : Dict κ ν
  keyed : Dict.Keyed key dict

namespace Table

variable {key : ν → κ}

def empty : Table key := ⟨∅, Dict.keyed_empty⟩

instance : EmptyCollection (Table key) := ⟨empty⟩

def get? (t : Table key) (k : κ) : Option ν := t.dict.get? k

def keys (t : Table key) : List κ := t.dict.keys

def values (t : Table key) : List ν := t.dict.values

def size (t : Table key) : ℕ := t.dict.size

def add (t : Table key) (v : ν) : Table key := ⟨t.dict.set (key v) v, t.keyed.set rfl⟩

def erase (t : Table key) (k : κ) : Table key := ⟨t.dict.erase k, t.keyed.filter _⟩

def modify (t : Table key) (k : κ) (f : ν → ν) (hf : ∀ v, key (f v) = key v) : Table key :=
  ⟨t.dict.modify k f, t.keyed.modify k hf⟩

def addAll (t : Table key) (l : List ν) : Table key := l.foldl add t

theorem ext {t t' : Table key} (h : t.dict = t'.dict) : t = t' := by
  cases t; cases t'; simpa using h

@[simp] theorem get?_empty (k : κ) : (∅ : Table key).get? k = none := rfl

theorem key_of_get? {t : Table key} {k : κ} {v : ν} (h : t.get? k = some v) : key v = k :=
  t.keyed k v h

theorem get?_key {t : Table key} {k : κ} {v : ν} (h : t.get? k = some v) :
    t.get? (key v) = some v := by rwa [key_of_get? h]

theorem mem_values {t : Table key} {v : ν} : v ∈ t.values ↔ t.get? (key v) = some v :=
  t.keyed.mem_values

theorem mem_keys {t : Table key} {k : κ} : k ∈ t.keys ↔ ∃ v, t.get? k = some v := Dict.mem_keys

theorem keys_eq_map (t : Table key) : t.keys = t.values.map key := by
  unfold keys values Dict.keys Dict.values
  rw [List.map_map]
  apply List.map_congr_left
  rintro ⟨k, v⟩ h
  exact (t.keyed k v (Dict.get?_eq_some.mpr h)).symm

theorem nodup_keys (t : Table key) : (t.values.map key).Nodup := by
  rw [← keys_eq_map]
  exact t.dict.nodup

theorem values_eq_nil {t : Table key} : t.size = 0 ↔ t.values = [] := by
  simp [size, values, Dict.size, Dict.values]

theorem get?_add (t : Table key) (v : ν) (k : κ) :
    (t.add v).get? k = if k = key v then some v else t.get? k := Dict.get?_set _ _ _ _

@[simp] theorem get?_add_self (t : Table key) (v : ν) : (t.add v).get? (key v) = some v := by
  simp [get?_add]

/-- Of two values with one key the later one is kept, in the place of the first. -/
theorem add_add {v w : ν} (t : Table key) (h : key w = key v) : (t.add v).add w = t.add w := by
  apply ext
  apply Dict.ext
  simp only [add, Dict.set, h, Dict.put_put]

theorem get?_erase (t : Table key) (k j : κ) :
    (t.erase k).get? j = if j = k then none else t.get? j := Dict.get?_erase _ _ _

theorem get?_modify (t : Table key) (k j : κ) (f : ν → ν) (hf : ∀ v, key (f v) = key v) :
    (t.modify k f hf).get? j = if j = k then (t.get? k).map f else t.get? j :=
  Dict.get?_modify _ _ _ _

theorem modify_absent {t : Table key} {k : κ} (h : t.get? k = none) (f : ν → ν)
    (hf : ∀ v, key (f v) = key v) : t.modify k f hf = t := by
  apply ext
  have hd : t.dict.get? k = none := h
  simp only [modify, Dict.modify, hd]

theorem get?_addAll {l : List ν} (hl : (l.map key).Nodup) (t : Table key) (k : κ) :
    (t.addAll l).get? k = (l.find? (fun v ↦ decide (key v = k))).or (t.get? k) := by
  induction l generalizing t with
  | nil => rfl
  | cons v l ih =>
    simp only [List.map_cons, List.nodup_cons] at hl
    have hcons : t.addAll (v :: l) = (t.add v).addAll l := rfl
    rw [hcons, ih hl.2, get?_add, List.find?_cons]
    by_cases h : key v = k
    · subst h
      have hnone : l.find? (fun w ↦ decide (key w = key v)) = none := by
        rw [List.find?_eq_none]
        intro w hw he
        exact hl.1 (List.mem_map.mpr ⟨w, hw, by simpa using he⟩)
      simp [hnone]
    · simp [h, Ne.symm h]

/-- After the listed values are added a key holds one of them or what it held. -/
theorem get?_addAll_some {l : List ν} {t : Table key} {k : κ} {v : ν}
    (h : (t.addAll l).get? k = some v) : v ∈ l ∨ (t.get? k = some v ∧ k ∉ l.map key) := by
  induction l generalizing t with
  | nil => exact .inr ⟨h, by simp⟩
  | cons w l ih =>
    rcases ih (t := t.add w) h with hv | ⟨hv, hk⟩
    · exact .inl (List.mem_cons_of_mem _ hv)
    · rw [get?_add] at hv
      split at hv
      case isTrue => cases hv; exact .inl List.mem_cons_self
      case isFalse hkw => exact .inr ⟨hv, by simp [hkw] at hk ⊢; exact hk⟩

theorem get?_addAll_mem {l : List ν} (hl : (l.map key).Nodup) (t : Table key) {v : ν}
    (hv : v ∈ l) : (t.addAll l).get? (key v) = some v := by
  induction l generalizing t with
  | nil => simp at hv
  | cons w l ih =>
    simp only [List.map_cons, List.nodup_cons] at hl
    rcases List.mem_cons.mp hv with rfl | hv
    · have hcons : t.addAll (v :: l) = (t.add v).addAll l := rfl
      have hnone : l.find? (fun w ↦ decide (key w = key v)) = none := by
        rw [List.find?_eq_none]
        intro w hw he
        exact hl.1 (List.mem_map.mpr ⟨w, hw, by simpa using he⟩)
      rw [hcons, get?_addAll hl.2, hnone]
      simp
    · exact ih hl.2 (t.add w) hv

theorem values_add {t : Table key} {v : ν} (h : key v ∉ t.keys) :
    (t.add v).values = t.values ++ [v] := by
  have hput := Dict.put_of_not_mem (v := v) h
  simp [values, add, Dict.values, Dict.set, hput]

/-- Adding values of new and distinct keys lists them after the present ones. -/
theorem values_addAll {l : List ν} {t : Table key} (h : ((t.values ++ l).map key).Nodup) :
    (t.addAll l).values = t.values ++ l := by
  induction l generalizing t with
  | nil => simp [addAll]
  | cons v l ih =>
    have hv : key v ∉ t.keys := by
      intro hk
      rw [keys_eq_map] at hk
      rw [List.map_append, List.map_cons, List.nodup_append] at h
      exact h.2.2 _ hk _ List.mem_cons_self rfl
    have hcons : t.addAll (v :: l) = (t.add v).addAll l := rfl
    rw [hcons, ih, values_add hv, List.append_assoc]
    · rfl
    · rw [values_add hv, List.append_assoc]
      exact h

@[simp] theorem size_empty : (∅ : Table key).size = 0 := rfl

theorem size_eq_length (t : Table key) : t.size = t.values.length := by
  simp [size, values, Dict.size, Dict.values]

theorem size_add {t : Table key} {v : ν} (h : t.get? (key v) = none) :
    (t.add v).size = t.size + 1 := by
  have hv : key v ∉ t.keys := Dict.get?_eq_none.mp h
  rw [size_eq_length, size_eq_length, values_add hv, List.length_append, List.length_singleton]

theorem size_addAll {l : List ν} {t : Table key} (hl : (l.map key).Nodup)
    (h : ∀ v ∈ l, t.get? (key v) = none) : (t.addAll l).size = t.size + l.length := by
  have hnd : ((t.values ++ l).map key).Nodup := by
    rw [List.map_append, List.nodup_append]
    refine ⟨t.nodup_keys, hl, ?_⟩
    rintro k hk k' hk' rfl
    obtain ⟨v, hv, rfl⟩ := List.mem_map.mp hk'
    rw [← keys_eq_map] at hk
    exact Dict.get?_eq_none.mp (h v hv) hk
  rw [size_eq_length, values_addAll hnd, List.length_append, size_eq_length]

theorem get?_addAll_of_not_mem {l : List ν} {t : Table key} {k : κ} (h : k ∉ l.map key) :
    (t.addAll l).get? k = t.get? k := by
  induction l generalizing t with
  | nil => rfl
  | cons w l ih =>
    simp only [List.map_cons, List.mem_cons, not_or] at h
    have hcons : t.addAll (w :: l) = (t.add w).addAll l := rfl
    rw [hcons, ih h.2, get?_add, if_neg h.1]

end Table

end FogNode.Library
