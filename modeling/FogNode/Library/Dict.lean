import Mathlib.Data.List.Nodup
import Mathlib.Tactic.Common

namespace FogNode.Library

variable {κ ν : Type}

/-- A dictionary that remembers insertion order: assigning to a present key
keeps its place, assigning to a new key appends. -/
structure Dict (κ ν : Type) where
  entries : List (κ × ν)
  nodup : (entries.map Prod.fst).Nodup

namespace Dict

theorem ext {d d' : Dict κ ν} (h : d.entries = d'.entries) : d = d' := by
  cases d; cases d'; simpa using h

def empty : Dict κ ν := ⟨[], List.nodup_nil⟩

instance : EmptyCollection (Dict κ ν) := ⟨empty⟩

instance [DecidableEq κ] [DecidableEq ν] : DecidableEq (Dict κ ν) := fun d d' ↦
  decidable_of_iff (d.entries = d'.entries) ⟨ext, fun h ↦ by rw [h]⟩

def keys (d : Dict κ ν) : List κ := d.entries.map Prod.fst

def values (d : Dict κ ν) : List ν := d.entries.map Prod.snd

def size (d : Dict κ ν) : ℕ := d.entries.length

variable [DecidableEq κ]

def lookup (k : κ) : List (κ × ν) → Option ν
  | [] => none
  | e :: l => if e.1 = k then some e.2 else lookup k l

def put (k : κ) (v : ν) : List (κ × ν) → List (κ × ν)
  | [] => [(k, v)]
  | e :: l => if e.1 = k then (k, v) :: l else e :: put k v l

def get? (d : Dict κ ν) (k : κ) : Option ν := lookup k d.entries

theorem mem_of_lookup {k : κ} {v : ν} {l : List (κ × ν)} (h : lookup k l = some v) :
    (k, v) ∈ l := by
  induction l with
  | nil => simp [lookup] at h
  | cons e l ih =>
    simp only [lookup] at h
    split at h
    case isTrue he => cases h; subst he; exact List.mem_cons_self
    case isFalse => exact List.mem_cons_of_mem _ (ih h)

theorem lookup_of_mem {k : κ} {v : ν} {l : List (κ × ν)} (hl : (l.map Prod.fst).Nodup)
    (h : (k, v) ∈ l) : lookup k l = some v := by
  induction l with
  | nil => simp at h
  | cons e l ih =>
    simp only [List.map_cons, List.nodup_cons] at hl
    simp only [lookup]
    rcases List.mem_cons.mp h with rfl | h
    · simp
    · have hk : e.1 ≠ k := fun he ↦ hl.1 (List.mem_map.mpr ⟨_, h, he.symm⟩)
      rw [if_neg hk, ih hl.2 h]

theorem lookup_eq_none {k : κ} {l : List (κ × ν)} :
    lookup k l = none ↔ k ∉ l.map Prod.fst := by
  induction l with
  | nil => simp [lookup]
  | cons e l ih =>
    simp only [lookup, List.map_cons, List.mem_cons, not_or]
    split
    case isTrue he => simp [he]
    case isFalse he => rw [ih]; exact ⟨fun h ↦ ⟨fun h' ↦ he h'.symm, h⟩, And.right⟩

theorem lookup_append_left {k : κ} {v : ν} {l m : List (κ × ν)} (h : lookup k l = some v) :
    lookup k (l ++ m) = some v := by
  induction l with
  | nil => simp [lookup] at h
  | cons e l ih =>
    simp only [List.cons_append, lookup] at h ⊢
    split at h
    case isTrue he => rw [if_pos he, h]
    case isFalse he => rw [if_neg he, ih h]

theorem lookup_append_right {k : κ} {l m : List (κ × ν)} (h : k ∉ l.map Prod.fst) :
    lookup k (l ++ m) = lookup k m := by
  induction l with
  | nil => rfl
  | cons e l ih =>
    simp only [List.map_cons, List.mem_cons, not_or] at h
    simp only [List.cons_append, lookup, if_neg (Ne.symm h.1), ih h.2]

theorem lookup_put (k j : κ) (v : ν) (l : List (κ × ν)) :
    lookup j (put k v l) = if j = k then some v else lookup j l := by
  induction l with
  | nil =>
    simp only [put, lookup]
    by_cases h : j = k
    · simp [h]
    · simp [h, Ne.symm h]
  | cons e l ih =>
    simp only [put]
    split
    case isTrue he =>
      subst he
      simp only [lookup]
      by_cases h : j = e.1
      · simp [h]
      · simp [h, Ne.symm h]
    case isFalse he =>
      simp only [lookup, ih]
      by_cases h : e.1 = j
      · subst h; simp [he]
      · simp [h]

theorem mem_keys_put {k j : κ} {v : ν} {l : List (κ × ν)} (h : j ∈ (put k v l).map Prod.fst) :
    j = k ∨ j ∈ l.map Prod.fst := by
  by_cases hj : j = k
  · exact .inl hj
  · right
    by_contra hn
    have hnone := lookup_put k j v l
    rw [if_neg hj, lookup_eq_none.mpr hn, lookup_eq_none] at hnone
    exact hnone h

theorem put_of_not_mem {k : κ} {v : ν} {l : List (κ × ν)} (h : k ∉ l.map Prod.fst) :
    put k v l = l ++ [(k, v)] := by
  induction l with
  | nil => rfl
  | cons e l ih =>
    simp only [List.map_cons, List.mem_cons, not_or] at h
    simp only [put, if_neg (Ne.symm h.1), ih h.2, List.cons_append]

theorem put_put (k : κ) (v w : ν) (l : List (κ × ν)) : put k w (put k v l) = put k w l := by
  induction l with
  | nil => simp [put]
  | cons e l ih =>
    simp only [put]
    split_ifs with h
    · simp [put]
    · simp only [put, if_neg h, ih]

theorem nodup_put (k : κ) (v : ν) {l : List (κ × ν)} (hl : (l.map Prod.fst).Nodup) :
    ((put k v l).map Prod.fst).Nodup := by
  induction l with
  | nil => simp [put]
  | cons e l ih =>
    simp only [List.map_cons, List.nodup_cons] at hl
    simp only [put]
    split
    case isTrue he => subst he; simpa using hl
    case isFalse he =>
      simp only [List.map_cons, List.nodup_cons]
      refine ⟨fun h ↦ ?_, ih hl.2⟩
      rcases mem_keys_put h with h | h
      · exact he h
      · exact hl.1 h

def set (d : Dict κ ν) (k : κ) (v : ν) : Dict κ ν := ⟨put k v d.entries, nodup_put k v d.nodup⟩

def filter (d : Dict κ ν) (p : κ → ν → Bool) : Dict κ ν :=
  ⟨d.entries.filter (fun e ↦ p e.1 e.2),
    d.nodup.sublist (List.filter_sublist.map _)⟩

def erase (d : Dict κ ν) (k : κ) : Dict κ ν := d.filter (fun j _ ↦ decide (j ≠ k))

/-- Change the value under a key in place; an absent key changes nothing. -/
def modify (d : Dict κ ν) (k : κ) (f : ν → ν) : Dict κ ν :=
  match d.get? k with
  | none => d
  | some v => d.set k (f v)

theorem get?_eq_some {d : Dict κ ν} {k : κ} {v : ν} :
    d.get? k = some v ↔ (k, v) ∈ d.entries :=
  ⟨mem_of_lookup, lookup_of_mem d.nodup⟩

theorem get?_eq_none {d : Dict κ ν} {k : κ} : d.get? k = none ↔ k ∉ d.keys := lookup_eq_none

theorem mem_keys {d : Dict κ ν} {k : κ} : k ∈ d.keys ↔ ∃ v, d.get? k = some v := by
  rw [← Option.isSome_iff_exists, ← not_iff_not, ← get?_eq_none]
  simp

theorem mem_values {d : Dict κ ν} {v : ν} : v ∈ d.values ↔ ∃ k, d.get? k = some v := by
  simp only [values, List.mem_map, Prod.exists, get?_eq_some]
  constructor
  · rintro ⟨k, w, h, rfl⟩; exact ⟨k, h⟩
  · rintro ⟨k, h⟩; exact ⟨k, v, h, rfl⟩

@[simp] theorem get?_empty (k : κ) : (∅ : Dict κ ν).get? k = none := rfl

theorem get?_set (d : Dict κ ν) (k j : κ) (v : ν) :
    (d.set k v).get? j = if j = k then some v else d.get? j := lookup_put k j v d.entries

@[simp] theorem get?_set_self (d : Dict κ ν) (k : κ) (v : ν) : (d.set k v).get? k = some v := by
  simp [get?_set]

theorem get?_set_of_ne (d : Dict κ ν) {k j : κ} (v : ν) (h : j ≠ k) :
    (d.set k v).get? j = d.get? j := by simp [get?_set, h]

theorem get?_filter (d : Dict κ ν) (p : κ → ν → Bool) (k : κ) :
    (d.filter p).get? k = (d.get? k).filter (p k) := by
  apply Option.ext
  intro v
  simp only [get?_eq_some, filter, List.mem_filter, Option.filter_eq_some_iff]

theorem get?_erase (d : Dict κ ν) (k j : κ) :
    (d.erase k).get? j = if j = k then none else d.get? j := by
  rw [erase, get?_filter]
  by_cases h : j = k
  · simp [h]
  · cases hd : d.get? j <;> simp [h]

theorem get?_modify (d : Dict κ ν) (k j : κ) (f : ν → ν) :
    (d.modify k f).get? j = if j = k then (d.get? k).map f else d.get? j := by
  unfold modify
  cases hk : d.get? k with
  | none =>
    by_cases h : j = k
    · simp [h, hk]
    · simp [h]
  | some v => simp [get?_set]

theorem get?_erase_some {d : Dict κ ν} {k j : κ} {v : ν} (h : (d.erase k).get? j = some v) :
    j ≠ k ∧ d.get? j = some v := by
  rw [get?_erase] at h
  split at h
  case isTrue => cases h
  case isFalse hj => exact ⟨hj, h⟩

/-- Assign the listed pairs in turn, as a dictionary display does. -/
def ofList (l : List (κ × ν)) : Dict κ ν := l.foldl (fun d e ↦ d.set e.1 e.2) ∅

theorem ofList_snoc (l : List (κ × ν)) (e : κ × ν) :
    ofList (l ++ [e]) = (ofList l).set e.1 e.2 := List.foldl_append

theorem foldl_set_get? (l : List (κ × ν)) (hl : (l.map Prod.fst).Nodup) (d : Dict κ ν) (k : κ) :
    (l.foldl (fun d e ↦ d.set e.1 e.2) d).get? k = (lookup k l).or (d.get? k) := by
  induction l generalizing d with
  | nil => simp [lookup]
  | cons e l ih =>
    simp only [List.map_cons, List.nodup_cons] at hl
    rw [List.foldl_cons, ih hl.2, get?_set, lookup]
    by_cases h : e.1 = k
    · subst h
      simp [lookup_eq_none.mpr hl.1]
    · simp [h, Ne.symm h]

theorem get?_ofList {l : List (κ × ν)} (hl : (l.map Prod.fst).Nodup) (k : κ) :
    (ofList l).get? k = lookup k l := by
  rw [ofList, foldl_set_get? l hl]
  simp

/-- Every value knows the key it is stored under. -/
def Keyed (key : ν → κ) (d : Dict κ ν) : Prop := ∀ k v, d.get? k = some v → key v = k

variable {key : ν → κ} {d : Dict κ ν}

theorem keyed_empty : Keyed key (∅ : Dict κ ν) := by
  intro k v h
  simp at h

theorem Keyed.set (hd : Keyed key d) {k : κ} {v : ν} (hv : key v = k) : Keyed key (d.set k v) := by
  intro j w h
  rw [get?_set] at h
  split at h
  case isTrue hj => cases h; exact hv.trans hj.symm
  case isFalse => exact hd j w h

theorem Keyed.filter (hd : Keyed key d) (p : κ → ν → Bool) : Keyed key (d.filter p) := by
  intro k v h
  rw [get?_filter, Option.filter_eq_some_iff] at h
  exact hd k v h.1

theorem Keyed.modify (hd : Keyed key d) (k : κ) {f : ν → ν} (hf : ∀ v, key (f v) = key v) :
    Keyed key (d.modify k f) := by
  intro j v h
  rw [get?_modify] at h
  split at h
  case isTrue hj =>
    obtain ⟨w, hw, rfl⟩ := Option.map_eq_some_iff.mp h
    rw [hf, hd k w hw, hj]
  case isFalse => exact hd j v h

theorem Keyed.mem_values (hd : Keyed key d) {v : ν} : v ∈ d.values ↔ d.get? (key v) = some v := by
  rw [Dict.mem_values]
  constructor
  · rintro ⟨k, h⟩; rwa [hd k v h]
  · exact fun h ↦ ⟨_, h⟩

end Dict

end FogNode.Library
