import Mathlib.Data.List.Basic
import Mathlib.Data.String.Basic

namespace FogNode.Library

/-- A text as an interpreter has it that takes surrogates for characters. -/
abbrev CodePoints := List (Fin 0x110000)

namespace CodePoints

def ofChar (c : Char) : Fin 0x110000 := ⟨c.toNat, by
  have hvalid : c.toNat.isValidChar := c.valid
  simp only [Nat.isValidChar] at hvalid
  omega⟩

def ofString (s : String) : CodePoints := s.toList.map ofChar

theorem ofString_append (s t : String) : ofString (s ++ t) = ofString s ++ ofString t := by
  simp [ofString]

/-- A code point that is no surrogate is a character. -/
def toChar? (n : Fin 0x110000) : Option Char :=
  if h : n.val.isValidChar then some (Char.ofNatAux n.val h) else none

/-- The text without surrogates that the code points are, if they are one. -/
def decode? (codes : CodePoints) : Option String := (codes.mapM toChar?).map String.ofList

theorem toChar?_eq_some {n : Fin 0x110000} {c : Char} : toChar? n = some c ↔ n = ofChar c := by
  unfold toChar?
  constructor
  · intro h
    by_cases hvalid : n.val.isValidChar
    · rw [dif_pos hvalid] at h
      cases h
      rfl
    · rw [dif_neg hvalid] at h
      cases h
  · rintro rfl
    have hvalid : (ofChar c).val.isValidChar := c.valid
    rw [dif_pos hvalid]
    rfl

theorem mapM_toChar? {codes : CodePoints} {l : List Char} :
    codes.mapM toChar? = some l ↔ codes = l.map ofChar := by
  induction codes generalizing l with
  | nil => simp [eq_comm]
  | cons n codes ih =>
    simp only [List.mapM_cons, Option.bind_eq_bind, Option.bind_eq_some_iff, toChar?_eq_some, ih,
      Option.pure_def, Option.some.injEq]
    constructor
    · rintro ⟨c, rfl, l, rfl, rfl⟩
      rfl
    · intro h
      cases l with
      | nil => cases h
      | cons c l =>
        cases h
        exact ⟨c, rfl, l, rfl, rfl⟩

theorem decode?_eq_some {codes : CodePoints} {s : String} :
    decode? codes = some s ↔ codes = ofString s := by
  simp only [decode?, Option.map_eq_some_iff, mapM_toChar?]
  constructor
  · rintro ⟨l, rfl, rfl⟩
    rw [ofString, String.toList_ofList]
  · rintro rfl
    exact ⟨s.toList, rfl, String.ofList_toList⟩

@[simp] theorem decode?_ofString (s : String) : decode? (ofString s) = some s :=
  decode?_eq_some.mpr rfl

theorem ofString_injective : Function.Injective ofString := by
  intro s t h
  have hs := decode?_ofString s
  rw [h, decode?_ofString] at hs
  exact (Option.some.inj hs).symm

theorem ofChar_injective : Function.Injective ofChar := by
  intro c d h
  have hnat : c.toNat = d.toNat := congrArg (fun n : Fin 0x110000 ↦ n.val) h
  exact Char.toNat_inj.mp hnat

theorem ofString_prefix_iff {s t : String} :
    ofString s <+: ofString t ↔ s.toList <+: t.toList := by
  rw [ofString, ofString, List.prefix_map_iff]
  constructor
  · rintro ⟨l, hl, h⟩
    rwa [List.map_injective_iff.mpr ofChar_injective h]
  · exact fun h ↦ ⟨s.toList, h, rfl⟩

end CodePoints

end FogNode.Library
