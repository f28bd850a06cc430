import FogNode.Library.Hex
import Mathlib.Data.Rat.Defs
import Mathlib.Data.String.Basic

namespace FogNode.Library

/-- A JSON value. The fields of an object stand in the order of its text. -/
inductive Json
  | null
  | bool (b : Bool)
  | int (n : ℤ)
  | float (q : ℚ)
  | str (s : String)
  | arr (items : List Json)
  | obj (fields : List (String × Json))

namespace Json

def isNumeric (c : Char) : Bool := c.isDigit || c = '-' || c = '+' || c = '.' || c = 'e'

/-- How numbers with a fractional part are printed: differently from each other
and from every integer. -/
structure FloatFormat where
  repr : ℚ → List Char
  injective : Function.Injective repr
  numeric : ∀ q, ∀ c ∈ repr q, isNumeric c = true
  marked : ∀ q, '.' ∈ repr q ∨ 'e' ∈ repr q

/-- The decimal digits of an integer. -/
def decimal : ℤ → List Char
  | .ofNat n => Nat.toDigits 10 n
  | .negSucc n => '-' :: Nat.toDigits 10 (n + 1)

def escape (c : Char) : List Char :=
  if c = '"' then ['\\', '"']
  else if c = '\\' then ['\\', '\\']
  else if c = '\n' then ['\\', 'n']
  else if c = '\r' then ['\\', 'r']
  else if c = '\t' then ['\\', 't']
  else if c = '\x0c' then ['\\', 'f']
  else if c = '\x08' then ['\\', 'b']
  else if c.toNat < 32 then
    ['\\', 'u', '0', '0', Hex.digit (c.toNat / 16), Hex.digit (c.toNat % 16)]
  else [c]

def quote (s : String) : List Char := '"' :: s.toList.flatMap escape ++ ['"']

variable (fmt : FloatFormat)

mutual

/-- Compact text of a value, fields in the order in which they stand. -/
def dumps : Json → List Char
  | .null => ['n', 'u', 'l', 'l']
  | .bool true => ['t', 'r', 'u', 'e']
  | .bool false => ['f', 'a', 'l', 's', 'e']
  | .int n => decimal n
  | .float q => fmt.repr q
  | .str s => quote s
  | .arr [] => ['[', ']']
  | .arr (x :: items) => '[' :: (dumps x ++ dumpsItems items)
  | .obj [] => ['{', '}']
  | .obj ((k, v) :: fields) => '{' :: (quote k ++ ':' :: (dumps v ++ dumpsFields fields))

def dumpsItems : List Json → List Char
  | [] => [']']
  | x :: items => ',' :: (dumps x ++ dumpsItems items)

def dumpsFields : List (String × Json) → List Char
  | [] => ['}']
  | (k, v) :: fields => ',' :: (quote k ++ ':' :: (dumps v ++ dumpsFields fields))

end

def KeyLE (e e' : String × Json) : Prop := e.1 ≤ e'.1

instance : DecidableRel KeyLE := fun e e' ↦ inferInstanceAs (Decidable (e.1 ≤ e'.1))

mutual

/-- The same value with the fields of every object in the order of their keys. -/
def sortKeys : Json → Json
  | .arr items => .arr (sortItems items)
  | .obj fields => .obj ((sortFields fields).insertionSort KeyLE)
  | .null => .null
  | .bool b => .bool b
  | .int n => .int n
  | .float q => .float q
  | .str s => .str s

def sortItems : List Json → List Json
  | [] => []
  | x :: items => sortKeys x :: sortItems items

def sortFields : List (String × Json) → List (String × Json)
  | [] => []
  | (k, v) :: fields => (k, sortKeys v) :: sortFields fields

end

/-- Two objects are equal as dictionaries, whatever the order of their fields. -/
def SameDict (fields fields' : List (String × Json)) : Prop :=
  sortKeys (.obj fields) = sortKeys (.obj fields')

/-- The value of a field, the first one where a key stands twice. -/
def field (k : String) : List (String × Json) → Option Json
  | [] => none
  | e :: fields => if e.1 = k then some e.2 else field k fields

/-- Deterministic UTF-8 text with sorted keys. -/
def canonical (j : Json) : Bytes := utf8 (String.ofList (dumps fmt (sortKeys j)))

theorem field_orderedInsert (k : String) (e : String × Json) (l : List (String × Json)) :
    field k (l.orderedInsert KeyLE e) = if e.1 = k then some e.2 else field k l := by
  induction l with
  | nil => rfl
  | cons d l ih =>
    rw [List.orderedInsert_cons]
    split
    case isTrue => rfl
    case isFalse hle =>
      simp only [field, ih]
      by_cases hk : d.1 = k
      · have hne : e.1 ≠ k := fun he ↦ hle (le_of_eq (he.trans hk.symm))
        simp [hk, hne]
      · simp [hk]

theorem field_sortFields (k : String) (l : List (String × Json)) :
    field k ((sortFields l).insertionSort KeyLE) = (field k l).map sortKeys := by
  induction l with
  | nil => rfl
  | cons e l ih =>
    obtain ⟨j, v⟩ := e
    simp only [sortFields, List.insertionSort_cons, field_orderedInsert, ih, field]
    split <;> rfl

theorem SameDict.symm {l m : List (String × Json)} (h : SameDict l m) : SameDict m l := Eq.symm h

theorem SameDict.field_eq {l m : List (String × Json)} (h : SameDict l m) (k : String) :
    (field k l).map sortKeys = (field k m).map sortKeys := by
  simp only [SameDict, sortKeys, Json.obj.injEq] at h
  rw [← field_sortFields, ← field_sortFields, h]

/-- A field that holds a value without parts on one side holds it on the other. -/
theorem SameDict.field_atom {l m : List (String × Json)} (h : SameDict l m) {k : String} {v : Json}
    (hv : ∀ j, sortKeys j = v ↔ j = v) (hm : field k m = some v) : field k l = some v := by
  have hf := h.field_eq k
  rw [hm, Option.map_some, (hv v).mpr rfl, Option.map_eq_some_iff] at hf
  obtain ⟨j, hj, hs⟩ := hf
  rw [hj, (hv j).mp hs]

theorem sortKeys_eq_str {s : String} (j : Json) : sortKeys j = .str s ↔ j = .str s := by
  cases j <;> simp [sortKeys]

theorem SameDict.field_str {l m : List (String × Json)} (h : SameDict l m) {k s : String}
    (hm : field k m = some (.str s)) : field k l = some (.str s) :=
  h.field_atom sortKeys_eq_str hm

theorem sortKeys_eq_int {n : ℤ} (j : Json) : sortKeys j = .int n ↔ j = .int n := by
  cases j <;> simp [sortKeys]

theorem SameDict.field_int {l m : List (String × Json)} (h : SameDict l m) {k : String} {n : ℤ}
    (hm : field k m = some (.int n)) : field k l = some (.int n) :=
  h.field_atom sortKeys_eq_int hm

theorem sortKeys_eq_float {q : ℚ} (j : Json) : sortKeys j = .float q ↔ j = .float q := by
  cases j <;> simp [sortKeys]

theorem SameDict.field_float {l m : List (String × Json)} (h : SameDict l m) {k : String} {q : ℚ}
    (hm : field k m = some (.float q)) : field k l = some (.float q) :=
  h.field_atom sortKeys_eq_float hm

theorem SameDict.field_none {l m : List (String × Json)} (h : SameDict l m) {k : String}
    (hm : field k m = none) : field k l = none := by
  have hf := h.field_eq k
  rwa [hm, Option.map_none, Option.map_eq_none_iff] at hf

/-- All fields but the named one. -/
def without (k : String) (fields : List (String × Json)) : List (String × Json) :=
  fields.filter (fun e ↦ decide (e.1 ≠ k))

theorem field_without (k j : String) (fields : List (String × Json)) :
    field j (without k fields) = if j = k then none else field j fields := by
  induction fields with
  | nil => simp [without, field]
  | cons e l ih =>
    simp only [without, List.filter_cons, field] at ih ⊢
    by_cases hk : e.1 = k
    · subst hk
      simp only [ne_eq, not_true_eq_false, decide_false, Bool.false_eq_true, if_false, ih]
      by_cases hj : j = e.1
      · simp [hj]
      · simp [hj, Ne.symm hj]
    · simp only [ne_eq, hk, not_false_eq_true, decide_true, if_true, field, ih]
      by_cases hj : e.1 = j
      · subst hj; simp [hk]
      · simp [hj]

theorem decimal_injective : Function.Injective decimal := by
  have hdigits : ∀ m n : ℕ, Nat.toDigits 10 m = Nat.toDigits 10 n → m = n := by
    intro m n h
    have hm := congrArg (fun l ↦ Nat.ofDigitChars 10 l 0) h
    simpa using hm
  have hminus : ∀ m n : ℕ, Nat.toDigits 10 m ≠ '-' :: Nat.toDigits 10 n := by
    intro m n h
    have hc : ('-' : Char) ∈ Nat.toDigits 10 m := by rw [h]; exact List.mem_cons_self
    have hd := Nat.isDigit_of_mem_toDigits (by decide) (by decide) hc
    exact absurd hd (by decide)
  intro m n h
  cases m with
  | ofNat m =>
    cases n with
    | ofNat n => exact congrArg Int.ofNat (hdigits _ _ h)
    | negSucc n => exact absurd h (hminus _ _)
  | negSucc m =>
    cases n with
    | ofNat n => exact absurd h.symm (hminus _ _)
    | negSucc n =>
      have hs := hdigits _ _ (List.cons.inj h).2
      exact congrArg Int.negSucc (by omega)

theorem isNumeric_of_mem_decimal {n : ℤ} {c : Char} (h : c ∈ decimal n) : isNumeric c = true := by
  have hdigit : ∀ m : ℕ, c ∈ Nat.toDigits 10 m → isNumeric c = true := by
    intro m hc
    have hd := Nat.isDigit_of_mem_toDigits (by decide) (by decide) hc
    simp [isNumeric, hd]
  cases n with
  | ofNat n => exact hdigit _ h
  | negSucc n =>
    rcases List.mem_cons.mp h with rfl | h
    · decide
    · exact hdigit _ h

theorem decimal_unmarked (n : ℤ) : '.' ∉ decimal n ∧ 'e' ∉ decimal n := by
  have hdigit : ∀ (m : ℕ) (c : Char), c.isDigit = false → c ∉ Nat.toDigits 10 m := by
    intro m c hc h
    have hd := Nat.isDigit_of_mem_toDigits (by decide) (by decide) h
    simp [hc] at hd
  cases n with
  | ofNat n => exact ⟨hdigit _ _ (by decide), hdigit _ _ (by decide)⟩
  | negSucc n =>
    simp only [decimal, List.mem_cons, not_or]
    exact ⟨⟨by decide, hdigit _ _ (by decide)⟩, ⟨by decide, hdigit _ _ (by decide)⟩⟩

theorem decimal_ne_nil (n : ℤ) : decimal n ≠ [] := by
  cases n with
  | ofNat n => exact Nat.toDigits_ne_nil
  | negSucc n => simp [decimal]

/-- Read one escaped character back; a bare quotation mark is not a character. -/
def unescape : List Char → Option (Char × List Char)
  | '\\' :: '"' :: l => some ('"', l)
  | '\\' :: '\\' :: l => some ('\\', l)
  | '\\' :: 'n' :: l => some ('\n', l)
  | '\\' :: 'r' :: l => some ('\r', l)
  | '\\' :: 't' :: l => some ('\t', l)
  | '\\' :: 'f' :: l => some ('\x0c', l)
  | '\\' :: 'b' :: l => some ('\x08', l)
  | '\\' :: 'u' :: '0' :: '0' :: a :: b :: l =>
    match Hex.charValue a, Hex.charValue b with
    | some hi, some lo => some (Char.ofNat (16 * hi + lo), l)
    | _, _ => none
  | '"' :: _ => none
  | c :: l => some (c, l)
  | [] => none

theorem unescape_escape (c : Char) (l : List Char) : unescape (escape c ++ l) = some (c, l) := by
  unfold escape
  split_ifs with h₁ h₂ h₃ h₄ h₅ h₆ h₇ h₈
  · subst h₁; rfl
  · subst h₂; rfl
  · subst h₃; rfl
  · subst h₄; rfl
  · subst h₅; rfl
  · subst h₆; rfl
  · subst h₇; rfl
  · have hhi : c.toNat / 16 < 16 := by omega
    have hlo : c.toNat % 16 < 16 := by omega
    have he : 16 * (c.toNat / 16) + c.toNat % 16 = c.toNat := by omega
    simp [unescape, Hex.charValue_digit hhi, Hex.charValue_digit hlo, he]
  · simp [unescape, h₂]

theorem escaped_injective {s t : List Char} {r r' : List Char}
    (h : s.flatMap escape ++ '"' :: r = t.flatMap escape ++ '"' :: r') : s = t ∧ r = r' := by
  induction s generalizing t with
  | nil =>
    cases t with
    | nil => simpa using h
    | cons c t =>
      have hc := congrArg unescape h
      rw [List.flatMap_cons, List.append_assoc, unescape_escape] at hc
      cases hc
  | cons c s ih =>
    have hc := congrArg unescape h
    rw [List.flatMap_cons, List.append_assoc, unescape_escape] at hc
    cases t with
    | nil => cases hc
    | cons d t =>
      rw [List.flatMap_cons, List.append_assoc, unescape_escape] at hc
      simp only [Option.some.injEq, Prod.mk.injEq] at hc
      obtain ⟨rfl, hst⟩ := ih hc.2
      exact ⟨by rw [hc.1], hst⟩

theorem quote_injective {s t : String} {r r' : List Char}
    (h : quote s ++ r = quote t ++ r') : s = t ∧ r = r' := by
  simp only [quote, List.cons_append, List.append_assoc, List.cons.injEq, true_and,
    List.nil_append] at h
  obtain ⟨hst, hr⟩ := escaped_injective h
  exact ⟨String.toList_injective hst, hr⟩

/-- The text that follows cannot continue a number. -/
def Stops (r : List Char) : Prop := ∀ c ∈ r.head?, isNumeric c = false

theorem numeric_injective {s t r r' : List Char} (hs : ∀ c ∈ s, isNumeric c = true)
    (ht : ∀ c ∈ t, isNumeric c = true) (hr : Stops r) (hr' : Stops r')
    (h : s ++ r = t ++ r') : s = t ∧ r = r' := by
  induction s generalizing t with
  | nil =>
    cases t with
    | nil => exact ⟨rfl, h⟩
    | cons d t =>
      have hd := hr d (by simp only [List.nil_append] at h; simp [h])
      simp [ht d List.mem_cons_self] at hd
  | cons c s ih =>
    cases t with
    | nil =>
      have hc := hr' c (by simp only [List.nil_append] at h; simp [← h])
      simp [hs c List.mem_cons_self] at hc
    | cons d t =>
      simp only [List.cons_append, List.cons.injEq] at h
      obtain ⟨rfl, hrr⟩ := ih (fun x hx ↦ hs x (List.mem_cons_of_mem _ hx))
        (fun x hx ↦ ht x (List.mem_cons_of_mem _ hx)) h.2
      exact ⟨by rw [h.1], hrr⟩

/-- What the first character of a text tells about the value. -/
def kind : Json → Char
  | .null => 'n'
  | .bool true => 't'
  | .bool false => 'f'
  | .int _ | .float _ => '0'
  | .str _ => '"'
  | .arr _ => '['
  | .obj _ => '{'

def headKind (c : Char) : Char := if isNumeric c then '0' else c

theorem numeric_head {s : List Char} (hne : s ≠ []) (hs : ∀ c ∈ s, isNumeric c = true) :
    ∃ c l, s = c :: l ∧ headKind c = '0' := by
  cases s with
  | nil => exact absurd rfl hne
  | cons c l => exact ⟨c, l, rfl, by simp [headKind, hs c List.mem_cons_self]⟩

theorem repr_ne_nil (q : ℚ) : fmt.repr q ≠ [] := by
  intro h
  have hm := fmt.marked q
  simp [h] at hm

theorem dumps_head (j : Json) : ∃ c l, dumps fmt j = c :: l ∧ headKind c = kind j := by
  match j with
  | .null | .bool true | .bool false => exact ⟨_, _, by rw [dumps], rfl⟩
  | .int n =>
    rw [dumps]
    exact numeric_head (decimal_ne_nil n) (fun c hc ↦ isNumeric_of_mem_decimal hc)
  | .float q =>
    rw [dumps]
    exact numeric_head (repr_ne_nil fmt q) (fmt.numeric q)
  | .str s => exact ⟨_, _, by rw [dumps, quote, List.cons_append], rfl⟩
  | .arr [] | .arr (_ :: _) | .obj [] | .obj ((_, _) :: _) => exact ⟨_, _, by rw [dumps], rfl⟩

theorem kind_eq {a b : Json} {r r' : List Char}
    (h : dumps fmt a ++ r = dumps fmt b ++ r') : kind a = kind b := by
  obtain ⟨c, l, ha, hc⟩ := dumps_head fmt a
  obtain ⟨d, m, hb, hd⟩ := dumps_head fmt b
  rw [ha, hb, List.cons_append, List.cons_append, List.cons.injEq] at h
  rw [← hc, ← hd, h.1]

theorem stops_items (items : List Json) (r : List Char) : Stops (dumpsItems fmt items ++ r) := by
  intro c hc
  cases items <;> simp only [dumpsItems, List.cons_append, List.head?_cons, Option.mem_def,
    Option.some.injEq] at hc <;> subst hc <;> decide

theorem stops_fields (fields : List (String × Json)) (r : List Char) :
    Stops (dumpsFields fmt fields ++ r) := by
  intro c hc
  cases fields <;> simp only [dumpsFields, List.cons_append, List.head?_cons, Option.mem_def,
    Option.some.injEq] at hc <;> subst hc <;> decide

theorem kind_ne_close (j : Json) : kind j ≠ ']' := by
  match j with
  | .null | .bool true | .bool false | .int _ | .float _ | .str _ | .arr _ | .obj _ => simp [kind]

theorem head_ne_close (j : Json) (r r' : List Char) : dumps fmt j ++ r ≠ ']' :: r' := by
  obtain ⟨c, l, hj, hc⟩ := dumps_head fmt j
  rw [hj, List.cons_append]
  intro h
  obtain ⟨rfl, -⟩ := List.cons.inj h
  exact kind_ne_close j hc.symm

mutual

theorem dumps_injective : ∀ (a b : Json) (r r' : List Char), Stops r → Stops r' →
    dumps fmt a ++ r = dumps fmt b ++ r' → a = b ∧ r = r'
  | a, b, r, r', hr, hr', h => by
    have hk := kind_eq fmt h
    match a, b with
    | .null, .null => exact ⟨rfl, by simpa [dumps] using h⟩
    | .bool true, .bool true => exact ⟨rfl, by simpa [dumps] using h⟩
    | .bool false, .bool false => exact ⟨rfl, by simpa [dumps] using h⟩
    | .int m, .int n =>
      simp only [dumps] at h
      obtain ⟨hmn, hrr⟩ := numeric_injective (fun c hc ↦ isNumeric_of_mem_decimal hc)
        (fun c hc ↦ isNumeric_of_mem_decimal hc) hr hr' h
      exact ⟨by rw [decimal_injective hmn], hrr⟩
    | .int n, .float q =>
      simp only [dumps] at h
      obtain ⟨he, -⟩ := numeric_injective (fun c hc ↦ isNumeric_of_mem_decimal hc)
        (fmt.numeric q) hr hr' h
      have hn := decimal_unmarked n
      rcases fmt.marked q with hq | hq <;> rw [← he] at hq
      · exact absurd hq hn.1
      · exact absurd hq hn.2
    | .float q, .int n =>
      simp only [dumps] at h
      obtain ⟨he, -⟩ := numeric_injective (fmt.numeric q)
        (fun c hc ↦ isNumeric_of_mem_decimal hc) hr hr' h
      have hn := decimal_unmarked n
      rcases fmt.marked q with hq | hq <;> rw [he] at hq
      · exact absurd hq hn.1
      · exact absurd hq hn.2
    | .float p, .float q =>
      simp only [dumps] at h
      obtain ⟨hpq, hrr⟩ := numeric_injective (fmt.numeric p) (fmt.numeric q) hr hr' h
      exact ⟨by rw [fmt.injective hpq], hrr⟩
    | .str s, .str t =>
      simp only [dumps] at h
      obtain ⟨rfl, hrr⟩ := quote_injective h
      exact ⟨rfl, hrr⟩
    | .arr [], .arr [] => exact ⟨rfl, by simpa [dumps] using h⟩
    | .arr [], .arr (y :: items) =>
      simp only [dumps, List.cons_append, List.append_assoc, List.cons.injEq, true_and] at h
      exact absurd h.symm (head_ne_close fmt y _ _)
    | .arr (x :: items), .arr [] =>
      simp only [dumps, List.cons_append, List.append_assoc, List.cons.injEq, true_and] at h
      exact absurd h (head_ne_close fmt x _ _)
    | .arr (x :: items), .arr (y :: items') =>
      simp only [dumps, List.cons_append, List.append_assoc, List.cons.injEq, true_and] at h
      obtain ⟨rfl, ht⟩ := dumps_injective x y _ _ (stops_items fmt _ _) (stops_items fmt _ _) h
      obtain ⟨rfl, hrr⟩ := items_injective items items' _ _ ht
      exact ⟨rfl, hrr⟩
    | .obj [], .obj [] => exact ⟨rfl, by simpa [dumps] using h⟩
    | .obj [], .obj (e :: fields) =>
      simp [dumps, quote] at h
    | .obj (e :: fields), .obj [] =>
      simp [dumps, quote] at h
    | .obj ((k, v) :: fields), .obj ((k', v') :: fields') =>
      simp only [dumps, List.cons_append, List.append_assoc, List.cons.injEq, true_and] at h
      obtain ⟨rfl, hv⟩ := quote_injective h
      obtain ⟨rfl, ht⟩ := dumps_injective v v' _ _ (stops_fields fmt _ _) (stops_fields fmt _ _)
        (List.cons.inj hv).2
      obtain ⟨rfl, hrr⟩ := fields_injective fields fields' _ _ ht
      exact ⟨rfl, hrr⟩

theorem items_injective : ∀ (l m : List Json) (r r' : List Char),
    dumpsItems fmt l ++ r = dumpsItems fmt m ++ r' → l = m ∧ r = r'
  | [], [], _, _, h => ⟨rfl, by simpa [dumpsItems] using h⟩
  | [], _ :: _, _, _, h => by simp [dumpsItems] at h
  | _ :: _, [], _, _, h => by simp [dumpsItems] at h
  | x :: l, y :: m, r, r', h => by
    simp only [dumpsItems, List.cons_append, List.append_assoc, List.cons.injEq, true_and] at h
    obtain ⟨rfl, ht⟩ := dumps_injective x y _ _ (stops_items fmt _ _) (stops_items fmt _ _) h
    obtain ⟨rfl, hrr⟩ := items_injective l m _ _ ht
    exact ⟨rfl, hrr⟩

theorem fields_injective : ∀ (l m : List (String × Json)) (r r' : List Char),
    dumpsFields fmt l ++ r = dumpsFields fmt m ++ r' → l = m ∧ r = r'
  | [], [], _, _, h => ⟨rfl, by simpa [dumpsFields] using h⟩
  | [], _ :: _, _, _, h => by simp [dumpsFields] at h
  | _ :: _, [], _, _, h => by simp [dumpsFields] at h
  | (k, v) :: l, (k', v') :: m, r, r', h => by
    simp only [dumpsFields, List.cons_append, List.append_assoc, List.cons.injEq, true_and] at h
    obtain ⟨rfl, hv⟩ := quote_injective h
    obtain ⟨rfl, ht⟩ := dumps_injective v v' _ _ (stops_fields fmt _ _) (stops_fields fmt _ _)
      (List.cons.inj hv).2
    obtain ⟨rfl, hrr⟩ := fields_injective l m _ _ ht
    exact ⟨rfl, hrr⟩

end

/-- The canonical text determines the value up to the order of fields. -/
theorem canonical_injective {a b : Json} (h : canonical fmt a = canonical fmt b) :
    sortKeys a = sortKeys b := by
  have hs := String.ofList_injective (utf8_injective h)
  have hstop : Stops [] := by simp [Stops]
  exact (dumps_injective fmt _ _ [] [] hstop hstop (by rw [hs])).1

theorem canonical_sameDict {fields fields' : List (String × Json)}
    (h : canonical fmt (.obj fields) = canonical fmt (.obj fields')) : SameDict fields fields' :=
  canonical_injective fmt h

end Json

end FogNode.Library
