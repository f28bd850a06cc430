import Mathlib.Data.List.Lex
import Mathlib.Data.List.Sort
import Mathlib.Tactic.Common

namespace FogNode.Library

abbrev Bytes := List UInt8

/-- The UTF-8 encoding of a string. -/
def utf8 (s : String) : Bytes := s.toByteArray.data.toList

theorem utf8_injective : Function.Injective utf8 := by
  intro s t h
  apply String.toByteArray_inj.mp
  exact ByteArray.ext (Array.toList_inj.mp h)

@[simp] theorem utf8_append (s t : String) : utf8 (s ++ t) = utf8 s ++ utf8 t := by
  simp [utf8, String.toByteArray_append]

/-- Byte strings compare byte by byte, a proper prefix being smaller. -/
def BytesLE (a b : Bytes) : Prop := a.map UInt8.toNat ≤ b.map UInt8.toNat

instance : DecidableRel BytesLE := fun a b ↦
  inferInstanceAs (Decidable (a.map UInt8.toNat ≤ b.map UInt8.toNat))

def sortBytes (l : List Bytes) : List Bytes := l.insertionSort BytesLE

theorem sortBytes_perm (l : List Bytes) : (sortBytes l).Perm l := List.perm_insertionSort _ l

def BytesLT (a b : Bytes) : Prop := a.map UInt8.toNat < b.map UInt8.toNat

instance : Std.Total BytesLE := ⟨fun a b ↦ le_total (a.map UInt8.toNat) (b.map UInt8.toNat)⟩

instance : IsTrans Bytes BytesLE := ⟨fun _ _ _ h h' ↦ le_trans (α := List ℕ) h h'⟩

instance : Std.Irrefl BytesLT := ⟨fun a ↦ lt_irrefl (a.map UInt8.toNat)⟩

instance : Std.Antisymm BytesLT := ⟨fun _ _ h h' ↦ absurd h' (lt_asymm h)⟩

theorem sortBytes_sorted (l : List Bytes) : (sortBytes l).Pairwise BytesLE :=
  List.pairwise_insertionSort BytesLE l

/-- Sorted byte strings that all differ increase strictly. -/
theorem strict_of_sorted {l : List Bytes} (h : l.Pairwise BytesLE) (hnd : l.Nodup) :
    l.Pairwise BytesLT := by
  refine h.imp₂ (fun a b hle hne ↦ lt_of_le_of_ne hle fun he ↦ hne ?_) hnd
  exact List.map_injective_iff.mpr (fun _ _ h ↦ UInt8.toNat_inj.mp h) he

/-- Sorting forgets the order in which distinct byte strings were given. -/
theorem sortBytes_congr {l m : List Bytes} (h : l.Perm m) (hnd : l.Nodup) :
    sortBytes l = sortBytes m := by
  have hl := strict_of_sorted (sortBytes_sorted l) ((sortBytes_perm l).nodup_iff.mpr hnd)
  have hm := strict_of_sorted (sortBytes_sorted m)
    ((sortBytes_perm m).nodup_iff.mpr (h.nodup_iff.mp hnd))
  refine hl.eq_of_mem_iff hm fun b ↦ ?_
  rw [(sortBytes_perm l).mem_iff, (sortBytes_perm m).mem_iff, h.mem_iff]

theorem utf8_ofList (l : List Char) : utf8 (String.ofList l) = l.flatMap String.utf8EncodeChar := by
  simp [utf8, List.utf8Encode]

theorem utf8EncodeChar_ascii {c : Char} (h : c.toNat < 128) :
    String.utf8EncodeChar c = [UInt8.ofNat c.toNat] := by
  have hv : c.val.toNat ≤ 0x7f := Nat.le_of_lt_succ h
  unfold String.utf8EncodeChar
  simp only [hv, if_true]
  rfl

theorem utf8_ascii {l : List Char} (h : ∀ c ∈ l, c.toNat < 128) :
    utf8 (String.ofList l) = l.map fun c ↦ UInt8.ofNat c.toNat := by
  rw [utf8_ofList]
  induction l with
  | nil => rfl
  | cons c l ih =>
    have hl : ∀ d ∈ l, d.toNat < 128 := fun d hd ↦ h d (List.mem_cons_of_mem _ hd)
    rw [List.flatMap_cons, List.map_cons, utf8EncodeChar_ascii (h c List.mem_cons_self), ih hl]
    rfl

/-- The bytes of a character outside ASCII are no ASCII codes. -/
theorem utf8EncodeChar_high {c : Char} (h : 128 ≤ c.toNat) :
    ∀ b ∈ String.utf8EncodeChar c, 128 ≤ b.toNat := by
  have hc : ¬ c.val.toNat ≤ 0x7f := by
    have hv : c.toNat = c.val.toNat := rfl
    omega
  have hbyte : ∀ n, 128 ≤ n → n < 256 → 128 ≤ (UInt8.ofNat n).toNat := by
    intro n hn hlt
    rwa [UInt8.toNat_ofNat', Nat.mod_eq_of_lt hlt]
  intro b hb
  unfold String.utf8EncodeChar at hb
  dsimp only at hb
  rw [if_neg hc] at hb
  split_ifs at hb <;> simp only [List.mem_cons, List.not_mem_nil, or_false] at hb
  · rcases hb with rfl | rfl <;> exact hbyte _ (by omega) (by omega)
  · rcases hb with rfl | rfl | rfl <;> exact hbyte _ (by omega) (by omega)
  · rcases hb with rfl | rfl | rfl | rfl <;> exact hbyte _ (by omega) (by omega)

/-- An ASCII code stands in the encoding of a text where its character stands in the text. -/
theorem mem_utf8_iff {d : Char} (hd : d.toNat < 128) {s : String} :
    UInt8.ofNat d.toNat ∈ utf8 s ↔ d ∈ s.toList := by
  have hcode : (UInt8.ofNat d.toNat).toNat = d.toNat := by
    rw [UInt8.toNat_ofNat', Nat.mod_eq_of_lt (by omega)]
  rw [← String.ofList_toList (s := s), utf8_ofList, List.mem_flatMap, String.ofList_toList]
  constructor
  · rintro ⟨c, hc, hmem⟩
    by_cases hascii : c.toNat < 128
    · rw [utf8EncodeChar_ascii hascii, List.mem_singleton] at hmem
      have hnat := congrArg UInt8.toNat hmem
      rw [hcode, UInt8.toNat_ofNat', Nat.mod_eq_of_lt (by omega)] at hnat
      rwa [Char.toNat_inj.mp hnat]
    · have hhigh := utf8EncodeChar_high (by omega) _ hmem
      omega
  · intro h
    refine ⟨d, h, ?_⟩
    rw [utf8EncodeChar_ascii hd]
    exact List.mem_singleton_self _

/-- A text of ASCII characters begins a text where its encoding begins the encoding. -/
theorem utf8_prefix_iff {l m : List Char} (hl : ∀ c ∈ l, c.toNat < 128) :
    utf8 (String.ofList l) <+: utf8 (String.ofList m) ↔ l <+: m := by
  simp only [utf8_ofList]
  induction l generalizing m with
  | nil => simp
  | cons c l ih =>
    have hc : c.toNat < 128 := hl c List.mem_cons_self
    cases m with
    | nil => simp [utf8EncodeChar_ascii hc]
    | cons d m =>
      rw [List.flatMap_cons, List.flatMap_cons, utf8EncodeChar_ascii hc, List.singleton_append,
        List.cons_prefix_cons]
      by_cases hd : d.toNat < 128
      · have hcode : UInt8.ofNat c.toNat = UInt8.ofNat d.toNat ↔ c = d := by
          rw [← UInt8.toNat_inj, UInt8.toNat_ofNat', UInt8.toNat_ofNat',
            Nat.mod_eq_of_lt (by omega), Nat.mod_eq_of_lt (by omega), Char.toNat_inj]
        rw [utf8EncodeChar_ascii hd, List.singleton_append, List.cons_prefix_cons, hcode,
          ih fun e he ↦ hl e (List.mem_cons_of_mem _ he)]
      · have hne : c ≠ d := by
          rintro rfl
          exact hd hc
        refine iff_of_false (fun h ↦ ?_) fun h ↦ hne h.1
        obtain ⟨rest, hrest⟩ := h
        cases henc : String.utf8EncodeChar d with
        | nil =>
          have hlength := congrArg List.length henc
          rw [String.length_utf8EncodeChar, List.length_nil] at hlength
          exact absurd hlength d.utf8Size_pos.ne'
        | cons b bs =>
          have hb := utf8EncodeChar_high (by omega) b (henc ▸ List.mem_cons_self)
          rw [henc, List.cons_append, List.cons_append, List.cons.injEq] at hrest
          rw [← hrest.1, UInt8.toNat_ofNat', Nat.mod_eq_of_lt (by omega)] at hb
          omega

namespace Hex

def digits : List Char :=
  ['0', '1', '2', '3', '4', '5', '6', '7', '8', '9', 'a', 'b', 'c', 'd', 'e', 'f']

def digit (n : ℕ) : Char := digits.getD n '0'

/-- The digits `0` to `9`, `a` to `f` and `A` to `F`, by their ASCII codes. -/
def value (b : UInt8) : Option ℕ :=
  let n := b.toNat
  if 48 ≤ n ∧ n ≤ 57 then some (n - 48)
  else if 97 ≤ n ∧ n ≤ 102 then some (n - 87)
  else if 65 ≤ n ∧ n ≤ 70 then some (n - 55)
  else none

/-- ASCII white space, which may stand between two bytes. -/
def isSpace (b : UInt8) : Bool := b.toNat = 32 || (9 ≤ b.toNat && b.toNat ≤ 13)

def encode : Bytes → List Char
  | [] => []
  | b :: bs => digit (b.toNat / 16) :: digit (b.toNat % 16) :: encode bs

/-- Read pairs of hexadecimal digits of either case. The error is the position
of the first character that cannot be read, counted from `pos`. -/
def decode (pos : ℕ) : Bytes → Except ℕ Bytes
  | [] => .ok []
  | [c] => if isSpace c then .ok [] else
    match value c with
    | none => .error pos
    | some _ => .error (pos + 1)
  | c :: d :: cs => if isSpace c then decode (pos + 1) (d :: cs) else
    match value c, value d with
    | none, _ => .error pos
    | some _, none => .error (pos + 1)
    | some hi, some lo =>
      match decode (pos + 2) cs with
      | .error p => .error p
      | .ok bs => .ok (UInt8.ofNat (16 * hi + lo) :: bs)

/-- The ASCII code of a digit. -/
def code (n : ℕ) : UInt8 := UInt8.ofNat (digit n).toNat

theorem value_code {n : ℕ} (h : n < 16) : value (code n) = some n := by
  have hall : ∀ n ∈ List.range 16, value (code n) = some n := by decide
  exact hall n (List.mem_range.mpr h)

/-- The value of a digit given as a character. -/
def charValue (c : Char) : Option ℕ := value (UInt8.ofNat c.toNat)

theorem charValue_digit {n : ℕ} (h : n < 16) : charValue (digit n) = some n := value_code h

theorem isSpace_code {n : ℕ} (h : n < 16) : isSpace (code n) = false := by
  have hall : ∀ n ∈ List.range 16, isSpace (code n) = false := by decide
  exact hall n (List.mem_range.mpr h)

theorem digit_ascii {n : ℕ} (h : n < 16) : (digit n).toNat < 128 := by
  have hall : ∀ n ∈ List.range 16, (digit n).toNat < 128 := by decide
  exact hall n (List.mem_range.mpr h)

theorem nibbles (b : UInt8) : b.toNat / 16 < 16 ∧ b.toNat % 16 < 16 := by
  have hb : b.toNat < 256 := b.toNat_lt_size
  omega

theorem encode_ascii (bs : Bytes) : ∀ c ∈ encode bs, c.toNat < 128 := by
  induction bs with
  | nil => simp [encode]
  | cons b bs ih =>
    obtain ⟨hhi, hlo⟩ := nibbles b
    simp only [encode, List.mem_cons]
    rintro c (rfl | rfl | hc)
    · exact digit_ascii hhi
    · exact digit_ascii hlo
    · exact ih c hc

theorem encode_length (bs : Bytes) : (encode bs).length = 2 * bs.length := by
  induction bs with
  | nil => rfl
  | cons b bs ih =>
    simp only [encode, List.length_cons, ih]
    omega

/-- The encoded text, byte by byte. -/
def codes (bs : Bytes) : Bytes := (encode bs).map fun c ↦ UInt8.ofNat c.toNat

theorem codes_ascii (bs : Bytes) :
    (codes bs).findIdx? (fun b ↦ decide (128 ≤ b.toNat)) = none := by
  rw [List.findIdx?_eq_none_iff]
  intro b hb
  obtain ⟨c, hc, rfl⟩ := List.mem_map.mp hb
  have h := encode_ascii bs c hc
  simp only [UInt8.toNat_ofNat', decide_eq_false_iff_not, not_le]
  omega

theorem decode_codes (pos : ℕ) (bs : Bytes) : decode pos (codes bs) = .ok bs := by
  induction bs generalizing pos with
  | nil => rfl
  | cons b bs ih =>
    obtain ⟨hhi, hlo⟩ := nibbles b
    have hb : 16 * (b.toNat / 16) + b.toNat % 16 = b.toNat := by omega
    have hcons : codes (b :: bs) = code (b.toNat / 16) :: code (b.toNat % 16) :: codes bs := rfl
    rw [hcons]
    simp [decode, isSpace_code hhi, value_code hhi, value_code hlo, ih, hb]

end Hex

/-- Lower-case hexadecimal digits, two for each byte. -/
def toHex (bs : Bytes) : String := String.ofList (Hex.encode bs)

/-- Hexadecimal text to bytes. The error is the position of the character at
fault; a character outside ASCII is reported before any other. -/
def fromHex (s : String) : Except ℕ Bytes :=
  match (utf8 s).findIdx? (fun b ↦ decide (128 ≤ b.toNat)) with
  | some p => .error p
  | none => Hex.decode 0 (utf8 s)

theorem utf8_toHex (bs : Bytes) : utf8 (toHex bs) = Hex.codes bs :=
  utf8_ascii (Hex.encode_ascii bs)

@[simp] theorem fromHex_toHex (bs : Bytes) : fromHex (toHex bs) = .ok bs := by
  simp only [fromHex, utf8_toHex, Hex.codes_ascii, Hex.decode_codes]

/-- White space in front of the digits is passed over. -/
theorem fromHex_space (bs : Bytes) : fromHex (" " ++ toHex bs) = .ok bs := by
  have hspace : utf8 " " = [32] := by decide
  have hascii := Hex.codes_ascii bs
  rw [fromHex, utf8_append, utf8_toHex, hspace, List.singleton_append, List.findIdx?_cons,
    decide_eq_false (by decide), hascii]
  cases hcodes : Hex.codes bs with
  | nil =>
    have hbs := Hex.decode_codes 0 bs
    rw [hcodes] at hbs
    exact hbs
  | cons d cs =>
    have hbs := Hex.decode_codes 1 bs
    rw [hcodes] at hbs
    exact hbs

theorem toHex_injective : Function.Injective toHex := by
  intro a b h
  have hd := congrArg fromHex h
  simpa using hd

@[simp] theorem toHex_inj {a b : Bytes} : toHex a = toHex b ↔ a = b := toHex_injective.eq_iff

example : fromHex "0aFF 10" = .ok [10, 255, 16] := by decide

end FogNode.Library
