import FogNode.Library.JsonText

namespace FogNode.Library.Json

theorem readUnits_letter {c d : Char} (hc : unescapeLetter c = some d) (l : List Char) :
    readUnits ('\\' :: c :: l) = (readUnits l).map fun out ↦ (d.toNat :: out.1, out.2) := by
  have hu : c ≠ 'u' := by
    rintro rfl
    have hnone : unescapeLetter 'u' = none := by decide
    rw [hnone] at hc
    cases hc
  simp [readUnits, hu, hc]

theorem readUnits_plain {c : Char} (hquote : c ≠ '"') (hslash : c ≠ '\\') (hc : 32 ≤ c.toNat)
    (l : List Char) :
    readUnits (c :: l) = (readUnits l).map fun out ↦ (c.toNat :: out.1, out.2) := by
  simp [readUnits, hslash, Nat.not_lt.mpr hc]

theorem hexValue_digit {n : ℕ} (h : n < 16) : hexValue (Hex.digit n) = some n := by
  rw [hexValue, if_pos (Hex.digit_ascii h), Hex.charValue_digit h]

theorem readHex16_hex16 {n : ℕ} (h : n < 0x10000) :
    readHex16 (Hex.digit (n / 4096)) (Hex.digit (n / 256 % 16)) (Hex.digit (n / 16 % 16))
      (Hex.digit (n % 16)) = some n := by
  have h₁ : n / 4096 < 16 := by omega
  have h₂ : n / 256 % 16 < 16 := by omega
  have h₃ : n / 16 % 16 < 16 := by omega
  have h₄ : n % 16 < 16 := by omega
  simp only [readHex16, hexValue_digit h₁, hexValue_digit h₂, hexValue_digit h₃, hexValue_digit h₄,
    Option.some.injEq]
  omega

theorem readUnits_hex16 {n : ℕ} (h : n < 0x10000) (l : List Char) :
    readUnits ('\\' :: 'u' :: hex16 n ++ l) =
      (readUnits l).map fun out ↦ (n :: out.1, out.2) := by
  simp only [hex16, List.cons_append, List.nil_append, readUnits, readHex16_hex16 h]

theorem toNat_lt (c : Char) : c.toNat < 0x110000 := by
  have hvalid : c.toNat.isValidChar := c.valid
  simp only [Nat.isValidChar] at hvalid
  omega

theorem utf16_lt {c : Char} {n : ℕ} (hn : n ∈ utf16 c) : n < 0x10000 := by
  have hc := toNat_lt c
  unfold utf16 at hn
  split_ifs at hn with hsmall
  · rw [List.mem_singleton.mp hn]
    exact hsmall
  · simp only [List.mem_cons, List.not_mem_nil, or_false] at hn
    omega

/-- The code units that stand for a character, read from one of its spellings. -/
def Spells (text : List Char) (units : List ℕ) : Prop :=
  ∀ l, readUnits (text ++ l) = (readUnits l).map fun out ↦ (units ++ out.1, out.2)

theorem spells_letter {c d : Char} (hc : unescapeLetter c = some d) :
    Spells ['\\', c] [d.toNat] := readUnits_letter hc

theorem spells_nil : Spells [] [] := by
  intro l
  simp

theorem Spells.append {s t : List Char} {u v : List ℕ} (h : Spells s u) (h' : Spells t v) :
    Spells (s ++ t) (u ++ v) := by
  intro l
  rw [List.append_assoc, h, h', Option.map_map]
  simp only [Function.comp_def, List.append_assoc]

theorem spells_flatMap {α : Type} {f : α → List Char} {g : α → List ℕ} {l : List α}
    (h : ∀ a ∈ l, Spells (f a) (g a)) : Spells (l.flatMap f) (l.flatMap g) := by
  induction l with
  | nil => exact spells_nil
  | cons a l ih =>
    rw [List.flatMap_cons, List.flatMap_cons]
    exact (h a List.mem_cons_self).append (ih fun b hb ↦ h b (List.mem_cons_of_mem _ hb))

theorem escapeAscii_spells (c : Char) : Spells (escapeAscii c) (utf16 c) := by
  unfold escapeAscii
  split_ifs with h₁ h₂ h₃ h₄ h₅ h₆ h₇ h₈
  · subst h₁; exact spells_letter rfl
  · subst h₂; exact spells_letter rfl
  · subst h₃; exact spells_letter rfl
  · subst h₄; exact spells_letter rfl
  · subst h₅; exact spells_letter rfl
  · subst h₆; exact spells_letter rfl
  · subst h₇; exact spells_letter rfl
  · have hsmall : c.toNat < 0x10000 := by omega
    rw [utf16, if_pos hsmall]
    exact readUnits_plain h₁ h₂ h₈.1
  · have hall := spells_flatMap (f := fun n ↦ '\\' :: 'u' :: hex16 n) (g := fun n ↦ [n])
      fun n hn l ↦ readUnits_hex16 (utf16_lt (c := c) hn) l
    simpa using hall

theorem escape_spells (c : Char) : Spells (escape c) [c.toNat] := by
  unfold escape
  split_ifs with h₁ h₂ h₃ h₄ h₅ h₆ h₇ h₈
  · subst h₁; exact spells_letter rfl
  · subst h₂; exact spells_letter rfl
  · subst h₃; exact spells_letter rfl
  · subst h₄; exact spells_letter rfl
  · subst h₅; exact spells_letter rfl
  · subst h₆; exact spells_letter rfl
  · subst h₇; exact spells_letter rfl
  · have hhex : hex16 c.toNat =
        ['0', '0', Hex.digit (c.toNat / 16), Hex.digit (c.toNat % 16)] := by
      have h₁ : c.toNat / 4096 = 0 := by omega
      have h₂ : c.toNat / 256 % 16 = 0 := by omega
      have h₃ : c.toNat / 16 % 16 = c.toNat / 16 := by omega
      rw [hex16, h₁, h₂, h₃]
      rfl
    intro l
    have hread := readUnits_hex16 (show c.toNat < 0x10000 by omega) l
    rw [hhex] at hread
    exact hread
  · exact readUnits_plain h₁ h₂ (by omega)

theorem not_surrogate (c : Char) : c.toNat < 0xD800 ∨ 0xE000 ≤ c.toNat := by
  have hvalid : c.toNat.isValidChar := c.valid
  simp only [Nat.isValidChar] at hvalid
  omega

theorem joinPairs_char (c : Char) (l : List ℕ) :
    joinPairs (c.toNat :: l) = c.toNat :: joinPairs l := by
  have hc := not_surrogate c
  cases l with
  | nil => rfl
  | cons n l =>
    have hnot : ¬ (0xD800 ≤ c.toNat ∧ c.toNat < 0xDC00 ∧ 0xDC00 ≤ n ∧ n < 0xE000) := by omega
    simp only [joinPairs, hnot, if_false]

theorem joinPairs_utf16 (c : Char) (l : List ℕ) :
    joinPairs (utf16 c ++ l) = c.toNat :: joinPairs l := by
  unfold utf16
  split_ifs with hsmall
  · exact joinPairs_char c l
  · have hc := toNat_lt c
    obtain ⟨k, hk⟩ : ∃ k, c.toNat = 0x10000 + k := ⟨c.toNat - 0x10000, by omega⟩
    have hlow : c.toNat - 0x10000 = k := by omega
    have hpair : 0xD800 ≤ 0xD800 + k / 0x400 ∧ 0xD800 + k / 0x400 < 0xDC00 ∧
        0xDC00 ≤ 0xDC00 + k % 0x400 ∧ 0xDC00 + k % 0x400 < 0xE000 := by omega
    have hjoin : 0x10000 + (0xD800 + k / 0x400 - 0xD800) * 0x400 +
        (0xDC00 + k % 0x400 - 0xDC00) = c.toNat := by omega
    simp only [List.cons_append, List.nil_append, joinPairs, hlow, hpair, and_self, if_true, hjoin]

theorem charOf_toNat (c : Char) : charOf c.toNat = some c := by
  have hvalid : c.toNat.isValidChar := c.valid
  rw [charOf, dif_pos hvalid]
  rfl

theorem mapM_charOf (l : List Char) : (l.map Char.toNat).mapM charOf = some l := by
  induction l with
  | nil => rfl
  | cons c l ih =>
    rw [List.map_cons, List.mapM_cons, charOf_toNat, ih]
    rfl

/-- A string is read back from any spelling of its characters. -/
theorem readString_spelled {f : Char → List Char} {g : Char → List ℕ}
    (hf : ∀ c, Spells (f c) (g c))
    (hg : ∀ c l, joinPairs (g c ++ l) = c.toNat :: joinPairs l) (s : String) (r : List Char) :
    readString (s.toList.flatMap f ++ '"' :: r) = some (s, r) := by
  have hjoin : ∀ l : List Char, joinPairs (l.flatMap g) = l.map Char.toNat := by
    intro l
    induction l with
    | nil => rfl
    | cons c l ih => rw [List.flatMap_cons, hg, ih, List.map_cons]
  have hend : readUnits ('"' :: r) = some ([], r) := by rw [readUnits]
  rw [readString, spells_flatMap fun c _ ↦ hf c, hend]
  simp only [Option.map_some, List.append_nil, hjoin, mapM_charOf, String.ofList_toList]

/-- What the layout quotes is read back, and it puts nothing but white space between. -/
structure Layout.Sound (layout : Layout) : Prop where
  quoted : ∀ s, ∃ l, layout.quote s = '"' :: l ∧ ∀ r, readString (l ++ r) = some (s, r)
  gap_blank : ∀ d, ∀ c ∈ layout.gap d, isBlank c = true
  colon_blank : ∀ c ∈ layout.colon, isBlank c = true

theorem compact_sound : compact.Sound where
  quoted s := by
    refine ⟨s.toList.flatMap escape ++ ['"'], rfl, fun r ↦ ?_⟩
    rw [List.append_assoc]
    exact readString_spelled escape_spells joinPairs_char s r
  gap_blank _ _ hc := absurd hc List.not_mem_nil
  colon_blank _ hc := absurd hc List.not_mem_nil

theorem indented_sound (n : ℕ) : (indented n).Sound where
  quoted s := by
    refine ⟨s.toList.flatMap escapeAscii ++ ['"'], rfl, fun r ↦ ?_⟩
    rw [List.append_assoc]
    exact readString_spelled escapeAscii_spells joinPairs_utf16 s r
  gap_blank d c hc := by
    rcases List.mem_cons.mp hc with rfl | hc
    · rfl
    · rw [List.eq_of_mem_replicate hc]
      rfl
  colon_blank c hc := by
    rw [List.mem_singleton.mp hc]
    rfl

theorem skip_append {s : List Char} (hs : ∀ c ∈ s, isBlank c = true) (l : List Char) :
    skip (s ++ l) = skip l := List.dropWhile_append_of_pos hs

theorem skip_cons {c : Char} (hc : isBlank c = false) (l : List Char) :
    skip (c :: l) = c :: l := by
  simp [skip, hc]

/-- The text that follows cannot continue a number that is read. -/
def Ends (r : List Char) : Prop := ∀ c ∈ r.head?, isNumeric c = false ∧ c ≠ 'E'

theorem Ends.digit {r : List Char} (h : Ends r) : ∀ c ∈ r.head?, c.isDigit = false := by
  intro c hc
  rw [Bool.eq_false_iff]
  intro hdigit
  have hnot := (h c hc).1
  simp [isNumeric, hdigit] at hnot

theorem takeWhile_digits {s r : List Char} (hr : ∀ c ∈ r.head?, c.isDigit = false)
    (hs : ∀ c ∈ s, c.isDigit = true) :
    (s ++ r).takeWhile Char.isDigit = s ∧ (s ++ r).dropWhile Char.isDigit = r := by
  rw [List.takeWhile_append_of_pos hs, List.dropWhile_append_of_pos hs]
  cases r with
  | nil => simp
  | cons c r => simp [hr c rfl]

theorem Ends.fraction {r : List Char} (hr : Ends r) : readFraction r = ([], r) := by
  unfold readFraction
  split
  · exact absurd (hr _ rfl).1 (by decide)
  · rfl

theorem Ends.exponent {r : List Char} (hr : Ends r) : readExponent r = ([], r) := by
  cases r with
  | nil => rfl
  | cons e r =>
    have he : ¬ (e = 'e' ∨ e = 'E') := by
      rintro (rfl | rfl)
      · exact absurd (hr 'e' rfl).1 (by decide)
      · exact (hr 'E' rfl).2 rfl
    rw [readExponent, if_neg he]

theorem toDigits_inj {m n : ℕ} (h : Nat.toDigits 10 m = Nat.toDigits 10 n) : m = n := by
  have hvalue := congrArg (fun l ↦ Nat.ofDigitChars 10 l 0) h
  simpa using hvalue

/-- A number written with more than one digit does not begin with a zero. -/
theorem zero_alone {n : ℕ} {l : List Char} (h : Nat.toDigits 10 n = '0' :: l) : l = [] := by
  induction n using Nat.strong_induction_on generalizing l with
  | h n ih =>
    by_cases hn : n < 10
    · rw [Nat.toDigits_of_lt_base hn] at h
      exact (List.cons.inj h).2.symm
    · rw [Nat.toDigits_of_base_le (by decide) (by omega)] at h
      cases hdiv : Nat.toDigits 10 (n / 10) with
      | nil => exact absurd hdiv Nat.toDigits_ne_nil
      | cons c m =>
        rw [hdiv, List.cons_append] at h
        obtain ⟨rfl, -⟩ := List.cons.inj h
        have hm := ih (n / 10) (by omega) hdiv
        rw [hm, ← Nat.toDigits_zero 10] at hdiv
        have hzero := toDigits_inj hdiv
        omega

theorem readWhole_digits (n : ℕ) {r : List Char} (hr : ∀ c ∈ r.head?, c.isDigit = false) :
    readWhole (Nat.toDigits 10 n ++ r) = some (Nat.toDigits 10 n, r) := by
  have hdigits : ∀ c ∈ Nat.toDigits 10 n, c.isDigit = true := fun c hc ↦
    Nat.isDigit_of_mem_toDigits (by decide) (by decide) hc
  cases hn : Nat.toDigits 10 n with
  | nil => exact absurd hn Nat.toDigits_ne_nil
  | cons c l =>
    rw [hn] at hdigits
    by_cases hzero : c = '0'
    · subst hzero
      rw [zero_alone hn]
      rfl
    · obtain ⟨htake, hdrop⟩ := takeWhile_digits hr hdigits
      rw [List.cons_append] at htake hdrop ⊢
      unfold readWhole
      split
      · rename_i heq
        exact absurd (List.cons.inj heq).1 hzero
      · rw [htake, hdrop]

variable {readFloat : List Char → Option ℚ}

theorem readUnsigned_digits (negative : Bool) (n : ℕ) {r : List Char} (hr : Ends r) :
    readUnsigned readFloat negative (Nat.toDigits 10 n ++ r) =
      some (.int (if negative then -(n : ℤ) else n), r) := by
  simp only [readUnsigned, readWhole_digits n hr.digit, hr.fraction, hr.exponent, and_self, if_true,
    Nat.ofDigitChars_toDigits (by decide : 1 < 10) (by decide : 10 ≤ 10)]

/-- Digits with a point between them are left to the reader of floats. -/
theorem readUnsigned_point (negative : Bool) (m n : ℕ) {r : List Char} (hr : Ends r) :
    readUnsigned readFloat negative (Nat.toDigits 10 m ++ '.' :: (Nat.toDigits 10 n ++ r)) =
      (readFloat ((if negative then ['-'] else []) ++
        (Nat.toDigits 10 m ++ '.' :: Nat.toDigits 10 n))).map fun q ↦ (.float q, r) := by
  have hpoint : ∀ c ∈ ('.' :: (Nat.toDigits 10 n ++ r)).head?, c.isDigit = false := by
    rintro c ⟨⟩
    rfl
  have hdigits : ∀ c ∈ Nat.toDigits 10 n, c.isDigit = true := fun c hc ↦
    Nat.isDigit_of_mem_toDigits (by decide) (by decide) hc
  obtain ⟨htake, hdrop⟩ := takeWhile_digits hr.digit hdigits
  have hfraction : readFraction ('.' :: (Nat.toDigits 10 n ++ r)) =
      ('.' :: Nat.toDigits 10 n, r) := by
    rw [readFraction, htake, hdrop]
    split
    · rename_i hnil
      exact absurd hnil Nat.toDigits_ne_nil
    · rfl
  simp only [readUnsigned, readWhole_digits m hpoint, hfraction, hr.exponent, reduceCtorEq,
    false_and, if_false, List.append_nil]

theorem toDigits_unsigned (n : ℕ) (l m : List Char) : Nat.toDigits 10 n ++ l ≠ '-' :: m := by
  intro h
  cases hn : Nat.toDigits 10 n with
  | nil => exact Nat.toDigits_ne_nil hn
  | cons c digits =>
    have hc : c ∈ Nat.toDigits 10 n := hn ▸ List.mem_cons_self
    have hdigit := Nat.isDigit_of_mem_toDigits (by decide) (by decide) hc
    rw [hn, List.cons_append] at h
    rw [(List.cons.inj h).1] at hdigit
    exact absurd hdigit (by decide)

theorem readNumber_unsigned {l : List Char} (h : ∀ m, l ≠ '-' :: m) :
    readNumber readFloat l = readUnsigned readFloat false l := by
  unfold readNumber
  split
  · rename_i m
    exact absurd rfl (h m)
  · rfl

theorem readNumber_decimal (n : ℤ) {r : List Char} (hr : Ends r) :
    readNumber readFloat (decimal n ++ r) = some (.int n, r) := by
  cases n with
  | ofNat n =>
    rw [decimal, readNumber_unsigned (toDigits_unsigned n r)]
    exact readUnsigned_digits false n hr
  | negSucc n =>
    have hread : readUnsigned readFloat true _ = _ := readUnsigned_digits true (n + 1) hr
    rw [decimal, List.cons_append, readNumber, hread]
    rfl

variable (readFloat) (fmt : FloatFormat)

/-- The float is read back from what is printed for it. -/
def ReadsFloat (q : ℚ) : Prop :=
  ∀ r, Ends r → readNumber readFloat (fmt.repr q ++ r) = some (.float q, r)

mutual

/-- No object has a key twice, and the floats are read back from what is printed for them. -/
def Readable : Json → Prop
  | .float q => ReadsFloat readFloat fmt q
  | .arr items => ReadableItems items
  | .obj fields => (fields.map Prod.fst).Nodup ∧ ReadableFields fields
  | .null => True
  | .bool _ => True
  | .int _ => True
  | .str _ => True

def ReadableItems : List Json → Prop
  | [] => True
  | x :: items => Readable x ∧ ReadableItems items

def ReadableFields : List (String × Json) → Prop
  | [] => True
  | (_, v) :: fields => Readable v ∧ ReadableFields fields

end

mutual

/-- The floats of a value. -/
def floats : Json → List ℚ
  | .float q => [q]
  | .arr items => itemFloats items
  | .obj fields => fieldFloats fields
  | .null => []
  | .bool _ => []
  | .int _ => []
  | .str _ => []

def itemFloats : List Json → List ℚ
  | [] => []
  | x :: items => floats x ++ itemFloats items

def fieldFloats : List (String × Json) → List ℚ
  | [] => []
  | (_, v) :: fields => floats v ++ fieldFloats fields

end

variable {readFloat fmt}

theorem asDict_eq {fields : List (String × Json)} (h : (fields.map Prod.fst).Nodup) :
    asDict fields = fields := by
  have hfold : ∀ (l d : List (String × Json)), ((d ++ l).map Prod.fst).Nodup →
      l.foldl (fun d e ↦ Dict.put e.1 e.2 d) d = d ++ l := by
    intro l
    induction l with
    | nil => intro d _; simp
    | cons e l ih =>
      intro d hd
      have he : e.1 ∉ d.map Prod.fst := by
        intro hmem
        rw [List.map_append, List.nodup_append] at hd
        exact hd.2.2 _ hmem _ (by simp) rfl
      rw [List.foldl_cons, Dict.put_of_not_mem he, ih _ (by simpa using hd), List.append_assoc]
      rfl
  exact hfold fields [] h

theorem readValue_numeric {c : Char} (hc : isNumeric c = true) (n : ℕ) (l : List Char) :
    readValue readFloat (n + 1) (c :: l) = readNumber readFloat (c :: l) := by
  have hne : ∀ d, isNumeric d = false → c ≠ d := by
    rintro d hd rfl
    rw [hc] at hd
    cases hd
  have hword : ∀ d m, isNumeric d = false → (d :: m).isPrefixOf (c :: l) = false := by
    intro d m hd
    simp [List.isPrefixOf, (hne d hd).symm]
  rw [readValue, if_neg (hne _ (by decide)), if_neg (hne _ (by decide)),
    if_neg (hne _ (by decide)), hword _ _ (by decide), hword _ _ (by decide),
    hword _ _ (by decide)]
  simp

variable {layout : Layout}

theorem Layout.Sound.ends_gap (hl : layout.Sound) (d : ℕ) {c : Char} (hc : isNumeric c = false)
    (he : c ≠ 'E') (r : List Char) : Ends (layout.gap d ++ c :: r) := by
  intro a ha
  cases hgap : layout.gap d with
  | nil =>
    rw [hgap] at ha
    cases ha
    exact ⟨hc, he⟩
  | cons b l =>
    rw [hgap] at ha
    cases ha
    have hb := hl.gap_blank d a (by rw [hgap]; exact List.mem_cons_self)
    simp only [isBlank, Bool.or_eq_true, decide_eq_true_eq] at hb
    rcases hb with ((rfl | rfl) | rfl) | rfl <;> decide

theorem ends_items (hl : layout.Sound) (d : ℕ) (items : List Json) (r : List Char) :
    Ends (writeItems fmt layout d items ++ r) := by
  cases items with
  | nil =>
    rw [writeItems, List.append_assoc]
    exact hl.ends_gap d (by decide) (by decide) r
  | cons x items =>
    rw [writeItems]
    intro c hc
    cases hc
    decide

theorem ends_fields (hl : layout.Sound) (d : ℕ) (fields : List (String × Json)) (r : List Char) :
    Ends (writeFields fmt layout d fields ++ r) := by
  cases fields with
  | nil =>
    rw [writeFields, List.append_assoc]
    exact hl.ends_gap d (by decide) (by decide) r
  | cons e fields =>
    rw [writeFields]
    intro c hc
    cases hc
    decide

/-- A value begins with a character that is no white space and closes nothing. -/
theorem write_head (fmt : FloatFormat) (hl : layout.Sound) (d : ℕ) (j : Json) :
    ∃ c l, write fmt layout d j = c :: l ∧ isBlank c = false ∧ c ≠ ']' := by
  have hnumeric : ∀ s : List Char, s ≠ [] → (∀ c ∈ s, isNumeric c = true) →
      ∃ c l, s = c :: l ∧ isBlank c = false ∧ c ≠ ']' := by
    intro s hne hs
    cases s with
    | nil => exact absurd rfl hne
    | cons c l =>
      have hc := hs c List.mem_cons_self
      refine ⟨c, l, rfl, ?_, ?_⟩
      · rw [Bool.eq_false_iff]
        intro hb
        simp only [isBlank, Bool.or_eq_true, decide_eq_true_eq] at hb
        rcases hb with ((rfl | rfl) | rfl) | rfl <;> exact absurd hc (by decide)
      · rintro rfl
        exact absurd hc (by decide)
  match j with
  | .null | .bool true | .bool false => exact ⟨_, _, by rw [write], by decide, by decide⟩
  | .int n =>
    rw [write]
    exact hnumeric _ (decimal_ne_nil n) fun c hc ↦ isNumeric_of_mem_decimal hc
  | .float q =>
    rw [write]
    exact hnumeric _ (repr_ne_nil fmt q) (fmt.numeric q)
  | .str s =>
    obtain ⟨l, hquote, -⟩ := hl.quoted s
    exact ⟨_, _, by rw [write, hquote], by decide, by decide⟩
  | .arr [] | .arr (_ :: _) | .obj [] | .obj ((_, _) :: _) =>
    exact ⟨_, _, by rw [write], by decide, by decide⟩

theorem skip_write (hl : layout.Sound) {s : List Char} (hs : ∀ c ∈ s, isBlank c = true) (d : ℕ)
    (j : Json) (r : List Char) :
    skip (s ++ (write fmt layout d j ++ r)) = write fmt layout d j ++ r := by
  obtain ⟨c, l, hc, hblank, -⟩ := write_head fmt hl d j
  rw [skip_append hs, hc, List.cons_append, skip_cons hblank]

theorem skip_quote (hl : layout.Sound) {s : List Char} (hs : ∀ c ∈ s, isBlank c = true)
    (k : String) (r : List Char) :
    skip (s ++ (layout.quote k ++ r)) = layout.quote k ++ r := by
  obtain ⟨l, hquote, -⟩ := hl.quoted k
  rw [skip_append hs, hquote, List.cons_append, skip_cons (by decide)]

theorem readKey_write (fmt : FloatFormat) (hl : layout.Sound) (k : String) (d : ℕ) (v : Json)
    (r : List Char) :
    readKey (layout.quote k ++ ':' :: (layout.colon ++ (write fmt layout d v ++ r))) =
      some (k, write fmt layout d v ++ r) := by
  obtain ⟨l, hquote, hread⟩ := hl.quoted k
  rw [hquote, List.cons_append, readKey, hread]
  simp only [skip_cons (show isBlank ':' = false by decide), skip_write hl hl.colon_blank]

theorem readNext_close (hl : layout.Sound) (d : ℕ) {c : Char} (hc : isBlank c = false)
    (r : List Char) : readNext c (layout.gap d ++ [c] ++ r) = some (true, r) := by
  rw [List.append_assoc, readNext, skip_append (hl.gap_blank d), List.cons_append, List.nil_append,
    skip_cons hc]
  exact if_pos rfl

theorem readNext_comma {c : Char} (hc : c ≠ ',') (l : List Char) :
    readNext c (',' :: l) = some (false, skip l) := by
  rw [readNext, skip_cons (by decide)]
  simp only [hc.symm, if_false, if_true]

theorem readValue_string (hl : layout.Sound) (s : String) (n : ℕ) (r : List Char) :
    readValue readFloat (n + 1) (layout.quote s ++ r) = some (.str s, r) := by
  obtain ⟨l, hquote, hread⟩ := hl.quoted s
  rw [hquote, List.cons_append, readValue, if_pos rfl, hread]
  rfl

mutual

/-- What is written is read back, whatever follows it, in as many steps as it has characters. -/
theorem readValue_write (hl : layout.Sound) : ∀ (j : Json) (d n : ℕ) (r : List Char),
    Readable readFloat fmt j → Ends r → (write fmt layout d j).length ≤ n →
    readValue readFloat n (write fmt layout d j ++ r) = some (j, r)
  | j, d, 0, r, _, _, hn => by
    obtain ⟨c, l, hc, -⟩ := write_head fmt hl d j
    rw [hc, List.length_cons] at hn
    omega
  | .null, _, n + 1, r, _, _, _ => by rw [write]; rfl
  | .bool true, _, n + 1, r, _, _, _ => by rw [write]; rfl
  | .bool false, _, n + 1, r, _, _, _ => by rw [write]; rfl
  | .int m, _, n + 1, r, _, hr, _ => by
    rw [write]
    cases hm : decimal m with
    | nil => exact absurd hm (decimal_ne_nil m)
    | cons c l =>
      have hc : isNumeric c = true := isNumeric_of_mem_decimal (n := m) (by rw [hm]; simp)
      rw [List.cons_append, readValue_numeric hc, ← List.cons_append, ← hm,
        readNumber_decimal m hr]
  | .float q, _, n + 1, r, hj, hr, _ => by
    have hread := hj
    rw [Readable] at hread
    rw [write]
    cases hq : fmt.repr q with
    | nil => exact absurd hq (repr_ne_nil fmt q)
    | cons c l =>
      have hc : isNumeric c = true := fmt.numeric q c (by rw [hq]; simp)
      rw [List.cons_append, readValue_numeric hc, ← List.cons_append, ← hq, hread r hr]
  | .str s, _, n + 1, r, _, _, _ => by
    rw [write]
    exact readValue_string hl s n r
  | .arr [], _, n + 1, r, _, _, _ => by rw [write]; rfl
  | .arr (x :: items), d, n + 1, r, hj, hr, hn => by
    rw [Readable] at hj
    simp only [write, List.length_cons, List.length_append] at hn
    have hitems := readItems_write hl x items d n r hj (by rw [List.length_append]; omega)
    have hskip : skip (layout.gap (d + 1) ++
        (write fmt layout (d + 1) x ++ (writeItems fmt layout d items ++ r))) =
        write fmt layout (d + 1) x ++ (writeItems fmt layout d items ++ r) :=
      skip_write hl (hl.gap_blank _) _ _ _
    obtain ⟨c, l, hc, -, hopen⟩ := write_head fmt hl (d + 1) x
    have hhead : (write fmt layout (d + 1) x ++ (writeItems fmt layout d items ++ r)).head? ≠
        some ']' := by
      rw [hc]
      simpa using hopen
    simp only [write, List.cons_append, List.append_assoc]
    rw [readValue, if_neg (by decide), if_neg (by decide), if_pos rfl, hskip, if_neg hhead,
      hitems]
    rfl
  | .obj [], _, n + 1, r, _, _, _ => by rw [write]; rfl
  | .obj ((k, v) :: fields), d, n + 1, r, hj, hr, hn => by
    rw [Readable] at hj
    simp only [write, List.length_cons, List.length_append] at hn
    have hfields := readFields_write hl k v fields d n r hj.2
      (by simp only [List.length_append, List.length_cons]; omega)
    have hskip := skip_quote hl (hl.gap_blank (d + 1)) k (':' :: (layout.colon ++
      (write fmt layout (d + 1) v ++ (writeFields fmt layout d fields ++ r))))
    obtain ⟨l, hquote, -⟩ := hl.quoted k
    have hhead : (layout.quote k ++ ':' :: (layout.colon ++
        (write fmt layout (d + 1) v ++ (writeFields fmt layout d fields ++ r)))).head? ≠
        some '}' := by
      rw [hquote]
      simp
    simp only [write, List.cons_append, List.append_assoc]
    rw [readValue, if_neg (by decide), if_pos rfl, hskip, if_neg hhead, hfields]
    simp only [Option.map_some, asDict_eq hj.1]

theorem readItems_write (hl : layout.Sound) : ∀ (x : Json) (items : List Json) (d n : ℕ)
    (r : List Char), ReadableItems readFloat fmt (x :: items) →
    (write fmt layout (d + 1) x ++ writeItems fmt layout d items).length ≤ n →
    readItems readFloat n (write fmt layout (d + 1) x ++ (writeItems fmt layout d items ++ r)) =
      some (x :: items, r)
  | x, _, d, 0, _, _, hn => by
    obtain ⟨c, l, hc, -⟩ := write_head fmt hl (d + 1) x
    rw [hc, List.cons_append, List.length_cons] at hn
    omega
  | x, [], d, n + 1, r, hj, hn => by
    rw [ReadableItems] at hj
    rw [List.length_append] at hn
    have hclose : 1 ≤ (writeItems fmt layout d []).length := by simp [writeItems]
    have hx := readValue_write hl x (d + 1) n (writeItems fmt layout d [] ++ r) hj.1
      (ends_items hl d [] r) (by omega)
    have hnext : readNext ']' (writeItems fmt layout d [] ++ r) = some (true, r) := by
      rw [writeItems]
      exact readNext_close hl d (by decide) r
    simp only [readItems, hx, hnext]
  | x, y :: items, d, n + 1, r, hj, hn => by
    rw [ReadableItems] at hj
    simp only [writeItems, List.length_append, List.length_cons] at hn
    have hx := readValue_write hl x (d + 1) n (writeItems fmt layout d (y :: items) ++ r) hj.1
      (ends_items hl d (y :: items) r) (by omega)
    have hrest := readItems_write hl y items d n r hj.2 (by rw [List.length_append]; omega)
    have hnext : readNext ']' (writeItems fmt layout d (y :: items) ++ r) =
        some (false, write fmt layout (d + 1) y ++ (writeItems fmt layout d items ++ r)) := by
      simp only [writeItems, List.cons_append, List.append_assoc]
      rw [readNext_comma (by decide), skip_write hl (hl.gap_blank _)]
    simp only [readItems, hx, hnext, hrest, Option.map_some]

theorem readFields_write (hl : layout.Sound) : ∀ (k : String) (v : Json)
    (fields : List (String × Json)) (d n : ℕ) (r : List Char),
    ReadableFields readFloat fmt ((k, v) :: fields) →
    (layout.quote k ++ ':' :: (layout.colon ++
      (write fmt layout (d + 1) v ++ writeFields fmt layout d fields))).length ≤ n →
    readFields readFloat n (layout.quote k ++ ':' :: (layout.colon ++
      (write fmt layout (d + 1) v ++ (writeFields fmt layout d fields ++ r)))) =
      some ((k, v) :: fields, r)
  | k, _, _, d, 0, _, _, hn => by
    simp only [List.length_append, List.length_cons] at hn
    omega
  | k, v, fields, d, n + 1, r, hj, hn => by
    rw [ReadableFields] at hj
    simp only [List.length_append, List.length_cons] at hn
    have hkey := readKey_write fmt hl k (d + 1) v (writeFields fmt layout d fields ++ r)
    have hv := readValue_write hl v (d + 1) n (writeFields fmt layout d fields ++ r) hj.1
      (ends_fields hl d fields r) (by omega)
    match fields with
    | [] =>
      have hnext : readNext '}' (writeFields fmt layout d [] ++ r) = some (true, r) := by
        rw [writeFields]
        exact readNext_close hl d (by decide) r
      simp only [readFields, hkey, hv, hnext]
    | (k', v') :: fields =>
      simp only [writeFields, List.length_append, List.length_cons] at hn
      have hrest := readFields_write hl k' v' fields d n r hj.2
        (by simp only [List.length_append, List.length_cons]; omega)
      have hnext : readNext '}' (writeFields fmt layout d ((k', v') :: fields) ++ r) =
          some (false, layout.quote k' ++ ':' :: (layout.colon ++
            (write fmt layout (d + 1) v' ++ (writeFields fmt layout d fields ++ r)))) := by
        simp only [writeFields, List.cons_append, List.append_assoc]
        rw [readNext_comma (by decide), skip_quote hl (hl.gap_blank _)]
      simp only [readFields, hkey, hv, hnext, hrest, Option.map_some]

end

/-- A value is read back from its text in any layout. -/
theorem loads_write (hl : layout.Sound) {j : Json} (hj : Readable readFloat fmt j) :
    loads readFloat (write fmt layout 0 j) = some j := by
  have hskip : skip ([] ++ (write fmt layout 0 j ++ [])) = _ :=
    skip_write hl (fun _ hc ↦ absurd hc List.not_mem_nil) 0 j []
  have hread := readValue_write hl j 0 (2 * (write fmt layout 0 j).length) [] hj
    (fun _ hc ↦ by cases hc) (by omega)
  rw [List.nil_append, List.append_nil] at hskip
  rw [List.append_nil] at hread
  rw [loads, hskip, hread]
  rfl

mutual

/-- The compact text is the one that is signed. -/
theorem write_compact : ∀ (d : ℕ) (j : Json), write fmt compact d j = dumps fmt j
  | _, .null => by rw [write, dumps]
  | _, .bool true => by rw [write, dumps]
  | _, .bool false => by rw [write, dumps]
  | _, .int n => by rw [write, dumps]
  | _, .float q => by rw [write, dumps]
  | _, .str s => by rw [write, dumps, compact]
  | _, .arr [] => by rw [write, dumps]
  | d, .arr (x :: items) => by
    rw [write, dumps, write_compact, writeItems_compact]
    rfl
  | _, .obj [] => by rw [write, dumps]
  | d, .obj ((k, v) :: fields) => by
    rw [write, dumps, write_compact, writeFields_compact]
    rfl

theorem writeItems_compact : ∀ (d : ℕ) (items : List Json),
    writeItems fmt compact d items = dumpsItems fmt items
  | _, [] => by rw [writeItems, dumpsItems]; rfl
  | d, x :: items => by
    rw [writeItems, dumpsItems, write_compact, writeItems_compact]
    rfl

theorem writeFields_compact : ∀ (d : ℕ) (fields : List (String × Json)),
    writeFields fmt compact d fields = dumpsFields fmt fields
  | _, [] => by rw [writeFields, dumpsFields]; rfl
  | d, (k, v) :: fields => by
    rw [writeFields, dumpsFields, write_compact, writeFields_compact]
    rfl

end

section canonical

variable {readFloat : List Char → Option ℚ} {fmt : FloatFormat}

theorem readableFields_iff {fields : List (String × Json)} :
    ReadableFields readFloat fmt fields ↔ ∀ e ∈ fields, Readable readFloat fmt e.2 := by
  induction fields with
  | nil => simp [ReadableFields]
  | cons e fields ih => rw [ReadableFields, ih, List.forall_mem_cons]

theorem sortFields_keys (fields : List (String × Json)) :
    (sortFields fields).map Prod.fst = fields.map Prod.fst := by
  induction fields with
  | nil => rfl
  | cons e fields ih => rw [sortFields, List.map_cons, List.map_cons, ih]

mutual

/-- A value can be read back in sorted order too. -/
theorem readable_sortKeys : ∀ {j : Json}, Readable readFloat fmt j →
    Readable readFloat fmt (sortKeys j)
  | .null, h => by rwa [sortKeys]
  | .bool _, h => by rwa [sortKeys]
  | .int _, h => by rwa [sortKeys]
  | .float _, h => by rwa [sortKeys]
  | .str _, h => by rwa [sortKeys]
  | .arr items, h => by
    rw [Readable] at h
    rw [sortKeys, Readable]
    exact readable_sortItems h
  | .obj fields, h => by
    obtain ⟨hnodup, hfields⟩ := h
    have hperm := List.perm_insertionSort KeyLE (sortFields fields)
    rw [sortKeys, Readable, readableFields_iff]
    refine ⟨(hperm.map Prod.fst).nodup_iff.mpr ?_, fun e he ↦ ?_⟩
    · rwa [sortFields_keys]
    · exact readableFields_iff.mp (readable_sortFields hfields) e (hperm.mem_iff.mp he)

theorem readable_sortItems : ∀ {items : List Json}, ReadableItems readFloat fmt items →
    ReadableItems readFloat fmt (sortItems items)
  | [], h => by rwa [sortItems]
  | _ :: _, h => ⟨readable_sortKeys h.1, readable_sortItems h.2⟩

theorem readable_sortFields : ∀ {fields : List (String × Json)},
    ReadableFields readFloat fmt fields → ReadableFields readFloat fmt (sortFields fields)
  | [], h => by rwa [sortFields]
  | (_, _) :: _, h => ⟨readable_sortKeys h.1, readable_sortFields h.2⟩

end

/-- The canonical text is read back as the value with its keys sorted. -/
theorem loads_canonical {j : Json} (hj : Readable readFloat fmt j) :
    ∃ text : String, canonical fmt j = utf8 text ∧
      loads readFloat text.toList = some (sortKeys j) := by
  refine ⟨String.ofList (dumps fmt (sortKeys j)), rfl, ?_⟩
  rw [String.toList_ofList, ← write_compact 0]
  exact loads_write compact_sound (readable_sortKeys hj)

end canonical

end FogNode.Library.Json
