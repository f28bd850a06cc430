import FogNode.Library.JsonRoundTrip
import FogNode.Proofs.TokenSignature

namespace FogNode.Proofs

open FogNode.Library FogNode.Source

variable {P : Platform} {node : Node P} {readFloat : List Char → Option ℚ}
  {fields : List (String × Json)} {m : Bytes}

/-- A reader of JSON gets the floats of the record back from their texts. -/
def ReadsFloats (P : Platform) (readFloat : List Char → Option ℚ)
    (fields : List (String × Json)) : Prop :=
  ∀ q ∈ Json.fieldFloats fields, Json.ReadsFloat readFloat P.floats q

/-- The message is the text of the record and of no other one, and a reader of JSON who gets
its floats right gets the record back. -/
structure Spells (P : Platform) (readFloat : List Char → Option ℚ) (m : Bytes)
    (fields : List (String × Json)) : Prop where
  message : m = canonicalJson P fields
  only : ∀ fields', m = canonicalJson P fields' → Json.SameDict fields fields'
  read : ReadsFloats P readFloat fields → ∃ text : String, m = utf8 text ∧
    Json.loads readFloat text.toList = some (Json.sortKeys (.obj fields))

/-- The records that the fog signs. -/
inductive SignedRecord : List (String × Json) → Prop
  | block (b : Block) : SignedRecord b.body
  | package (pkg : ProofPackage) :
      SignedRecord (packageFields pkg.did pkg.leaf pkg.root pkg.epochId pkg.fogId)
  | token (tokenId did publicKey : String) (deviceType role : Option String) (epochId ttl : ℤ)
      (now : ℚ) :
      SignedRecord (tokenFields tokenId did publicKey deviceType role epochId ttl now)

theorem readable_items_str (l : List String) :
    Json.ReadableItems readFloat P.floats (l.map .str) := by
  induction l with
  | nil => trivial
  | cons s l ih => exact ⟨trivial, ih⟩

theorem readable_textOrNull (s : Option String) :
    Json.Readable readFloat P.floats (textOrNull s) := by
  cases s <;> trivial

theorem SignedRecord.readable (h : SignedRecord fields) (hfloats : ReadsFloats P readFloat fields) :
    Json.Readable readFloat P.floats (.obj fields) := by
  cases h with
  | block b =>
    exact ⟨by simp [Block.body], by simp [Block.body, Json.ReadableFields, Json.Readable]⟩
  | package pkg =>
    exact ⟨by simp [packageFields], by simp [packageFields, Json.ReadableFields, Json.Readable]⟩
  | token tokenId did publicKey deviceType role epochId ttl now =>
    refine ⟨by simp [tokenFields], trivial, trivial, trivial, readable_textOrNull _,
      readable_textOrNull _, trivial, ?_, trivial, ?_, ?_, trivial⟩
    · exact readable_items_str _
    · exact hfloats now (by simp [tokenFields, Json.fieldFloats, Json.floats])
    · exact hfloats _ (by simp [tokenFields, Json.fieldFloats, Json.floats])

theorem SignedRecord.spells (h : SignedRecord fields) :
    Spells P readFloat (canonicalJson P fields) fields where
  message := rfl
  only _ hsame := Json.canonical_sameDict P.floats hsame
  read hfloats := Json.loads_canonical (h.readable hfloats)

theorem signed_record (actions : List Action) : ∀ m ∈ (afterActions node Fog.init actions).signed,
    ∃ fields, SignedRecord fields ∧ m = canonicalJson P fields := by
  refine afterActions_invariant (I := fun fog ↦ ∀ m ∈ fog.signed, ∃ fields, SignedRecord fields ∧
    m = canonicalJson P fields) (fun m hm ↦ by cases hm) (fun fog e hinv ih m hm ↦ ?_)
    (fun fog _ ih ↦ ih) actions
  rcases hinv.signs e hm with hold | ⟨b, hb⟩ | ⟨pkg, hpkg⟩ | ⟨did, record, token, hissues, htoken⟩
  · exact ih m hold
  · exact ⟨_, .block b, hb⟩
  · exact ⟨_, .package pkg, hpkg⟩
  · rw [hissues.token_eq, signedFields_token] at htoken
    exact ⟨_, .token .., htoken⟩

/-- Whatever the fog ever signs is the text of one block, package or token, and a reader of
JSON gets exactly this record back from it. -/
theorem signed_read_back (node : Node P) (readFloat : List Char → Option ℚ)
    (actions : List Action) (m : Bytes)
    (hm : m ∈ (afterActions node Fog.init actions).signed) :
    ∃ fields, SignedRecord fields ∧ Spells P readFloat m fields := by
  obtain ⟨fields, hrecord, rfl⟩ := signed_record actions m hm
  exact ⟨fields, hrecord, hrecord.spells⟩

def readInt : List Char → ℤ
  | '-' :: l => -(Nat.ofDigitChars 10 l 0)
  | l => Nat.ofDigitChars 10 l 0

/-- Reads what `pointed` prints. -/
def readPointed (text : List Char) : Option ℚ :=
  some (mkRat (readInt (text.takeWhile (· ≠ '.')))
    (Nat.ofDigitChars 10 ((text.dropWhile (· ≠ '.')).drop 1) 0 + 1))

theorem readInt_decimal (n : ℤ) : readInt (Json.decimal n) = n := by
  cases n with
  | ofNat n =>
    rw [Json.decimal]
    unfold readInt
    split
    · rename_i l heq
      exact absurd heq (by simpa using Json.toDigits_unsigned n [] l)
    · rw [Nat.ofDigitChars_toDigits (by decide) (by decide)]
      rfl
  | negSucc n =>
    rw [Json.decimal, readInt, Nat.ofDigitChars_toDigits (by decide) (by decide)]
    rfl

theorem pointed_eq (q : ℚ) :
    pointed q = Json.decimal q.num ++ '.' :: Nat.toDigits 10 (q.den - 1) := by
  have hden : (q.den : ℤ) - 1 = Int.ofNat (q.den - 1) := (Int.ofNat_sub q.pos).symm
  rw [pointed, hden, Json.decimal]

theorem readPointed_pointed (q : ℚ) : readPointed (pointed q) = some q := by
  have hdrop : (pointed q).dropWhile (· ≠ '.') = '.' :: Nat.toDigits 10 (q.den - 1) := by
    have hsplit := List.takeWhile_append_dropWhile (p := (· ≠ '.')) (l := pointed q)
    rw [takeWhile_pointed] at hsplit
    exact List.append_cancel_left (hsplit.trans (pointed_eq q))
  rw [readPointed, takeWhile_pointed, readInt_decimal, hdrop, List.drop_one, List.tail_cons,
    Nat.ofDigitChars_toDigits (by decide) (by decide), Nat.sub_add_cancel q.pos, Rat.mkRat_self]

theorem plain_readsFloats (fields : List (String × Json)) :
    ReadsFloats plainPlatform readPointed fields := by
  intro q _ r hr
  have htext := readPointed_pointed q
  rw [pointed_eq] at htext
  have hrepr : plainPlatform.floats.repr q = _ := pointed_eq q
  rw [hrepr, List.append_assoc, List.cons_append]
  cases hnum : q.num with
  | ofNat n =>
    rw [hnum, Json.decimal] at htext
    rw [Json.decimal, Json.readNumber_unsigned (Json.toDigits_unsigned n _)]
    refine (Json.readUnsigned_point false n _ hr).trans ?_
    rw [if_neg Bool.false_ne_true, List.nil_append, htext]
    rfl
  | negSucc n =>
    rw [hnum, Json.decimal] at htext
    rw [Json.decimal, List.cons_append, Json.readNumber]
    refine (Json.readUnsigned_point true (n + 1) _ hr).trans ?_
    rw [if_pos rfl, List.singleton_append, ← List.cons_append, htext]
    rfl

theorem signed_read_back_token : ∃ fields, SignedRecord fields ∧
    Spells plainPlatform readPointed (canonicalJson plainPlatform firstTokenFields) fields ∧
    ReadsFloats plainPlatform readPointed fields := by
  have hsigned : canonicalJson plainPlatform firstTokenFields ∈
      (afterActions plainNode Fog.init firstToken).signed := by
    rw [firstToken, afterActions, run_snoc, firstDevice, ← afterActions, afterActions_requests]
    exact firstToken_signed
  obtain ⟨fields, hrecord, hspells⟩ :=
    signed_read_back plainNode readPointed firstToken _ hsigned
  exact ⟨fields, hrecord, hspells, plain_readsFloats fields⟩

end FogNode.Proofs
