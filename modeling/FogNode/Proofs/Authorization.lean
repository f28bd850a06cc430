import FogNode.Proofs.Messages
import FogNode.Source.Device

namespace FogNode.Proofs

open FogNode.Library FogNode.Source

variable {P : Platform}

/-- What one signature of a device authorizes. -/
inductive Authorization
  | possession (did : String) (challenge : Bytes)
  | access (tokenId did nonce resource operation : String)
  | verify (did epoch nonce resource operation : String)
  deriving DecidableEq

namespace Authorization

def label : Authorization → Bytes
  | .possession _ _ => POP_CONTEXT
  | .access _ _ _ _ _ => TOKEN_ACCESS_LABEL
  | .verify _ _ _ _ _ => VERIFY_LABEL

/-- The message that the device signs. -/
def message : Authorization → Bytes
  | .possession did challenge => popMessage challenge did
  | .access tokenId did nonce resource operation =>
    accessMessage tokenId did nonce resource operation
  | .verify did epoch nonce resource operation => verifyMessage did epoch nonce resource operation

/-- The DID of a proof of possession is derived from some key. -/
def Derived (P : Platform) : Authorization → Prop
  | .possession did _ => ∃ pk, did = deriveDid P pk
  | _ => True

theorem label_plain (a : Authorization) : 124 ∉ a.label := by
  cases a with
  | possession => exact (show 124 ∉ POP_CONTEXT by decide)
  | access => exact (show 124 ∉ TOKEN_ACCESS_LABEL by decide)
  | verify => exact (show 124 ∉ VERIFY_LABEL by decide)

theorem message_split (a : Authorization) : ∃ rest, a.message = a.label ++ 124 :: rest := by
  cases a with
  | possession did challenge =>
    refine ⟨challenge ++ SEPARATOR ++ utf8 did, ?_⟩
    simp [message, label, popMessage, SEPARATOR]
  | access tokenId did nonce resource operation =>
    refine ⟨join [utf8 tokenId, utf8 did, utf8 nonce, utf8 resource, utf8 operation], ?_⟩
    simp [message, label, accessMessage, join, SEPARATOR, List.intercalate_cons_cons]
  | verify did epoch nonce resource operation =>
    refine ⟨join [utf8 did, utf8 epoch, utf8 nonce, utf8 resource, utf8 operation], ?_⟩
    simp [message, label, verifyMessage, join, SEPARATOR, List.intercalate_cons_cons]

/-- Messages of different protocols differ. -/
theorem label_eq {a b : Authorization} (h : a.message = b.message) : a.label = b.label := by
  obtain ⟨rest, ha⟩ := a.message_split
  obtain ⟨rest', hb⟩ := b.message_split
  rw [ha, hb] at h
  exact (append_separator_inj a.label_plain b.label_plain h).1

end Authorization

theorem pop_ne_access : POP_CONTEXT ≠ TOKEN_ACCESS_LABEL := by decide

theorem pop_ne_verify : POP_CONTEXT ≠ VERIFY_LABEL := by decide

theorem access_ne_verify : TOKEN_ACCESS_LABEL ≠ VERIFY_LABEL := by decide

theorem deriveDid_length (pk : Bytes) : (utf8 (deriveDid P pk)).length = 25 := by
  have hascii : ∀ c ∈ (Hex.encode (P.sha256 pk)).take 16, c.toNat < 128 :=
    fun c hc ↦ Hex.encode_ascii _ c (List.mem_of_mem_take hc)
  have hprefix : (utf8 DID_PREFIX).length = 9 := by decide
  rw [deriveDid, utf8_append, List.length_append, utf8_ascii hascii, List.length_map,
    List.length_take, Hex.encode_length, P.sha256_length, hprefix]
  rfl

/-- The message of a proof of possession determines the challenge and the derived DID. -/
theorem popMessage_determines {pk pk' challenge challenge' : Bytes}
    (h : popMessage challenge (deriveDid P pk) = popMessage challenge' (deriveDid P pk')) :
    deriveDid P pk = deriveDid P pk' ∧ challenge = challenge' := by
  unfold popMessage at h
  obtain ⟨hpre, hdid⟩ := List.append_inj' h (by rw [deriveDid_length, deriveDid_length])
  refine ⟨utf8_injective hdid, ?_⟩
  exact List.append_cancel_left (List.append_cancel_right hpre)

/-- What the device authorizes when it signs. -/
def authorization (device : Device P) : Signing → Option Authorization
  | .challenge challengeHex =>
    match fromhex challengeHex with
    | .ok challenge => some (.possession device.did challenge)
    | .error _ => none
  | .access tokenId did nonce resource operation =>
    some (.access tokenId did nonce resource operation)
  | .verifyRequest did epochId nonce resource operation =>
    some (.verify did (pyStr P epochId) nonce resource operation)

theorem signature_eq {device : Device P} {coins : ℕ} {s : Signing} {text : String} :
    s.signature device coins = .ok text ↔ ∃ a, authorization device s = some a ∧
      text = toHex (sign P device.privateKey coins a.message) := by
  cases s with
  | challenge challengeHex =>
    simp only [Signing.signature, Device.signChallenge, authorization]
    cases fromhex challengeHex with
    | error e => simp
    | ok challenge => simp [Authorization.message, eq_comm]
  | access => simp [Signing.signature, signAccess, authorization, Authorization.message, eq_comm]
  | verifyRequest =>
    simp [Signing.signature, signVerifyRequest, authorization, Authorization.message, eq_comm]

theorem authorization_derived {device : Device P} {s : Signing} {a : Authorization}
    (h : authorization device s = some a) : a.Derived P := by
  cases s with
  | challenge challengeHex =>
    simp only [authorization] at h
    cases hhex : fromhex challengeHex with
    | error e => simp [hhex] at h
    | ok challenge =>
      simp only [hhex, Option.some.injEq] at h
      subst h
      exact ⟨device.pkBytes, rfl⟩
  | access =>
    cases h
    trivial
  | verifyRequest =>
    cases h
    trivial

end FogNode.Proofs
