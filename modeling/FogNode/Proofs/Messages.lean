import FogNode.Library.Lists
import FogNode.Proofs.Decisions

namespace FogNode.Proofs

open FogNode.Library FogNode.Source

/-- The text does not contain the separator of the signed messages. -/
def Plain (s : String) : Prop := 124 ∉ utf8 s

instance (s : String) : Decidable (Plain s) := inferInstanceAs (Decidable (124 ∉ utf8 s))

theorem plain_iff {s : String} : Plain s ↔ '|' ∉ s.toList :=
  not_congr (mem_utf8_iff (d := '|') (by decide))

theorem plain_ofList {l : List Char} (h : ∀ c ∈ l, c.toNat < 128 ∧ c ≠ '|') :
    Plain (String.ofList l) := by
  rw [plain_iff, String.toList_ofList]
  exact fun hmem ↦ (h '|' hmem).2 rfl

theorem plain_append {s t : String} (hs : Plain s) (ht : Plain t) : Plain (s ++ t) := by
  rw [Plain, utf8_append, List.mem_append, not_or]
  exact ⟨hs, ht⟩

theorem digit_plain {n : ℕ} (h : n < 16) : Hex.digit n ≠ '|' := by
  have hall : ∀ n ∈ List.range 16, Hex.digit n ≠ '|' := by decide
  exact hall n (List.mem_range.mpr h)

theorem encode_plain (bs : Bytes) : ∀ c ∈ Hex.encode bs, c.toNat < 128 ∧ c ≠ '|' := by
  refine fun c hc ↦ ⟨Hex.encode_ascii bs c hc, ?_⟩
  induction bs with
  | nil => simp [Hex.encode] at hc
  | cons b bs ih =>
    obtain ⟨hhi, hlo⟩ := Hex.nibbles b
    simp only [Hex.encode, List.mem_cons] at hc
    rcases hc with rfl | rfl | hc
    · exact digit_plain hhi
    · exact digit_plain hlo
    · exact ih hc

theorem plain_toHex (bs : Bytes) : Plain (toHex bs) := plain_ofList (encode_plain bs)

theorem plain_deriveDid (P : Platform) (pk : Bytes) : Plain (deriveDid P pk) :=
  plain_append (by decide) (plain_ofList fun c hc ↦ encode_plain _ c (List.mem_of_mem_take hc))

theorem numeric_plain {c : Char} (h : Json.isNumeric c = true) : c.toNat < 128 ∧ c ≠ '|' := by
  simp only [Json.isNumeric, Bool.or_eq_true, decide_eq_true_eq] at h
  rcases h with (((h | rfl) | rfl) | rfl) | rfl
  · simp only [Char.isDigit, Bool.and_eq_true, decide_eq_true_eq] at h
    have hle : c.toNat ≤ 57 := h.2
    refine ⟨by omega, ?_⟩
    rintro rfl
    exact absurd hle (by decide)
  · decide
  · decide
  · decide
  · decide

theorem plain_decimal (n : ℤ) : Plain (String.ofList (Json.decimal n)) :=
  plain_ofList fun _ hc ↦ numeric_plain (Json.isNumeric_of_mem_decimal hc)

theorem plain_of_policy {role operation resource : String}
    (h : MayPerform role operation resource) : Plain resource ∧ Plain operation := by
  obtain ⟨ops, roles, hops, hroles, -⟩ := h
  have hall : ∀ e ∈ POLICY_TABLE, Plain e.1 ∧ ∀ o ∈ e.2, Plain o.1 := by decide +kernel
  obtain ⟨hresource, hoperations⟩ := hall _ (mem_of_lookup hops)
  exact ⟨hresource, hoperations _ (mem_of_lookup hroles)⟩

/-- As many texts joined to the same message are the same when some are plain. -/
theorem texts_determined {texts texts' : List String} (hplain : ∀ s ∈ texts, Plain s)
    (hlen : texts.length = texts'.length)
    (h : join (texts.map utf8) = join (texts'.map utf8)) : texts = texts' := by
  apply List.map_injective_iff.mpr utf8_injective
  refine intercalate_determines (fun b hb ↦ ?_) (by simpa using hlen) h
  obtain ⟨s, hs, rfl⟩ := List.mem_map.mp hb
  exact hplain s hs

/-- The message of a request to `/verify` whose texts are plain determines them. -/
theorem verifyMessage_determines {did epoch nonce resource operation did' epoch' nonce' resource'
    operation' : String} (hdid : Plain did) (hepoch : Plain epoch) (hnonce : Plain nonce)
    (hresource : Plain resource) (hoperation : Plain operation)
    (h : verifyMessage did epoch nonce resource operation =
      verifyMessage did' epoch' nonce' resource' operation') :
    did = did' ∧ epoch = epoch' ∧ nonce = nonce' ∧ resource = resource' ∧
      operation = operation' := by
  have hlabel : Plain "IIOT_VERIFY_ACCESS_V1" := by decide
  have htexts : ["IIOT_VERIFY_ACCESS_V1", did, epoch, nonce, resource, operation] =
      ["IIOT_VERIFY_ACCESS_V1", did', epoch', nonce', resource', operation'] :=
    texts_determined (by simp [hlabel, hdid, hepoch, hnonce, hresource, hoperation]) rfl h
  simpa using htexts

theorem accessMessage_determines {tokenId did nonce resource operation tokenId' did' nonce'
    resource' operation' : String} (htoken : Plain tokenId) (hdid : Plain did)
    (hnonce : Plain nonce) (hresource : Plain resource) (hoperation : Plain operation)
    (h : accessMessage tokenId did nonce resource operation =
      accessMessage tokenId' did' nonce' resource' operation') :
    tokenId = tokenId' ∧ did = did' ∧ nonce = nonce' ∧ resource = resource' ∧
      operation = operation' := by
  have hlabel : Plain "IIOT_TOKEN_ACCESS_V1" := by decide
  have htexts : ["IIOT_TOKEN_ACCESS_V1", tokenId, did, nonce, resource, operation] =
      ["IIOT_TOKEN_ACCESS_V1", tokenId', did', nonce', resource', operation'] :=
    texts_determined (by simp [hlabel, htoken, hdid, hnonce, hresource, hoperation]) rfl h
  simpa using htexts

end FogNode.Proofs
