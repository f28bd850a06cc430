import FogNode.Proofs.TokenAccess

namespace FogNode.Proofs

open FogNode.Library FogNode.Source

variable {P : Platform} {key : P.PrivateKey} {token : List (String × Json)}
  {tokenId did : String}

/-- Texts are joined as characters before they are encoded. -/
theorem join_texts (texts : List String) :
    join (texts.map utf8) = utf8 (String.ofList (['|'].intercalate (texts.map String.toList))) := by
  induction texts with
  | nil => rfl
  | cons s texts ih =>
    cases texts with
    | nil => simp [join]
    | cons t texts =>
      simp only [join, SEPARATOR, List.map_cons, List.intercalate_cons_cons, String.ofList_append,
        utf8_append] at ih ⊢
      rw [ih, String.ofList_toList]
      rfl

theorem join_eq_iff {texts texts' : List String} :
    join (texts.map utf8) = join (texts'.map utf8) ↔
      ['|'].intercalate (texts.map String.toList) =
        ['|'].intercalate (texts'.map String.toList) := by
  rw [join_texts, join_texts, utf8_injective.eq_iff, String.ofList_inj]

/-- Joined texts can be told from any others as many exactly when all are plain. -/
theorem texts_determined_iff (texts : List String) (hlen : 2 ≤ texts.length) :
    (∀ texts' : List String, texts'.length = texts.length →
      join (texts.map utf8) = join (texts'.map utf8) → texts = texts') ↔ ∀ s ∈ texts, Plain s := by
  have hchars : (∀ s ∈ texts, Plain s) ↔ ∀ l ∈ texts.map String.toList, '|' ∉ l := by
    simp only [plain_iff, List.forall_mem_map]
  rw [hchars, ← intercalate_determines_iff (by rwa [List.length_map])]
  constructor
  · intro h ms hms heq
    have hback : (ms.map String.ofList).map String.toList = ms := by simp
    rw [h (ms.map String.ofList) (by simpa using hms) (join_eq_iff.mpr (by rw [hback, heq])), hback]
  · intro h texts' hlen' heq
    exact List.map_injective_iff.mpr (fun s t ↦ String.toList_inj.mp)
      (h _ (by simpa using hlen') (join_eq_iff.mp heq))

theorem join_cons (part next : Bytes) (parts : List Bytes) :
    join (part :: next :: parts) = part ++ SEPARATOR ++ join (next :: parts) := by
  rw [join, List.intercalate_cons_cons, ← join]

theorem exists_five {texts : List String} (h : texts.length = 5) :
    ∃ a b c d e, texts = [a, b, c, d, e] := by
  obtain ⟨a, texts, rfl⟩ := List.exists_cons_of_length_eq_add_one h
  obtain ⟨b, texts, rfl⟩ := List.exists_cons_of_length_eq_add_one (Nat.succ.inj h)
  obtain ⟨c, d, e, rfl⟩ := List.length_eq_three.mp (Nat.succ.inj (Nat.succ.inj h))
  exact ⟨a, b, c, d, e, rfl⟩

/-- The message of these five fields is that of no others. -/
def Bound (message : String → String → String → String → String → Bytes)
    (a b c d e : String) : Prop :=
  ∀ a' b' c' d' e', message a b c d e = message a' b' c' d' e' →
    a = a' ∧ b = b' ∧ c = c' ∧ d = d' ∧ e = e'

theorem bound_iff {message : String → String → String → String → String → Bytes} {label : Bytes}
    (hmessage : ∀ a b c d e, message a b c d e =
      join [label, utf8 a, utf8 b, utf8 c, utf8 d, utf8 e]) (a b c d e : String) :
    Bound message a b c d e ↔ ∀ s ∈ [a, b, c, d, e], Plain s := by
  have hjoin : ∀ a' b' c' d' e', message a b c d e = message a' b' c' d' e' ↔
      join ([a, b, c, d, e].map utf8) = join ([a', b', c', d', e'].map utf8) := by
    intro a' b' c' d' e'
    rw [hmessage, hmessage, join_cons label, join_cons label, List.append_right_inj]
    rfl
  rw [← texts_determined_iff _ (by simp)]
  constructor
  · intro h texts' hlen heq
    obtain ⟨a', b', c', d', e', rfl⟩ := exists_five hlen
    obtain ⟨rfl, rfl, rfl, rfl, rfl⟩ := h a' b' c' d' e' ((hjoin ..).mpr heq)
    rfl
  · intro h a' b' c' d' e' heq
    simpa using h [a', b', c', d', e'] rfl ((hjoin a' b' c' d' e').mp heq)

/-- The token is bound to the key: its `public_key` is that of the device, and it has a
`token_id` and a `did`. -/
structure BoundToken (P : Platform) (key : P.PrivateKey) (token : List (String × Json))
    (tokenId did : String) : Prop where
  key_eq : Json.field "public_key" token = some (.str (toHex (publicKeyBytes P key)))
  id_eq : Json.field "token_id" token = some (.str tokenId)
  did_eq : Json.field "did" token = some (.str did)

/-- A signature accepted for this nonce, resource and operation is accepted for no others,
unless it is one of two different messages. -/
def SignatureBound (P : Platform) (key : P.PrivateKey) (token : List (String × Json))
    (tokenId did nonce resource operation : String) : Prop :=
  ∀ signature nonce' resource' operation',
    (∀ sig, fromhex signature = .ok sig → Binds P (publicKeyBytes P key) sig
      (accessMessage tokenId did nonce resource operation)
      (accessMessage tokenId did nonce' resource' operation')) →
    accessSignatureValid P token nonce resource operation signature = true →
    accessSignatureValid P token nonce' resource' operation' signature = true →
    nonce = nonce' ∧ resource = resource' ∧ operation = operation'

theorem accessMessage_eq_iff {nonce resource operation nonce' resource' operation' : String} :
    accessMessage tokenId did nonce resource operation =
        accessMessage tokenId did nonce' resource' operation' ↔
      join ([nonce, resource, operation].map utf8) =
        join ([nonce', resource', operation'].map utf8) := by
  simp only [accessMessage, join_cons TOKEN_ACCESS_LABEL, join_cons (utf8 tokenId),
    join_cons (utf8 did), List.append_right_inj]
  rfl

/-- The signature that a device makes for one request is accepted for every request with the
same message. -/
theorem BoundToken.accepts (h : BoundToken P key token tokenId did) (hkey : SignsCorrectly P key)
    {nonce resource operation nonce' resource' operation' : String}
    (heq : accessMessage tokenId did nonce resource operation =
      accessMessage tokenId did nonce' resource' operation') :
    accessSignatureValid P token nonce' resource' operation'
      (signAccess P key 0 tokenId did nonce resource operation) = true := by
  rw [signAccess, heq, ← signAccess]
  exact signAccess_valid hkey 0 h.key_eq h.id_eq h.did_eq _ _ _

theorem BoundToken.signatureBound_iff (h : BoundToken P key token tokenId did)
    (hkey : SignsCorrectly P key) (nonce resource operation : String) :
    SignatureBound P key token tokenId did nonce resource operation ↔
      ∀ s ∈ [nonce, resource, operation], Plain s := by
  rw [← texts_determined_iff _ (by simp)]
  constructor
  · intro hbound texts' hlen heq
    obtain ⟨nonce', resource', operation', rfl⟩ := List.length_eq_three.mp hlen
    have hsame : accessMessage tokenId did nonce resource operation =
        accessMessage tokenId did nonce' resource' operation' := accessMessage_eq_iff.mpr heq
    obtain ⟨rfl, rfl, rfl⟩ := hbound _ nonce' resource' operation' (fun _ _ _ _ ↦ hsame)
      (h.accepts hkey rfl) (h.accepts hkey hsame)
    rfl
  · intro hdetermined signature nonce' resource' operation' hbinds hvalid hvalid'
    obtain ⟨pk, sig, hpk, hsig, hverify⟩ :=
      access_possession h.key_eq h.id_eq h.did_eq hvalid
    obtain ⟨pk', sig', hpk', hsig', hverify'⟩ :=
      access_possession h.key_eq h.id_eq h.did_eq hvalid'
    rw [fromhex_toHex] at hpk hpk'
    cases hpk
    cases hpk'
    cases hsig.symm.trans hsig'
    have heq := accessMessage_eq_iff.mp (hbinds sig hsig hverify hverify')
    simpa using hdetermined [nonce', resource', operation'] rfl heq

/-- A request message determines its fields, and a signature the request, exactly when no
field that varies contains the separator. -/
theorem request_bound_iff (hkey : SignsCorrectly P key)
    (htoken : BoundToken P key token tokenId did) :
    (∀ tokenId did nonce resource operation,
      Bound accessMessage tokenId did nonce resource operation ↔
        ∀ s ∈ [tokenId, did, nonce, resource, operation], Plain s) ∧
    (∀ did epoch nonce resource operation,
      Bound verifyMessage did epoch nonce resource operation ↔
        ∀ s ∈ [did, epoch, nonce, resource, operation], Plain s) ∧
    (∀ nonce resource operation,
      SignatureBound P key token tokenId did nonce resource operation ↔
        ∀ s ∈ [nonce, resource, operation], Plain s) :=
  ⟨bound_iff fun _ _ _ _ _ ↦ rfl, bound_iff fun _ _ _ _ _ ↦ rfl,
    htoken.signatureBound_iff hkey⟩

/-- A token of the device with the key of sevens. -/
def plainToken : List (String × Json) :=
  [("token_id", .str "0011"), ("did", .str "did:iiot:a"),
    ("public_key", .str (toHex (publicKeyBytes plainPlatform (plainKey 7))))]

theorem plainToken_bound :
    BoundToken plainPlatform (plainKey 7) plainToken "0011" "did:iiot:a" := ⟨rfl, rfl, rfl⟩

theorem request_bound_iff_plain :
    (∀ tokenId did nonce resource operation,
      Bound accessMessage tokenId did nonce resource operation ↔
        ∀ s ∈ [tokenId, did, nonce, resource, operation], Plain s) ∧
    (∀ did epoch nonce resource operation,
      Bound verifyMessage did epoch nonce resource operation ↔
        ∀ s ∈ [did, epoch, nonce, resource, operation], Plain s) ∧
    (∀ nonce resource operation, SignatureBound plainPlatform (plainKey 7) plainToken "0011"
        "did:iiot:a" nonce resource operation ↔ ∀ s ∈ [nonce, resource, operation], Plain s) :=
  request_bound_iff (plain_signsCorrectly (plainKey 7)) plainToken_bound

theorem shifted_message : accessMessage "0011" "did:iiot:a" "22" "plc|start" "now" =
    accessMessage "0011" "did:iiot:a" "22" "plc" "start|now" := by
  decide

/-- One signature serves two requests between which the separator has moved. -/
theorem separator_moves :
    ¬ Bound accessMessage "0011" "did:iiot:a" "22" "plc|start" "now" ∧
      ¬ SignatureBound plainPlatform (plainKey 7) plainToken "0011" "did:iiot:a" "22" "plc|start"
        "now" := by
  have hne : "plc|start" ≠ "plc" := by decide
  have hkey := plain_signsCorrectly (plainKey 7)
  constructor
  · intro h
    exact hne (h _ _ _ _ _ shifted_message).2.2.2.1
  · intro h
    exact hne (h _ _ _ _ (fun _ _ _ _ ↦ shifted_message) (plainToken_bound.accepts hkey rfl)
      (plainToken_bound.accepts hkey shifted_message)).2.1

end FogNode.Proofs
