import FogNode.Source.Main

namespace FogNode.Proofs

open FogNode.Library FogNode.Source

variable {P : Platform} {node : Node P} {env : Env} {fog : Fog}

theorem answer_access {e : Event} {body : TokenAccessRequest}
    (h : e.request = .tokensAccess body) :
    answer node fog e = (tokensAccess node e.env body fog).1 := by
  simp only [answer, handle, h]

theorem answer_verify {e : Event} {body : VerifyRequest} (h : e.request = .verify body) :
    answer node fog e = (verifyAndAuthorize node e.env body fog).1 := by
  simp only [answer, handle, h]

theorem not_allows_tokenDeny (reason detectedBy : String) :
    ¬ (tokenDeny reason detectedBy).Allows := by
  simp [Response.Allows, Response.field, tokenDeny, Json.field]

theorem not_allows_verifyDeny (reason detectedBy : String) (verified : Bool) (epochId : Json) :
    ¬ (verifyDeny reason detectedBy verified epochId).Allows := by
  simp [Response.Allows, Response.field, verifyDeny, Json.field]

theorem not_allows_serverError (e : PyError) : ¬ (Response.serverError e).Allows := by
  simp [Response.Allows, Response.field]

/-- A device of the type may hold the role. -/
def MayHold (deviceType role : String) : Prop :=
  ∃ roles, ROLES_FOR_TYPE.lookup deviceType = some roles ∧ role ∈ roles

/-- The role may perform the operation on the resource. -/
def MayPerform (role operation resource : String) : Prop :=
  ∃ ops roles, POLICY_TABLE.lookup resource = some ops ∧ ops.lookup operation = some roles ∧
    role ∈ roles

theorem mayHold_of_valid {deviceType role : Option String}
    (h : roleValidForType deviceType role = true) :
    ∃ t r, deviceType = some t ∧ role = some r ∧ MayHold t r := by
  unfold roleValidForType at h
  cases deviceType with
  | none => cases h
  | some t =>
  cases role with
  | none => cases h
  | some r =>
  simp only [Bool.and_eq_true, List.contains_iff_mem] at h
  refine ⟨t, r, rfl, rfl, ?_⟩
  cases hroles : ROLES_FOR_TYPE.lookup t with
  | none => simp [hroles] at h
  | some roles => exact ⟨roles, hroles, by simpa [hroles] using h.2⟩

theorem mayPerform_of_policy {resource operation role : String}
    (h : checkPolicy resource operation role = true) : MayPerform role operation resource := by
  unfold checkPolicy at h
  cases hops : POLICY_TABLE.lookup resource with
  | none => simp [hops] at h
  | some ops =>
  simp only [hops] at h
  cases hroles : ops.lookup operation with
  | none => simp [hroles] at h
  | some roles => exact ⟨ops, roles, hops, hroles, by simpa [hroles] using h⟩

/-- A nonce that is accepted was issued for the purpose and the subject, is in time,
and has not been used. -/
structure Accepts (book : NonceBook) (now : ℚ) (purpose subject nonce : String)
    (entry : NonceEntry) : Prop where
  get : book.get? nonce = some entry
  purpose_eq : entry.purpose = purpose
  subject_eq : entry.subject = subject
  unused : entry.used = false
  in_time : now ≤ entry.expiresAt

theorem consume_ok {book : NonceBook} {now : ℚ} {purpose nonce : String} {subject : Json}
    (h : (NonceBook.consume book now purpose subject nonce).1 = .ok) :
    ∃ text entry, subject = .str text ∧ Accepts book now purpose text nonce entry ∧
      (NonceBook.consume book now purpose subject nonce).2 =
        book.set nonce { entry with used := true } := by
  unfold NonceBook.consume at h ⊢
  cases hn : book.get? nonce with
  | none => simp [hn] at h
  | some entry =>
    cases subject with
    | str text =>
      simp only [hn] at h ⊢
      split_ifs at h ⊢ with h₁ h₂ h₃
      · simp only [not_or, not_not] at h₁
        exact ⟨text, entry, rfl, ⟨hn, h₁.1, h₁.2, by simpa using h₂, Rat.not_lt.mp h₃⟩, rfl⟩
    | _ => simp [hn] at h

/-- What `/verify` has checked when it answers ALLOW. -/
structure Verified (node : Node P) (env : Env) (fog : Fog) (body : VerifyRequest)
    (pkg : ProofPackage) (rec : DeviceRecord) : Prop where
  nonce : (NonceBook.consume fog.tokenState.nonces env.now VERIFY_NONCE_PURPOSE
    (.str (pyStr P ((Json.field "did" body.proofPackage).getD .null))) body.nonce).1 = .ok
  parsed : ProofPackage.parse P body.proofPackage = some pkg
  accepted : Accepted P pkg (trustedRoot fog.ledger
    ((Json.field "epoch_id" body.proofPackage).getD .null)) (publicKeyBytes P node.signingKey)
  signature : verify P (hexOrEmpty pkg.publicKey)
    (verifyMessage pkg.did (pyStr P ((Json.field "epoch_id" body.proofPackage).getD .null))
      body.nonce body.resource body.operation) (hexOrEmpty body.signature) = true
  get : fog.devices.get? pkg.did = some rec
  status_eq : rec.status = .registered
  role_valid : roleValidForType rec.deviceType rec.role = true
  policy : checkPolicy body.resource body.operation (rec.role.getD "") = true

theorem strField_bind {j : Option Json} {s : String} (h : j.bind strField = some s) :
    j = some (.str s) := by
  match j, h with
  | some (.str t), h => simpa [strField] using h

/-- What a parsed package says of the JSON it was read from. -/
theorem parse_ok {fields : List (String × Json)} {pkg : ProofPackage}
    (h : ProofPackage.parse P fields = some pkg) :
    Json.field "did" fields = some (.str pkg.did) ∧
    Json.field "public_key" fields = some (.str pkg.publicKey) ∧
    (Json.field "epoch_id" fields).bind P.intField = some pkg.epochId := by
  unfold ProofPackage.parse at h
  simp only [Option.bind_eq_bind, Option.bind_eq_some_iff, Option.pure_def] at h
  obtain ⟨did, hdid, publicKey, hkey, leaf, -, epochId, hepoch, root, -, path, -, fogId, -,
    signature, -, he⟩ := h
  cases he
  refine ⟨strField_bind ?_, strField_bind ?_, ?_⟩
  · simpa [Option.bind_eq_some_iff] using hdid
  · simpa [Option.bind_eq_some_iff] using hkey
  · simpa [Option.bind_eq_some_iff] using hepoch

theorem pathField_steps (path : List ProofStep) :
    pathField (.arr (path.map fun s ↦
      .obj [("sibling", .str s.sibling), ("side", .str (sideText s.side))])) = some path := by
  induction path with
  | nil => rfl
  | cons s path ih =>
    have hstep : ProofStep.parse
        (.obj [("sibling", .str s.sibling), ("side", .str (sideText s.side))]) = some s := by
      cases s with
      | mk sibling side => cases side <;> simp [ProofStep.parse, Json.field, strField, sideText]
    simp only [pathField] at ih ⊢
    rw [List.map_cons, List.mapM_cons, hstep, ih]
    rfl

/-- A package is read back as it was written. -/
theorem parse_modelDump (pkg : ProofPackage) : ProofPackage.parse P pkg.modelDump = some pkg := by
  simp [ProofPackage.parse, ProofPackage.modelDump, Json.field, strField, pathField_steps,
    P.intField_int]

theorem authorize_allows {did : String} {epochId : Json} {body : VerifyRequest}
    (h : (authorize fog.devices did epochId body).Allows) :
    ∃ rec, fog.devices.get? did = some rec ∧ rec.status = .registered ∧
      roleValidForType rec.deviceType rec.role = true ∧
      checkPolicy body.resource body.operation (rec.role.getD "") = true := by
  unfold authorize at h
  cases hrec : DeviceStore.get fog.devices did with
  | none => exact absurd h (by simp only [hrec]; exact not_allows_verifyDeny _ _ _ _)
  | some rec =>
    simp only [hrec] at h
    split_ifs at h with h₁ h₂ h₃ h₄
    · exact absurd h (not_allows_verifyDeny _ _ _ _)
    · exact absurd h (not_allows_verifyDeny _ _ _ _)
    · exact absurd h (not_allows_verifyDeny _ _ _ _)
    · exact absurd h (not_allows_verifyDeny _ _ _ _)
    · exact ⟨rec, hrec, not_not.mp h₂, by simpa using h₃, by simpa using h₄⟩

theorem verify_allows {body : VerifyRequest}
    (h : (verifyAndAuthorize node env body fog).1.Allows) :
    ∃ pkg rec, Verified node env fog body pkg rec := by
  unfold verifyAndAuthorize at h
  dsimp only at h
  split_ifs at h with hnonce
  · exact absurd h (not_allows_verifyDeny _ _ _ _)
  cases hparse : ProofPackage.parse P body.proofPackage with
  | none =>
    simp only [hparse] at h
    exact absurd h (not_allows_verifyDeny _ _ _ _)
  | some pkg =>
    simp only [hparse] at h
    cases hpkg : verifyProofPackage P pkg (trustedRoot fog.ledger
        ((Json.field "epoch_id" body.proofPackage).getD .null))
        (publicKeyBytes P node.signingKey) with
    | error e =>
      simp only [hpkg] at h
      exact absurd h (not_allows_verifyDeny _ _ _ _)
    | ok result =>
      simp only [hpkg] at h
      split_ifs at h with hok hsig
      · exact absurd h (not_allows_verifyDeny _ _ _ _)
      · exact absurd h (not_allows_verifyDeny _ _ _ _)
      · obtain ⟨rec, hrec, hstatus, hrole, hpolicy⟩ := authorize_allows h
        exact ⟨pkg, rec, ⟨not_not.mp hnonce, hparse, ⟨result, hpkg, by simpa using hok⟩,
          by simpa using hsig, hrec, hstatus, hrole, hpolicy⟩⟩

theorem Verified.allows {body : VerifyRequest} {pkg : ProofPackage} {rec : DeviceRecord}
    (h : Verified node env fog body pkg rec) :
    (verifyAndAuthorize node env body fog).1.Allows := by
  obtain ⟨result, hresult, hok⟩ := h.accepted
  have hauth : ∀ epochId, (authorize fog.devices pkg.did epochId body).Allows := by
    intro epochId
    simp only [authorize, DeviceStore.get, h.get, h.status_eq, h.role_valid, h.policy]
    simp [Response.Allows, Response.field, Json.field]
  unfold verifyAndAuthorize
  simp only [h.nonce, h.parsed, hresult, hok, h.signature, ne_eq, not_true_eq_false, if_false,
    Bool.true_eq_false]
  exact hauth _

/-- What `/tokens/access` has checked when it answers ALLOW. -/
structure Admitted (node : Node P) (env : Env) (fog : Fog) (body : TokenAccessRequest)
    (tokenId : String) (did : Json) (ownType role : String) : Prop where
  signature : tokenSignatureValid P body.token node.signingKey = true
  token_id : Json.field "token_id" body.token = some (.str tokenId)
  did_eq : Json.field "did" body.token = some did
  unexpired : tokenExpired P body.token env.now = .ok false
  nonce : (NonceBook.consume fog.tokenState.nonces env.later TOKEN_NONCE_PURPOSE (.str tokenId)
    body.nonce).1 = .ok
  live : accessRevoked fog tokenId did = .ok false
  possession : accessSignatureValid P body.token body.nonce body.resource body.operation
    body.signature = true
  type_eq : Json.field "device_type" body.token = some (.str ownType)
  scope : provisionalAllowed ownType body.resource body.operation = true
  role_eq : Json.field "role" body.token = some (.str role)
  policy : checkPolicy body.resource body.operation role = true

theorem accessDecision_allows {body : TokenAccessRequest}
    (h : (respond (accessDecision P body)).Allows) :
    accessSignatureValid P body.token body.nonce body.resource body.operation
      body.signature = true ∧
    ∃ ownType role, Json.field "device_type" body.token = some (.str ownType) ∧
      provisionalAllowed ownType body.resource body.operation = true ∧
      Json.field "role" body.token = some (.str role) ∧
      checkPolicy body.resource body.operation role = true := by
  unfold accessDecision at h
  dsimp only at h
  split_ifs at h with hsig
  · refine ⟨hsig, ?_⟩
    cases htype : getItem body.token "device_type" with
    | error e =>
      rw [htype] at h
      exact absurd h (not_allows_serverError _)
    | ok deviceType =>
      rw [htype] at h
      simp only [bind, Except.bind] at h
      split_ifs at h with hscope
      · cases hrole : getItem body.token "role" with
        | error e =>
          rw [hrole] at h
          exact absurd h (not_allows_serverError _)
        | ok role =>
          rw [hrole] at h
          cases role with
          | str role =>
            dsimp only at h
            split_ifs at h with hpolicy
            · cases deviceType with
              | str ownType =>
                exact ⟨ownType, role, getItem_ok.mp htype, hscope, getItem_ok.mp hrole, hpolicy⟩
              | _ => simp at hscope
            · exact absurd h (not_allows_tokenDeny _ _)
          | arr items => exact absurd h (not_allows_serverError _)
          | obj fields => exact absurd h (not_allows_serverError _)
          | _ => exact absurd h (not_allows_tokenDeny _ _)
      · cases hops : getItem body.token "allowed_operations" with
        | error e =>
          rw [hops] at h
          exact absurd h (not_allows_serverError _)
        | ok ops =>
          rw [hops] at h
          exact absurd h (not_allows_tokenDeny _ _)
  · exact absurd h (not_allows_tokenDeny _ _)

theorem access_allows {body : TokenAccessRequest}
    (h : (tokensAccess node env body fog).1.Allows) :
    ∃ tokenId did ownType role, Admitted node env fog body tokenId did ownType role := by
  unfold tokensAccess at h
  split_ifs at h with hsig
  · exact absurd h (not_allows_tokenDeny _ _)
  cases htid : getItem body.token "token_id" with
  | error e =>
    simp only [htid] at h
    exact absurd h (not_allows_serverError _)
  | ok tid =>
    cases hdid : getItem body.token "did" with
    | error e =>
      simp only [htid, hdid] at h
      exact absurd h (not_allows_serverError _)
    | ok did =>
      simp only [htid, hdid] at h
      cases hexp : tokenExpired P body.token env.now with
      | error e =>
        simp only [hexp] at h
        exact absurd h (not_allows_serverError _)
      | ok expired =>
        cases expired with
        | true =>
          simp only [hexp] at h
          exact absurd h (not_allows_tokenDeny _ _)
        | false =>
          simp only [hexp] at h
          split at h
          · rename_i tokenId hstatus
            cases hlive : accessRevoked
                { fog with tokenState := { fog.tokenState with
                    nonces := (NonceBook.consume fog.tokenState.nonces env.later
                      TOKEN_NONCE_PURPOSE (.str tokenId) body.nonce).2 } } tokenId did with
            | error e =>
              rw [hlive] at h
              exact absurd h (not_allows_serverError _)
            | ok dead =>
              cases dead with
              | true =>
                rw [hlive] at h
                exact absurd h (not_allows_tokenDeny _ _)
              | false =>
                rw [hlive] at h
                obtain ⟨hpop, ownType, role, htype, hscope, hrole, hpolicy⟩ :=
                  accessDecision_allows h
                exact ⟨tokenId, did, ownType, role, ⟨by simpa using hsig, getItem_ok.mp htid,
                  getItem_ok.mp hdid, hexp, hstatus, hlive, hpop, htype, hscope, hrole, hpolicy⟩⟩
          · exact absurd h (not_allows_tokenDeny _ _)

theorem accessRevoked_nonces (nonces : NonceBook) (tokenId : String) (did : Json) :
    accessRevoked { fog with tokenState := { fog.tokenState with nonces := nonces } } tokenId did =
      accessRevoked fog tokenId did := rfl

theorem Admitted.allows {body : TokenAccessRequest} {tokenId ownType role : String} {did : Json}
    (h : Admitted node env fog body tokenId did ownType role) :
    (tokensAccess node env body fog).1.Allows := by
  have hdecision : accessDecision P body = .ok (.ok [("decision", .str "ALLOW"),
      ("reason", .str "ok"), ("access", .str "provisional")]) := by
    simp only [accessDecision, h.possession, getItem_ok.mpr h.type_eq, getItem_ok.mpr h.role_eq,
      h.scope, h.policy, bind, Except.bind, if_true]
  unfold tokensAccess
  simp only [h.signature, getItem_ok.mpr h.token_id, getItem_ok.mpr h.did_eq, h.unexpired,
    h.nonce, Bool.true_eq_false, if_false, accessRevoked_nonces, h.live, hdecision]
  simp [respond, Response.Allows, Response.field, Json.field]

end FogNode.Proofs
