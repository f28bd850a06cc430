import FogNode.Proofs.TokenAccess
import FogNode.Proofs.VerifyAccess
import FogNode.Source.RuntimeClient

namespace FogNode.Proofs

open FogNode.Library FogNode.Source

variable {P : Platform} {node : Node P} {env : Env} {fog : Fog} {n : String}

/-- The nonce that a request presents. -/
def presentedNonce : Request → Option String
  | .tokensAccess body => some body.nonce
  | .verify body => some body.nonce
  | _ => none

/-- The nonce that a request draws. -/
def drawnNonce (e : Event) : Option String :=
  match e.request with
  | .tokensNonce _ | .verifyNonce _ => some (e.env.tokenHex 16)
  | _ => none

/-- The request is handled in time and has nothing to do with the nonce. -/
def Spares (nonce : String) (deadline : ℚ) (e : Event) : Prop :=
  presentedNonce e.request ≠ some nonce ∧ drawnNonce e ≠ some nonce ∧ e.env.now ≤ deadline

instance (nonce : String) (deadline : ℚ) (e : Event) : Decidable (Spares nonce deadline e) :=
  inferInstanceAs (Decidable (_ ∧ _ ∧ _))

section frame

theorem get?_consume {book : NonceBook} {nonce : String} (h : nonce ≠ n) (now : ℚ)
    (purpose : String) (subject : Json) :
    (NonceBook.consume book now purpose subject nonce).2.get? n = book.get? n := by
  unfold NonceBook.consume
  cases book.get? nonce with
  | none => rfl
  | some entry =>
    cases subject with
    | str subject =>
      dsimp only
      split_ifs
      · rfl
      · rfl
      · exact (Dict.get?_erase _ _ _).trans (if_neg h.symm)
      · exact (Dict.get?_set _ _ _ _).trans (if_neg h.symm)
    | _ => rfl

theorem access_spares {body : TokenAccessRequest} (h : body.nonce ≠ n) :
    (tokensAccess node env body fog).2.tokenState.nonces.get? n =
      fog.tokenState.nonces.get? n := by
  unfold tokensAccess
  split
  · rfl
  split
  · rfl
  · rfl
  rename_i tid did _ _
  split
  · rfl
  · rfl
  refine Eq.trans ?_ (get?_consume h env.later TOKEN_NONCE_PURPOSE tid)
  dsimp only
  split
  · split <;> rfl
  · rfl

theorem verify_spares {body : VerifyRequest} (h : body.nonce ≠ n) :
    (verifyAndAuthorize node env body fog).2.tokenState.nonces.get? n =
      fog.tokenState.nonces.get? n := by
  rw [verifyAndAuthorize_nonces]
  exact get?_consume h _ _ _

theorem step_spares {entry : NonceEntry} (h : fog.tokenState.nonces.get? n = some entry)
    {e : Event} (hs : Spares n entry.expiresAt e) :
    (step node fog e).tokenState.nonces.get? n = some entry := by
  obtain ⟨hpresents, hdraws, htime⟩ := hs
  by_cases hp : Presents e.request
  · obtain ⟨env, request⟩ := e
    cases request with
    | tokensAccess body => exact (access_spares fun hn ↦ hpresents (congrArg some hn)).trans h
    | verify body => exact (verify_spares fun hn ↦ hpresents (congrArg some hn)).trans h
    | _ => exact hp.elim
  have he := step_effect node fog e
  generalize step node fog e = fog' at he ⊢
  generalize answer node fog e = r at he
  obtain ⟨env, request⟩ := e
  cases he with
  | presented hpresent => exact absurd hpresent hp
  | challenged hask =>
    have hne : n ≠ env.tokenHex 16 := by
      cases request with
      | tokensNonce tokenId => exact fun hn ↦ hdraws (congrArg some hn.symm)
      | verifyNonce did => exact fun hn ↦ hdraws (congrArg some hn.symm)
      | _ => exact hask.elim
    refine (Dict.get?_set _ _ _ _).trans ((if_neg hne).trans ?_)
    rw [NonceBook.purge, Dict.get?_filter, h]
    exact Option.filter_eq_some_iff.mpr ⟨rfl, decide_eq_true htime⟩
  | tokenRevoked hbody hr => exact hr.nonces_eq ▸ h
  | deviceRevoked hbody hrec hr => exact hr.nonces_eq ▸ h
  | finalizing hf => cases hf <;> exact h
  | _ => exact h

theorem after_spares {entry : NonceEntry} (h : fog.tokenState.nonces.get? n = some entry)
    {others : List Event} (hs : ∀ e ∈ others, Spares n entry.expiresAt e) :
    (after node fog others).tokenState.nonces.get? n = some entry := by
  induction others generalizing fog with
  | nil => exact h
  | cons e others ih =>
    exact ih (step_spares h (hs e List.mem_cons_self)) fun e' he' ↦
      hs e' (List.mem_cons_of_mem _ he')

theorem Accepts.consumed {book : NonceBook} {now : ℚ} {purpose subject : String}
    {entry : NonceEntry} (h : Accepts book now purpose subject n entry) :
    (NonceBook.consume book now purpose (.str subject) n).1 = .ok := by
  have hlate : ¬ entry.expiresAt < now := Rat.not_lt.mpr h.in_time
  simp only [NonceBook.consume, h.get, h.purpose_eq, h.subject_eq, h.unused, hlate, ne_eq,
    not_true_eq_false, or_self, if_false, Bool.false_eq_true]

end frame

section policy

theorem valid_iff_mayHold {deviceType role : Option String} :
    roleValidForType deviceType role = true ↔
      ∃ t r, deviceType = some t ∧ role = some r ∧ MayHold t r := by
  refine ⟨mayHold_of_valid, ?_⟩
  rintro ⟨t, r, rfl, rfl, roles, hroles, hr⟩
  have hnames : ∀ e ∈ ROLES_FOR_TYPE, e.1 ≠ "" ∧ "" ∉ e.2 := by decide
  obtain ⟨l₁, l₂, hl, -⟩ := List.lookup_eq_some_iff.mp hroles
  obtain ⟨ht, hempty⟩ := hnames (t, roles) (by simp [hl])
  have hne : r ≠ "" := fun h ↦ hempty (h ▸ hr)
  simp [roleValidForType, ht, hne, hroles, hr]

theorem policy_iff_mayPerform {resource operation role : String} :
    checkPolicy resource operation role = true ↔ MayPerform role operation resource := by
  refine ⟨mayPerform_of_policy, ?_⟩
  rintro ⟨ops, roles, hops, hroles, hr⟩
  simp [checkPolicy, hops, hroles, hr]

theorem scope_iff {ownType resource operation : String} :
    provisionalAllowed ownType resource operation = true ↔
      resource = ownType ∧ (operation = "read" ∨ operation = "write") := by
  simp [provisionalAllowed, PROVISIONAL_OPERATIONS]

end policy

section verify

variable {did resource operation : String} {q : ProofPackage}

/-- What the record of a device says about an operation on a resource. -/
inductive Standing (rec : DeviceRecord) (resource operation : String) : String → Prop
  | revoked (h : rec.status = .revoked) : Standing rec resource operation "device_revoked"
  | waiting (h : rec.status = .pending ∨ rec.status = .tokenized) :
      Standing rec resource operation "not_registered"
  | mismatched (h : rec.status = .registered)
      (hhold : ∀ t role, rec.deviceType = some t → rec.role = some role → ¬ MayHold t role) :
      Standing rec resource operation "role_type_mismatch"
  | forbidden {t role : String} (h : rec.status = .registered) (ht : rec.deviceType = some t)
      (hrole : rec.role = some role) (hhold : MayHold t role)
      (hperform : ¬ MayPerform role operation resource) :
      Standing rec resource operation "policy_denied"
  | allowed {t role : String} (h : rec.status = .registered) (ht : rec.deviceType = some t)
      (hrole : rec.role = some role) (hhold : MayHold t role)
      (hperform : MayPerform role operation resource) : Standing rec resource operation "ok"

/-- The answer gives the reason, and allows exactly for the reason `ok`. -/
structure Decides (r : Response) (reason : String) : Prop where
  reason_eq : r.text "reason" = some reason
  allows_iff : r.Allows ↔ reason = "ok"

theorem decides_verifyDeny {reason : String} (h : reason ≠ "ok") (detectedBy : String)
    (verified : Bool) (epochId : Json) :
    Decides (verifyDeny reason detectedBy verified epochId) reason where
  reason_eq := by simp [Response.text, Response.field, verifyDeny, Json.field, strField]
  allows_iff := iff_of_false (not_allows_verifyDeny _ _ _ _) h

/-- With the identity proven, `/verify` decides by what is on record. -/
theorem authorize_decides {rec : DeviceRecord} (hrec : fog.devices.get? did = some rec)
    (epochId : Json) (body : VerifyRequest) :
    ∃ reason, Standing rec body.resource body.operation reason ∧
      Decides (authorize fog.devices did epochId body) reason ∧
      (authorize fog.devices did epochId body).field "identity_verified" = some (.bool true) := by
  have hfield : ∀ reason detectedBy, (verifyDeny reason detectedBy true epochId).field
      "identity_verified" = some (.bool true) := by
    intro reason detectedBy
    simp [Response.field, verifyDeny, Json.field]
  simp only [authorize, DeviceStore.get, hrec]
  split_ifs with hrevoked hwaiting hrole hpolicy
  · exact ⟨_, .revoked hrevoked, decides_verifyDeny (by decide) _ _ _, hfield _ _⟩
  · refine ⟨_, .waiting ?_, decides_verifyDeny (by decide) _ _ _, hfield _ _⟩
    cases hs : rec.status <;> simp [hs] at hrevoked hwaiting ⊢
  · rw [not_not] at hwaiting
    refine ⟨_, .mismatched hwaiting fun t role ht hr hhold ↦ ?_,
      decides_verifyDeny (by decide) _ _ _, hfield _ _⟩
    rw [valid_iff_mayHold.mpr ⟨t, role, ht, hr, hhold⟩] at hrole
    cases hrole
  · rw [not_not] at hwaiting
    rw [Bool.not_eq_false] at hrole
    obtain ⟨t, role, ht, hr, hhold⟩ := valid_iff_mayHold.mp hrole
    refine ⟨_, .forbidden hwaiting ht hr hhold fun hperform ↦ ?_,
      decides_verifyDeny (by decide) _ _ _, hfield _ _⟩
    rw [hr, Option.getD_some, policy_iff_mayPerform.mpr hperform] at hpolicy
    cases hpolicy
  · rw [not_not] at hwaiting
    rw [Bool.not_eq_false] at hrole hpolicy
    obtain ⟨t, role, ht, hr, hhold⟩ := valid_iff_mayHold.mp hrole
    rw [hr, Option.getD_some] at hpolicy
    refine ⟨"ok", .allowed hwaiting ht hr hhold (policy_iff_mayPerform.mp hpolicy), ⟨?_, ?_⟩, ?_⟩
    · simp [Response.text, Response.field, Json.field, strField]
    · simp [Response.Allows, Response.field, Json.field]
    · simp [Response.field, Json.field]

/-- Once nonce, package and signature pass, the rest is up to the record. -/
theorem verify_authorizes {body : VerifyRequest}
    (hnonce : (NonceBook.consume fog.tokenState.nonces env.now VERIFY_NONCE_PURPOSE
      (.str (pyStr P ((Json.field "did" body.proofPackage).getD .null))) body.nonce).1 = .ok)
    (hparsed : ProofPackage.parse P body.proofPackage = some q)
    (haccepted : Accepted P q (trustedRoot fog.ledger
      ((Json.field "epoch_id" body.proofPackage).getD .null)) (publicKeyBytes P node.signingKey))
    (hsignature : verify P (hexOrEmpty q.publicKey)
      (verifyMessage q.did (pyStr P ((Json.field "epoch_id" body.proofPackage).getD .null))
        body.nonce body.resource body.operation) (hexOrEmpty body.signature) = true) :
    (verifyAndAuthorize node env body fog).1 = authorize fog.devices q.did
      ((Json.field "epoch_id" body.proofPackage).getD .null) body := by
  obtain ⟨result, hresult, hok⟩ := haccepted
  unfold verifyAndAuthorize
  simp only [hnonce, hparsed, hresult, hok, hsignature, ne_eq, not_true_eq_false, if_false,
    Bool.true_eq_false]

/-- The fog when the second request of an exchange reaches it. -/
def asked (node : Node P) (ex : Exchange) (request : Request) (fog : Fog) : Fog :=
  after node fog (⟨ex.ask, request⟩ :: ex.others)

/-- The request that `verify_access` sends with the nonce it got. -/
def verifyBody (key : P.PrivateKey) (ex : Exchange) (q : ProofPackage)
    (resource operation : String) : VerifyRequest where
  proofPackage := q.modelDump
  resource := resource
  operation := operation
  nonce := ex.ask.tokenHex 16
  signature := signVerifyRequest key ex.coins q.did (pyStr P (.int q.epochId))
    (ex.ask.tokenHex 16) resource operation

/-- What `verify_access` returns: without a record the fog hands out no nonce, and else the
decision depends on what the record says in the end. -/
structure VerifyDecided (node : Node P) (fog : Fog) (q : ProofPackage) (ex : Exchange)
    (resource operation : String)
    (out : Except ClientError (Response × VerifyRequest)) : Prop where
  unknown : fog.devices.get? q.did = none →
    out = .error (.runtimeAccess "verify nonce" (.error 404 "unknown DID"))
  known : (fog.devices.get? q.did).isSome → ∃ r body rec reason, out = .ok (r, body) ∧
    (asked node ex (.verifyNonce q.did) fog).devices.get? q.did = some rec ∧
    Standing rec resource operation reason ∧ Decides r reason ∧
    r.field "identity_verified" = some (.bool true)

theorem verifyNonce_known (node : Node P) (env : Env)
    (h : (fog.devices.get? did).isSome) :
    (verifyNonce env did fog).1 = .ok [("did", .str did), ("nonce", .str (env.tokenHex 16)),
      ("expires_in", .int NONCE_TTL_SECONDS)] ∧
    (step node fog ⟨env, .verifyNonce did⟩).tokenState.nonces.get? (env.tokenHex 16) =
      some ⟨VERIFY_NONCE_PURPOSE, did, env.now + NONCE_TTL_SECONDS, false⟩ := by
  have hknown : DeviceStore.exists? fog.devices did = true := h
  constructor
  · rw [verifyNonce, if_pos hknown]
  · rw [step, handle, verifyNonce, if_pos hknown]
    exact Dict.get?_set_self _ _ _

theorem verifyAccess_known (node : Node P) (key : P.PrivateKey) (ex : Exchange)
    (resource operation : String) (h : (fog.devices.get? q.did).isSome) :
    (verifyAccess node key ex q.modelDump resource operation fog).1 =
      .ok ((verifyAndAuthorize node ex.use (verifyBody key ex q resource operation)
        (asked node ex (.verifyNonce q.did) fog)).1, verifyBody key ex q resource operation) := by
  have hdid : getItem q.modelDump "did" = .ok (.str q.did) := rfl
  have hnonce : nonceAnswered "verify nonce" (verifyNonce ex.ask q.did fog).1 =
      .ok (.str (ex.ask.tokenHex 16)) := by
    rw [(verifyNonce_known node ex.ask h).1]
    rfl
  simp only [verifyAccess, hdid, hnonce]
  rfl

/-- An issued package stays acceptable while the fog handles further requests. -/
theorem issued_accepted (hfog : SignsCorrectly P node.signingKey) {actions : List Action}
    (hq : Issued node actions q) (events : List Event) :
    Accepted P q ((after node (afterActions node Fog.init actions) events).ledger.getRoot
      q.epochId) (publicKeyBytes P node.signingKey) := by
  obtain ⟨-, pkgs, tree, -, -, hmem, hof, hroot⟩ :=
    issued_epoch (hq.mono (List.prefix_append actions (events.map .request)))
  rw [afterActions, run_append, ← afterActions, ← afterActions, afterActions_requests] at hroot
  rw [hroot]
  exact hof.accepts hmem ⟨⟨rfl, rfl, rfl, rfl, rfl⟩, rfl, rfl⟩ (hof.signed hmem hfog)

/-- A device that holds an issued package for its key, and asks in time, is authorized by the
record that the fog has of it in the end. -/
theorem verifyAccess_authorizes (hfog : SignsCorrectly P node.signingKey) {key : P.PrivateKey}
    (hkey : SignsCorrectly P key) {actions : List Action} (hq : Issued node actions q)
    (hown : fromhex q.publicKey = .ok (publicKeyBytes P key)) (ex : Exchange)
    (hothers : ∀ e ∈ ex.others,
      Spares (ex.ask.tokenHex 16) (ex.ask.now + NONCE_TTL_SECONDS) e)
    (htime : ex.use.now ≤ ex.ask.now + NONCE_TTL_SECONDS) (resource operation : String)
    (hknown : ((afterActions node Fog.init actions).devices.get? q.did).isSome) :
    (verifyAccess node key ex q.modelDump resource operation
      (afterActions node Fog.init actions)).1 =
    .ok (authorize (asked node ex (.verifyNonce q.did) (afterActions node Fog.init actions)).devices
      q.did (.int q.epochId) (verifyBody key ex q resource operation),
      verifyBody key ex q resource operation) := by
  have haccepted := issued_accepted hfog hq (⟨ex.ask, .verifyNonce q.did⟩ :: ex.others)
  have hstored : (asked node ex (.verifyNonce q.did)
      (afterActions node Fog.init actions)).tokenState.nonces.get? (ex.ask.tokenHex 16) = _ :=
    after_spares (verifyNonce_known node ex.ask hknown).2 hothers
  have hsame : hexOrEmpty q.publicKey = hexOrEmpty (toHex (publicKeyBytes P key)) := by
    simp only [hexOrEmpty, hown, fromhex_toHex]
  have hsignature := signVerifyRequest_valid hkey ex.coins q.did (pyStr P (.int q.epochId))
    (ex.ask.tokenHex 16) resource operation
  rw [← hsame] at hsignature
  have hanswer : (verifyAndAuthorize node ex.use (verifyBody key ex q resource operation)
      (asked node ex (.verifyNonce q.did) (afterActions node Fog.init actions))).1 = _ :=
    verify_authorizes (Accepts.mk hstored rfl rfl rfl htime).consumed (parse_modelDump q)
      haccepted hsignature
  rw [verifyAccess_known node key ex resource operation hknown, hanswer]
  rfl

/-- The device has a record as long as the process lives. -/
theorem asked_record (h : Inv node fog) (ex : Exchange) (request : Request) {rec₀ : DeviceRecord}
    (hrec₀ : fog.devices.get? did = some rec₀) :
    ∃ rec, (asked node ex request fog).devices.get? did = some rec ∧ Advances rec₀ rec :=
  (keeps_after h (⟨ex.ask, request⟩ :: ex.others)).devices did rec₀ hrec₀

/-- A device that holds a package which the fog ever issued for its key, and asks in time,
gets the decision that its record prescribes, whatever the fog does for others meanwhile. -/
theorem verify_access_decided (hfog : SignsCorrectly P node.signingKey) {key : P.PrivateKey}
    (hkey : SignsCorrectly P key) {actions : List Action} (hq : Issued node actions q)
    (hown : fromhex q.publicKey = .ok (publicKeyBytes P key)) (ex : Exchange)
    (hothers : ∀ e ∈ ex.others,
      Spares (ex.ask.tokenHex 16) (ex.ask.now + NONCE_TTL_SECONDS) e)
    (htime : ex.use.now ≤ ex.ask.now + NONCE_TTL_SECONDS) (resource operation : String) :
    VerifyDecided node (afterActions node Fog.init actions) q ex resource operation
      (verifyAccess node key ex q.modelDump resource operation
        (afterActions node Fog.init actions)).1 := by
  constructor
  · intro hnone
    have hdid : getItem q.modelDump "did" = .ok (.str q.did) := rfl
    have hunknown : DeviceStore.exists? (afterActions node Fog.init actions).devices q.did =
        false := by
      simp [DeviceStore.exists?, hnone]
    simp only [verifyAccess, hdid, verifyNonce, hunknown, Bool.false_eq_true, if_false]
    rfl
  · intro hknown
    obtain ⟨rec₀, hrec₀⟩ := Option.isSome_iff_exists.mp hknown
    obtain ⟨rec, hrec, -⟩ := asked_record (inv_afterActions actions) ex (.verifyNonce q.did) hrec₀
    obtain ⟨reason, hstanding, hdecides, hidentified⟩ := authorize_decides hrec
      (.int q.epochId) (verifyBody key ex q resource operation)
    exact ⟨_, _, rec, reason, verifyAccess_authorizes hfog hkey hq hown ex hothers htime resource
      operation hknown, hrec, hstanding, hdecides, hidentified⟩

/-- Between the two requests of the device another nonce is drawn, and the device is
revoked. -/
def revokedMeanwhile : Exchange where
  ask := plainEnv 3 6 none
  others := [plainEvent 3 8 (.verifyNonce (plainDid 7)),
    plainEvent 4 8 (.revoke ⟨plainDid 7, none, false⟩ (some "admin"))]
  use := plainEnv 5 0 none
  coins := 0

theorem revokedMeanwhile_spares : ∀ e ∈ revokedMeanwhile.others,
    Spares (revokedMeanwhile.ask.tokenHex 16)
      (revokedMeanwhile.ask.now + NONCE_TTL_SECONDS) e := by
  decide +kernel

theorem revokedMeanwhile_in_time :
    revokedMeanwhile.use.now ≤ revokedMeanwhile.ask.now + NONCE_TTL_SECONDS ∧
      revokedMeanwhile.use.later ≤ revokedMeanwhile.ask.now + NONCE_TTL_SECONDS := by
  decide +kernel

theorem verify_access_decided_member : ∃ q : ProofPackage,
    VerifyDecided plainNode (afterActions plainNode Fog.init (memberRun.map .request)) q
      revokedMeanwhile "temperature_sensor" "read"
      (verifyAccess plainNode (plainKey 7) revokedMeanwhile q.modelDump "temperature_sensor" "read"
        (afterActions plainNode Fog.init (memberRun.map .request))).1 := by
  obtain ⟨q, hheld, -, -, -, hkey⟩ := memberPackage_held
  rw [← afterActions_requests] at hheld
  have hown : fromhex q.publicKey =
      .ok (publicKeyBytes plainPlatform (plainKey 7)) := by
    rw [hkey]
    exact fromhex_toHex _
  exact ⟨q, verify_access_decided (plain_signsCorrectly (plainKey 1))
    (plain_signsCorrectly (plainKey 7)) ⟨_, List.prefix_refl _, hheld⟩ hown revokedMeanwhile
    revokedMeanwhile_spares revokedMeanwhile_in_time.1 "temperature_sensor" "read"⟩

end verify

section token

variable {tokenId did deviceType role resource operation : String}
  {token : List (String × Json)}

/-- What the fog knows about an operation with a token in its validity. -/
inductive TokenStanding (fog : Fog) (tokenId did deviceType role resource operation : String) :
    String → Prop
  | revoked (h : tokenId ∈ fog.tokenState.revokedTokenIds ∨ Revoked fog did) :
      TokenStanding fog tokenId did deviceType role resource operation "revoked"
  | outOfScope (hlive : tokenId ∉ fog.tokenState.revokedTokenIds ∧ ¬ Revoked fog did)
      (h : ¬ (resource = deviceType ∧ (operation = "read" ∨ operation = "write"))) :
      TokenStanding fog tokenId did deviceType role resource operation "provisional_scope"
  | forbidden (hlive : tokenId ∉ fog.tokenState.revokedTokenIds ∧ ¬ Revoked fog did)
      (hscope : resource = deviceType ∧ (operation = "read" ∨ operation = "write"))
      (hperform : ¬ MayPerform role operation resource) :
      TokenStanding fog tokenId did deviceType role resource operation "policy_denied"
  | allowed (hlive : tokenId ∉ fog.tokenState.revokedTokenIds ∧ ¬ Revoked fog did)
      (hscope : resource = deviceType ∧ (operation = "read" ∨ operation = "write"))
      (hperform : MayPerform role operation resource) :
      TokenStanding fog tokenId did deviceType role resource operation "ok"

/-- What a token says of itself. -/
structure TokenSays (token : List (String × Json)) (tokenId did publicKey deviceType role : String)
    (deadline : ℚ) : Prop where
  token_id : Json.field "token_id" token = some (.str tokenId)
  did_eq : Json.field "did" token = some (.str did)
  key_eq : Json.field "public_key" token = some (.str publicKey)
  type_eq : Json.field "device_type" token = some (.str deviceType)
  role_eq : Json.field "role" token = some (.str role)
  expires : Json.field "expires_at" token = some (.float deadline)
  operations : ∃ ops, Json.field "allowed_operations" token = some ops

theorem decides_tokenDeny {reason : String} (h : reason ≠ "ok") (detectedBy : String) :
    Decides (tokenDeny reason detectedBy) reason where
  reason_eq := by simp [Response.text, Response.field, tokenDeny, Json.field, strField]
  allows_iff := iff_of_false (not_allows_tokenDeny _ _) h

theorem accessRevoked_cases (fog : Fog) (tokenId did : String) :
    (accessRevoked fog tokenId (.str did) = .ok true ∧
        (tokenId ∈ fog.tokenState.revokedTokenIds ∨ Revoked fog did)) ∨
      (accessRevoked fog tokenId (.str did) = .ok false ∧
        tokenId ∉ fog.tokenState.revokedTokenIds ∧ ¬ Revoked fog did) := by
  have hdevice : isDeviceRevoked fog.devices did = true ↔ Revoked fog did := by
    rw [isDeviceRevoked, DeviceStore.get, Revoked]
    cases fog.devices.get? did <;> simp
  have htoken : fog.tokenState.isRevoked tokenId = true ↔
      tokenId ∈ fog.tokenState.revokedTokenIds := List.contains_iff_mem
  rw [← hdevice, ← htoken, accessRevoked]
  cases fog.tokenState.isRevoked tokenId <;> cases isDeviceRevoked fog.devices did <;> simp

/-- What is left to decide about a request that its holder signed. -/
theorem accessDecision_decides {body : TokenAccessRequest} {publicKey : String} {deadline : ℚ}
    (hcontent : TokenSays body.token tokenId did publicKey deviceType role deadline)
    (hpossession : accessSignatureValid P body.token body.nonce body.resource body.operation
      body.signature = true)
    (hlive : tokenId ∉ fog.tokenState.revokedTokenIds ∧ ¬ Revoked fog did) :
    ∃ reason, TokenStanding fog tokenId did deviceType role body.resource body.operation reason ∧
      Decides (respond (accessDecision P body)) reason := by
  obtain ⟨ops, hops⟩ := hcontent.operations
  have hitems : getItem body.token "device_type" = .ok (.str deviceType) ∧
      getItem body.token "role" = .ok (.str role) ∧
      getItem body.token "allowed_operations" = .ok ops :=
    ⟨getItem_ok.mpr hcontent.type_eq, getItem_ok.mpr hcontent.role_eq, getItem_ok.mpr hops⟩
  obtain ⟨htype, hrole, hoperations⟩ := hitems
  simp only [accessDecision, hpossession, htype, hrole, hoperations, bind, Except.bind, if_true]
  by_cases hscope : provisionalAllowed deviceType body.resource body.operation = true
  · rw [if_pos hscope]
    by_cases hpolicy : checkPolicy body.resource body.operation role = true
    · rw [if_pos hpolicy]
      refine ⟨"ok", .allowed hlive (scope_iff.mp hscope) (policy_iff_mayPerform.mp hpolicy), ?_,
        ?_⟩
      · simp [respond, Response.text, Response.field, Json.field, strField]
      · simp [respond, Response.Allows, Response.field, Json.field]
    · rw [if_neg hpolicy]
      exact ⟨_, .forbidden hlive (scope_iff.mp hscope) (mt policy_iff_mayPerform.mpr hpolicy),
        decides_tokenDeny (by decide) _⟩
  · rw [if_neg hscope]
    exact ⟨_, .outOfScope hlive (mt scope_iff.mpr hscope), decides_tokenDeny (by decide) _⟩

theorem tokenExpired_of_says {publicKey : String} {deadline : ℚ}
    (hcontent : TokenSays token tokenId did publicKey deviceType role deadline) (now : ℚ) :
    tokenExpired P token now = .ok (decide (deadline < now)) := by
  simp only [tokenExpired, hcontent.expires, Option.getD_some, pyFloat, PyFloat.exceededBy]

theorem access_expired {body : TokenAccessRequest} {publicKey : String} {deadline : ℚ}
    (hsig : tokenSignatureValid P body.token node.signingKey = true)
    (hcontent : TokenSays body.token tokenId did publicKey deviceType role deadline)
    (hlate : deadline < env.now) :
    Decides (tokensAccess node env body fog).1 "expired" := by
  have hitems : getItem body.token "token_id" = .ok (.str tokenId) ∧
      getItem body.token "did" = .ok (.str did) :=
    ⟨getItem_ok.mpr hcontent.token_id, getItem_ok.mpr hcontent.did_eq⟩
  simp only [tokensAccess, hsig, hitems.1, hitems.2, tokenExpired_of_says hcontent, hlate,
    decide_true, Bool.true_eq_false, if_false]
  exact decides_tokenDeny (by decide) _

theorem access_decides (body : TokenAccessRequest) {publicKey : String} {deadline : ℚ}
    (hsig : tokenSignatureValid P body.token node.signingKey = true)
    (hcontent : TokenSays body.token tokenId did publicKey deviceType role deadline)
    (htime : env.now ≤ deadline)
    (hnonce : (NonceBook.consume fog.tokenState.nonces env.later TOKEN_NONCE_PURPOSE
      (.str tokenId) body.nonce).1 = .ok)
    (hpossession : accessSignatureValid P body.token body.nonce body.resource body.operation
      body.signature = true) :
    ∃ reason, TokenStanding fog tokenId did deviceType role body.resource body.operation reason ∧
      Decides (tokensAccess node env body fog).1 reason := by
  have hitems : getItem body.token "token_id" = .ok (.str tokenId) ∧
      getItem body.token "did" = .ok (.str did) :=
    ⟨getItem_ok.mpr hcontent.token_id, getItem_ok.mpr hcontent.did_eq⟩
  have hlate : ¬ deadline < env.now := Rat.not_lt.mpr htime
  simp only [tokensAccess, hsig, hitems.1, hitems.2, tokenExpired_of_says hcontent, hlate,
    decide_false, hnonce, Bool.true_eq_false, if_false, accessRevoked_nonces]
  rcases accessRevoked_cases fog tokenId did with ⟨hcheck, hrevoked⟩ | ⟨hcheck, hlive⟩
  · rw [hcheck]
    exact ⟨_, .revoked hrevoked, decides_tokenDeny (by decide) _⟩
  · rw [hcheck]
    exact accessDecision_decides hcontent hpossession hlive

/-- What `token_access` returns: for an id that the fog does not know it hands out no nonce,
and else the decision depends on the clock and on what the fog knows in the end. -/
structure TokenDecided (node : Node P) (fog : Fog) (tokenId did deviceType role : String)
    (deadline : ℚ) (ex : Exchange) (resource operation : String)
    (out : Except ClientError (Response × TokenAccessRequest)) : Prop where
  unknown : fog.tokenState.issued.get? tokenId = none →
    out = .error (.runtimeAccess "token nonce" (.error 404 "unknown token_id"))
  late : (fog.tokenState.issued.get? tokenId).isSome → deadline < ex.use.now →
    ∃ r body, out = .ok (r, body) ∧ Decides r "expired"
  known : (fog.tokenState.issued.get? tokenId).isSome → ex.use.now ≤ deadline →
    ∃ r body reason, out = .ok (r, body) ∧ TokenStanding (asked node ex (.tokensNonce tokenId) fog)
      tokenId did deviceType role resource operation reason ∧ Decides r reason

/-- The request that `token_access` sends with the nonce it got. -/
def tokenBody (key : P.PrivateKey) (ex : Exchange) (token : List (String × Json))
    (tokenId did resource operation : String) : TokenAccessRequest where
  token := token
  nonce := ex.ask.tokenHex 16
  resource := resource
  operation := operation
  signature := signAccess P key ex.coins tokenId did (ex.ask.tokenHex 16) resource operation

theorem tokensNonce_known (node : Node P) (env : Env)
    (h : (fog.tokenState.issued.get? tokenId).isSome) :
    (tokensNonce env tokenId fog).1 = .ok [("token_id", .str tokenId),
      ("nonce", .str (env.tokenHex 16)), ("expires_in", .int NONCE_TTL_SECONDS)] ∧
    (step node fog ⟨env, .tokensNonce tokenId⟩).tokenState.nonces.get? (env.tokenHex 16) =
      some ⟨TOKEN_NONCE_PURPOSE, tokenId, env.now + NONCE_TTL_SECONDS, false⟩ := by
  have hknown : fog.tokenState.wasIssued tokenId = true := h
  constructor
  · rw [tokensNonce, if_pos hknown]
  · rw [step, handle, tokensNonce, if_pos hknown]
    exact Dict.get?_set_self _ _ _

theorem tokenAccess_known (node : Node P) (key : P.PrivateKey) (ex : Exchange) {publicKey : String}
    {deadline : ℚ} (hcontent : TokenSays token tokenId did publicKey deviceType role deadline)
    (resource operation : String) (h : (fog.tokenState.issued.get? tokenId).isSome) :
    (tokenAccess node key ex token resource operation fog).1 =
      .ok ((tokensAccess node ex.use (tokenBody key ex token tokenId did resource operation)
        (asked node ex (.tokensNonce tokenId) fog)).1,
        tokenBody key ex token tokenId did resource operation) := by
  have hid : getItem token "token_id" = .ok (.str tokenId) := getItem_ok.mpr hcontent.token_id
  have hdid : getItem token "did" = .ok (.str did) := getItem_ok.mpr hcontent.did_eq
  have hnonce : nonceAnswered "token nonce" (tokensNonce ex.ask tokenId fog).1 =
      .ok (.str (ex.ask.tokenHex 16)) := by
    rw [(tokensNonce_known node ex.ask h).1]
    rfl
  have hbuilt : buildTokenRequest key ex.coins token (.str (ex.ask.tokenHex 16)) resource
      operation = .ok (tokenBody key ex token tokenId did resource operation) := by
    simp only [buildTokenRequest, hid, hdid, encoded, bind, Except.bind]
    rfl
  simp only [tokenAccess, hid, hnonce, useTokenNonce, hbuilt]
  rfl

theorem issueToken_says {t : String} (tokenId did publicKey role : String) (key : P.PrivateKey)
    (coins : ℕ) (epochId ttl : ℤ) (now : ℚ) :
    TokenSays (issueToken P tokenId did publicKey (some t) (some role) key coins epochId ttl now).1
      tokenId did publicKey t role (now + ttl) := by
  constructor <;> simp [issueToken, tokenFields, Json.field, textOrNull]

theorem Issues.says {e : Event} {record : DeviceRecord} {token : List (String × Json)}
    (h : Issues node fog e did record token) : ∃ t role,
      record.deviceType = some t ∧ record.role = some role ∧ MayHold t role ∧
      TokenSays token (e.env.tokenHex 8) did record.publicKey t role
        (e.env.later + TOKEN_TTL_SECONDS) := by
  obtain ⟨t, role, ht, hr, hhold⟩ := mayHold_of_valid h.role_valid
  refine ⟨t, role, ht, hr, hhold, ?_⟩
  rw [h.token_eq, ht, hr]
  exact issueToken_says _ _ _ _ _ _ _ _ _

theorem issues_of_request (h : Inv node fog) {sessionId : String}
    (hrequest : (requestToken node env sessionId fog).1 = .ok token) :
    ∃ did record, (fog.sessions.get? sessionId).bind Session.did = some did ∧
      Issues node fog ⟨env, .tokensIssue sessionId⟩ did record token := by
  have he := tokensIssue_effect node env fog sessionId
  have hans : (tokensIssue node env sessionId fog).1 = .ok token := by
    rw [requestToken] at hrequest
    simp only at hrequest
    cases hr : (tokensIssue node env sessionId fog).1 with
    | ok body =>
      rw [hr] at hrequest
      cases hrequest
      rfl
    | _ =>
      rw [hr] at hrequest
      cases hrequest
  rw [hans] at he
  generalize hfog : (tokensIssue node env sessionId fog).2 = fog' at he
  generalize hreq : Request.tokensIssue sessionId = request at he
  generalize hres : Response.ok token = r at he
  cases he with
  | read hread => rw [← hreq] at hread; exact hread.elim
  | refused hr => exact absurd hres.symm (hr token)
  | challenged hask => rw [← hreq] at hask; exact hask.elim
  | presented hp => rw [← hreq] at hp; exact hp.elim
  | issued hs hstate hdid hrec hrev hreg hrole =>
    cases hreq
    cases hres
    exact ⟨_, _, by rw [hs]; exact hdid, ⟨_, rfl⟩, hans, rfl, hrec,
      (h.accepted hs hstate hdid hrec).2, hrole⟩
  | _ => cases hreq

/-- A device that obtained a token for its key, and uses it in time after it asks for a nonce,
gets the decision that clock, revocations, scope and policy prescribe, whatever the fog does
for others meanwhile. -/
theorem token_access_decided (hfog : SignsCorrectly P node.signingKey) {key : P.PrivateKey}
    (hkey : SignsCorrectly P key) (earlier later : List Action) (sessionId : String)
    {publicKey : String}
    (htoken : (requestToken node env sessionId (afterActions node Fog.init earlier)).1 = .ok token)
    (hpublic : Json.field "public_key" token = some (.str publicKey))
    (hown : fromhex publicKey = .ok (publicKeyBytes P key)) (ex : Exchange)
    (hothers : ∀ e ∈ ex.others,
      Spares (ex.ask.tokenHex 16) (ex.ask.now + NONCE_TTL_SECONDS) e)
    (htime : ex.use.later ≤ ex.ask.now + NONCE_TTL_SECONDS) (resource operation : String) :
    ∃ tokenId did t role, TokenSays token tokenId did publicKey t role
        (env.later + TOKEN_TTL_SECONDS) ∧ MayHold t role ∧
      TokenDecided node
        (afterActions node Fog.init (earlier ++ .request ⟨env, .tokensIssue sessionId⟩ :: later))
        tokenId did t role (env.later + TOKEN_TTL_SECONDS) ex resource operation
        (tokenAccess node key ex token resource operation (afterActions node Fog.init
          (earlier ++ .request ⟨env, .tokensIssue sessionId⟩ :: later))).1 := by
  obtain ⟨did, record, -, hissues⟩ := issues_of_request (inv_afterActions earlier) htoken
  obtain ⟨t, role, ht, hr, hhold, hcontent⟩ := hissues.says
  rw [hcontent.key_eq, Option.some.injEq, Json.str.injEq] at hpublic
  rw [hpublic] at hcontent
  have hsig : tokenSignatureValid P token node.signingKey = true := by
    rw [hissues.token_eq]
    exact issueToken_valid hfog ..
  refine ⟨_, did, t, role, hcontent, hhold, ?_⟩
  generalize afterActions node Fog.init
    (earlier ++ .request ⟨env, .tokensIssue sessionId⟩ :: later) = fog
  have hpossession : accessSignatureValid P token (ex.ask.tokenHex 16) resource operation
      (signAccess P key ex.coins (env.tokenHex 8) did (ex.ask.tokenHex 16) resource
        operation) = true := by
    simp only [accessSignatureValid, hcontent.key_eq, hcontent.token_id, hcontent.did_eq, hown,
      signAccess, fromhex_toHex]
    exact hkey _ _
  constructor
  · intro hnone
    have hid : getItem token "token_id" = .ok (.str (env.tokenHex 8)) :=
      getItem_ok.mpr hcontent.token_id
    have hunknown : fog.tokenState.wasIssued (env.tokenHex 8) = false := by
      rw [TokenState.wasIssued, hnone]
      rfl
    simp only [tokenAccess, hid, tokensNonce, hunknown, Bool.false_eq_true, if_false]
    rfl
  · intro hknown hlate
    exact ⟨_, _, tokenAccess_known node key ex hcontent resource operation hknown,
      access_expired hsig hcontent hlate⟩
  · intro hknown hvalid
    have hstored : (asked node ex (.tokensNonce (env.tokenHex 8)) fog).tokenState.nonces.get?
        (ex.ask.tokenHex 16) = _ :=
      after_spares (tokensNonce_known node ex.ask hknown).2 hothers
    have hdecided : ∃ reason, TokenStanding (asked node ex (.tokensNonce (env.tokenHex 8)) fog)
        (env.tokenHex 8) did t role resource operation reason ∧
        Decides (tokensAccess node ex.use (tokenBody key ex token (env.tokenHex 8) did resource
          operation) (asked node ex (.tokensNonce (env.tokenHex 8)) fog)).1 reason :=
      access_decides (tokenBody key ex token (env.tokenHex 8) did resource operation) hsig hcontent
        hvalid (Accepts.mk hstored rfl rfl rfl htime).consumed hpossession
    obtain ⟨reason, hstanding, hdecides⟩ := hdecided
    exact ⟨_, _, reason, tokenAccess_known node key ex hcontent resource operation hknown,
      hstanding, hdecides⟩

theorem firstDevice_token : ∃ token publicKey,
    (requestToken plainNode (plainEnv 1 9 none) (toHex (List.replicate 16 7))
      (afterActions plainNode Fog.init firstDevice)).1 = .ok token ∧
    Json.field "public_key" token = some (.str publicKey) ∧
    fromhex publicKey = .ok (publicKeyBytes plainPlatform (plainKey 7)) := by
  have hfog : afterActions plainNode Fog.init firstDevice = queuedFog :=
    afterActions_requests _ _
  have hinv : Inv plainNode queuedFog := hfog ▸ inv_afterActions firstDevice
  rw [hfog]
  obtain ⟨hdid, ⟨record, hrec, hkey, -⟩, -, hok⟩ := queuedFog_device
  obtain ⟨token, hans⟩ := exists_of_succeeds hok
  have hanswer : (tokensIssue plainNode (plainEnv 1 9 none) (toHex (List.replicate 16 7))
      queuedFog).1 = .ok token := hans
  have hrequest : (requestToken plainNode (plainEnv 1 9 none) (toHex (List.replicate 16 7))
      queuedFog).1 = .ok token := by
    rw [requestToken]
    simp only [hanswer]
    rfl
  obtain ⟨did, record', hdid', hissues⟩ := issues_of_request hinv hrequest
  obtain ⟨t, role, -, -, -, hcontent⟩ := hissues.says
  rw [hdid] at hdid'
  cases hdid'
  have hget := hissues.get
  rw [hrec] at hget
  cases hget
  refine ⟨token, record.publicKey, hrequest, hcontent.key_eq, ?_⟩
  rw [hkey]
  exact fromhex_toHex _

theorem token_access_decided_first : ∃ token tokenId did publicKey t role,
    TokenSays token tokenId did publicKey t role
      ((plainEnv 1 9 none).later + TOKEN_TTL_SECONDS) ∧ MayHold t role ∧
    TokenDecided plainNode
      (afterActions plainNode Fog.init (firstDevice ++
        .request ⟨plainEnv 1 9 none, .tokensIssue (toHex (List.replicate 16 7))⟩ :: []))
      tokenId did t role ((plainEnv 1 9 none).later + TOKEN_TTL_SECONDS) revokedMeanwhile
      "temperature_sensor" "read"
      (tokenAccess plainNode (plainKey 7) revokedMeanwhile token "temperature_sensor" "read"
        (afterActions plainNode Fog.init (firstDevice ++
          .request ⟨plainEnv 1 9 none, .tokensIssue (toHex (List.replicate 16 7))⟩ :: []))).1 := by
  obtain ⟨token, publicKey, htoken, hpublic, hown⟩ := firstDevice_token
  obtain ⟨tokenId, did, t, role, hdecided⟩ := token_access_decided
    (plain_signsCorrectly (plainKey 1)) (plain_signsCorrectly (plainKey 7)) firstDevice []
    (toHex (List.replicate 16 7)) htoken hpublic hown revokedMeanwhile revokedMeanwhile_spares
    revokedMeanwhile_in_time.2 "temperature_sensor" "read"
  exact ⟨token, tokenId, did, publicKey, t, role, hdecided⟩

end token

end FogNode.Proofs
