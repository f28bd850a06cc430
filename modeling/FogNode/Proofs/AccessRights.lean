import FogNode.Proofs.DeviceAccess

namespace FogNode.Proofs

open FogNode.Library FogNode.Source

variable {P : Platform} {node : Node P} {env : Env} {fog : Fog} {key : P.PrivateKey}
  {token : List (String × Json)} {ex : Exchange} {resource operation : String} {r : Response}
  {body : TokenAccessRequest}

theorem buildTokenRequest_ok {coins : ℕ} {nonce : Json}
    (h : buildTokenRequest key coins token nonce resource operation = .ok body) :
    body.token = token ∧ body.resource = resource ∧ body.operation = operation := by
  simp only [buildTokenRequest, bind, Except.bind] at h
  cases htid : getItem token "token_id" with
  | error e => simp only [htid, reduceCtorEq] at h
  | ok tid =>
    cases hdid : getItem token "did" with
    | error e => simp only [htid, hdid, reduceCtorEq] at h
    | ok did =>
      simp only [htid, hdid] at h
      split at h
      · cases h
      split at h
      · cases h
      split at h
      · cases h
      cases h
      exact ⟨rfl, rfl, rfl⟩

/-- What `token_access` returns is an answer of the fog to a request with that token. -/
theorem tokenAccess_sends (h : (tokenAccess node key ex token resource operation fog).1 =
      .ok (r, body)) :
    body.token = token ∧ body.resource = resource ∧ body.operation = operation ∧
      ∃ fog', r = (tokensAccess node ex.use body fog').1 := by
  unfold tokenAccess at h
  split at h
  · cases h
  · dsimp only at h
    split at h
    · cases h
    · unfold useTokenNonce at h
      split at h
      · cases h
      case h_2 body' hbuilt =>
        cases h
        obtain ⟨htoken, hresource, hoperation⟩ := buildTokenRequest_ok hbuilt
        exact ⟨htoken, hresource, hoperation, _, rfl⟩
  · cases h

/-- The reason that a record alone gives, whatever its role, its type and the policy. -/
inductive ByStatus (rec : DeviceRecord) : String → Prop
  | revoked (h : rec.status = .revoked) : ByStatus rec "device_revoked"
  | waiting (h : rec.status = .pending ∨ rec.status = .tokenized) : ByStatus rec "not_registered"
  | registered (h : rec.status = .registered) : ByStatus rec "ok"

/-- A record that says what a token said allows as a member what was allowed with the token. -/
theorem Standing.of_token {rec : DeviceRecord} {t role reason : String}
    (h : Standing rec resource operation reason) (ht : rec.deviceType = some t)
    (hrole : rec.role = some role) (hhold : MayHold t role)
    (hperform : MayPerform role operation resource) : ByStatus rec reason := by
  cases h with
  | revoked hstatus => exact .revoked hstatus
  | waiting hstatus => exact .waiting hstatus
  | mismatched _ hnot => exact absurd hhold (hnot t role ht hrole)
  | forbidden _ ht' hrole' _ hnot =>
    rw [hrole] at hrole'
    cases hrole'
    exact absurd hperform hnot
  | allowed hstatus => exact .registered hstatus

theorem ByStatus.ok_iff {rec : DeviceRecord} {reason : String} (h : ByStatus rec reason) :
    reason = "ok" ↔ rec.status = .registered := by
  cases h with
  | revoked hstatus => simp [hstatus]
  | waiting hstatus => rcases hstatus with hstatus | hstatus <;> simp [hstatus]
  | registered hstatus => exact iff_of_true rfl hstatus

/-- An operation that a device was allowed with a token it is allowed as a member, and only
then: registration takes no right away. -/
theorem token_rights_kept (hfog : SignsCorrectly P node.signingKey)
    (hkey : SignsCorrectly P key) (earlier used : List Action) (later : List Event)
    (sessionId : String) {actions : List Action} {q : ProofPackage} {body : TokenAccessRequest}
    {key' : P.PrivateKey}
    (hactions : actions = earlier ++ .request ⟨env, .tokensIssue sessionId⟩ :: later.map .request)
    (htoken : (requestToken node env sessionId (afterActions node Fog.init earlier)).1 = .ok token)
    (hsame : Json.field "did" token = some (.str q.did))
    (haccess : (tokenAccess node key' ex token resource operation
      (afterActions node Fog.init used)).1 = .ok (r, body)) (hallows : r.Allows)
    (hq : Issued node actions q) (hown : fromhex q.publicKey = .ok (publicKeyBytes P key))
    (ex' : Exchange) (hothers : ∀ e ∈ ex'.others,
      Spares (ex'.ask.tokenHex 16) (ex'.ask.now + NONCE_TTL_SECONDS) e)
    (htime : ex'.use.now ≤ ex'.ask.now + NONCE_TTL_SECONDS) :
    ∃ r' body' rec reason, (verifyAccess node key ex' q.modelDump resource operation
        (afterActions node Fog.init actions)).1 = .ok (r', body') ∧
      (asked node ex' (.verifyNonce q.did) (afterActions node Fog.init actions)).devices.get?
        q.did = some rec ∧ (r'.Allows ↔ rec.status = .registered) ∧
      r'.text "reason" = some reason ∧ ByStatus rec reason := by
  have hinv : Inv node (afterActions node Fog.init earlier) := inv_afterActions earlier
  obtain ⟨did, record, -, hissues⟩ := issues_of_request hinv htoken
  obtain ⟨t, role, ht, hrole, hhold, hcontent⟩ := hissues.says
  rw [hcontent.did_eq, Option.some.injEq, Json.str.injEq] at hsame
  subst hsame
  have hperform : MayPerform role operation resource := by
    obtain ⟨hbody, hresource, hoperation, fog', rfl⟩ := tokenAccess_sends haccess
    obtain ⟨tokenId, j, ownType, role', hadmitted⟩ := access_allows hallows
    have hrole' := hadmitted.role_eq
    rw [hbody, hcontent.role_eq] at hrole'
    cases hrole'
    have hpolicy := hadmitted.policy
    rw [hresource, hoperation] at hpolicy
    exact policy_iff_mayPerform.mp hpolicy
  have hlater : afterActions node Fog.init actions =
      after node (afterActions node Fog.init earlier) (⟨env, .tokensIssue sessionId⟩ :: later) := by
    rw [hactions, afterActions, run_append]
    exact afterActions_requests _ (⟨env, .tokensIssue sessionId⟩ :: later)
  have hinv' : Inv node (afterActions node Fog.init actions) := inv_afterActions actions
  obtain ⟨rec₀, hrec₀, hadv₀⟩ : ∃ rec₀, (afterActions node Fog.init actions).devices.get? q.did =
      some rec₀ ∧ Advances record rec₀ := by
    rw [hlater]
    exact (keeps_after hinv _).devices _ record hissues.get
  obtain ⟨rec, hrec, hadv⟩ := asked_record hinv' ex' (.verifyNonce q.did) hrec₀
  obtain ⟨reason, hstanding, hdecides, -⟩ := authorize_decides hrec (.int q.epochId)
    (verifyBody key ex' q resource operation)
  obtain ⟨-, htype, -, -, hsamerole⟩ := (hadv₀.trans _ _ _ hadv).profile_eq hissues.queued
  have hstatus : ByStatus rec reason :=
    hstanding.of_token (htype.trans ht) (hsamerole.trans hrole) hhold hperform
  exact ⟨_, _, rec, reason, verifyAccess_authorizes hfog hkey hq hown ex' hothers htime resource
    operation (Option.isSome_iff_exists.mpr ⟨rec₀, hrec₀⟩), hrec,
    hdecides.allows_iff.trans hstatus.ok_iff, hdecides.reason_eq, hstatus⟩

/-- The device gets a token while it waits, and then the epoch closes. -/
def rightsRun : List Event :=
  [plainEvent 1 9 (.tokensIssue (toHex (List.replicate 16 7))),
    plainEvent 2 3 (.epochClose [] (some "admin"))]

/-- The device uses its token before the epoch closes, or its package after. -/
def undisturbedUse : Exchange where
  ask := plainEnv 2 5 none
  others := []
  use := plainEnv 3 0 none
  coins := 0

theorem rightsRun_ready :
    ((after plainNode queuedFog (rightsRun.take 1)).tokenState.issued.get?
      (toHex (List.replicate 8 9))).isSome ∧
    ∃ pkgs ∈ (after plainNode queuedFog rightsRun).epochs.packages.get? 1, ∃ q ∈ pkgs.values,
      q.did = plainDid 7 ∧ q.epochId = 1 ∧
        q.publicKey = toHex (plainPlatform.publicBytes (plainKey 7)) := by
  decide +kernel

theorem firstDevice_then (events : List Event) :
    afterActions plainNode Fog.init (firstDevice ++ events.map .request) =
      after plainNode queuedFog events := by
  rw [firstDevice, ← List.map_append, afterActions_requests, after, run_append, queuedFog]

theorem queuedFog_token :
    (requestToken plainNode (plainEnv 1 9 none) (toHex (List.replicate 16 7))
      (afterActions plainNode Fog.init firstDevice)).1 = .ok ownRequest.token := by
  obtain ⟨token, -, htoken, -, -⟩ := firstDevice_token
  rw [htoken]
  have hfog : afterActions plainNode Fog.init firstDevice = queuedFog :=
    afterActions_requests _ _
  have hinv : Inv plainNode (afterActions plainNode Fog.init firstDevice) := inv_afterActions _
  obtain ⟨did, record, hdid, hissues⟩ := issues_of_request hinv htoken
  have hget := hissues.get
  have htext := hissues.token_eq
  rw [hfog] at hdid hget htext
  obtain ⟨hdid', ⟨record', hrec, hkey, htype, hrole⟩, hepoch, -⟩ := queuedFog_device
  rw [hdid'] at hdid
  cases hdid
  rw [hrec] at hget
  cases hget
  rw [htext, hkey, htype, hrole, hepoch]
  rfl

theorem ownToken_used : ∃ r, (tokenAccess plainNode (plainKey 7) undisturbedUse ownRequest.token
    "temperature_sensor" "read" (afterActions plainNode Fog.init firstToken)).1 =
      .ok (r, ownRequest) ∧ r.Allows := by
  have hcontent : TokenSays ownRequest.token (toHex (List.replicate 8 9)) (plainDid 7)
      (toHex (plainPlatform.publicBytes (plainKey 7))) "temperature_sensor" "sensor"
      (1 + TOKEN_TTL_SECONDS) := issueToken_says _ _ _ _ _ _ _ _ _
  have hfog : afterActions plainNode Fog.init firstToken =
      after plainNode queuedFog (rightsRun.take 1) := firstDevice_then (rightsRun.take 1)
  have hasked : ∀ fog, asked plainNode undisturbedUse (.tokensNonce (toHex (List.replicate 8 9)))
      (after plainNode fog (rightsRun.take 1)) = after plainNode fog
        [plainEvent 1 9 (.tokensIssue (toHex (List.replicate 16 7))),
          plainEvent 2 5 (.tokensNonce (toHex (List.replicate 8 9)))] := fun _ ↦ rfl
  have hrun : after plainNode Fog.init tokenRun = after plainNode queuedFog
      [plainEvent 1 9 (.tokensIssue (toHex (List.replicate 16 7))),
        plainEvent 2 5 (.tokensNonce (toHex (List.replicate 8 9)))] := by
    rw [tokenRun, after, run_append, queuedFog]
  have hanswer := tokenAccess_known plainNode (plainKey 7) undisturbedUse hcontent
    "temperature_sensor" "read" rightsRun_ready.1
  rw [hasked, ← hrun] at hanswer
  rw [hfog]
  exact ⟨_, hanswer, ownRequest_admitted.allows⟩

theorem token_rights_kept_member : ∃ (q : ProofPackage) (r : Response) (body : VerifyRequest)
    (rec : DeviceRecord) (reason : String),
    (verifyAccess plainNode (plainKey 7) undisturbedUse q.modelDump "temperature_sensor" "read"
      (afterActions plainNode Fog.init (firstDevice ++ rightsRun.map .request))).1 =
        .ok (r, body) ∧
    (asked plainNode undisturbedUse (.verifyNonce q.did) (afterActions plainNode Fog.init
      (firstDevice ++ rightsRun.map .request))).devices.get? q.did = some rec ∧
    (r.Allows ↔ rec.status = .registered) ∧ r.text "reason" = some reason ∧
    ByStatus rec reason := by
  obtain ⟨-, pkgs, hpkgs, q, hq, hdid, hepoch, hkey⟩ := rightsRun_ready
  obtain ⟨r, haccess, hallows⟩ := ownToken_used
  have hissued : Issued plainNode (firstDevice ++ rightsRun.map .request) q := by
    refine ⟨_, List.prefix_refl _, pkgs, ?_, hq⟩
    rw [hepoch, firstDevice_then]
    exact hpkgs
  have hown : fromhex q.publicKey = .ok (publicKeyBytes plainPlatform (plainKey 7)) := by
    rw [hkey]
    exact fromhex_toHex _
  exact ⟨q, token_rights_kept (plain_signsCorrectly (plainKey 1))
    (plain_signsCorrectly (plainKey 7)) firstDevice firstToken (rightsRun.drop 1)
    (toHex (List.replicate 16 7)) rfl queuedFog_token
    (by rw [hdid]; exact ownRequest_admitted.did_eq) haccess hallows hissued hown undisturbedUse
    (by simp [undisturbedUse]) (by decide +kernel)⟩

end FogNode.Proofs
