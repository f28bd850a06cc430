import FogNode.Proofs.Effects

namespace FogNode.Proofs

open FogNode.Library FogNode.Source

variable {P : Platform} {node : Node P} {id : String}

/-- The session that a request presents. -/
def presentedSession : Request → Option String
  | .registerPubkey body => some body.sessionId
  | .registerPop body => some body.sessionId
  | .registerMetadata body => some body.sessionId
  | .tokensIssue sessionId => some sessionId
  | _ => none

/-- The session id that a request draws. -/
def drawnSession (e : Event) : Option String :=
  match e.request with
  | .registerStart _ => some (e.env.tokenHex 16)
  | _ => none

/-- Nothing happened to sessions of other ids. -/
def OnlySession (j : String) (sessions sessions' : SessionStore) : Prop :=
  ∀ id, id ≠ j → sessions'.get? id = sessions.get? id

theorem onlySession_get (sessions : SessionStore) (ttl : ℤ) (now : ℚ) (j : String) :
    (∃ sessions', SessionStore.get sessions ttl now j = (none, sessions') ∧
      OnlySession j sessions sessions') ∨
    ∃ s, SessionStore.get sessions ttl now j = (some s, sessions) ∧ s.sessionId = j := by
  unfold SessionStore.get
  cases hs : sessions.get? j with
  | none => exact .inl ⟨_, rfl, fun _ _ ↦ rfl⟩
  | some s =>
    by_cases hexp : s.createdAt + ttl < now
    · refine .inl ⟨_, if_pos hexp, fun id hid ↦ ?_⟩
      rw [Table.get?_erase, if_neg hid]
    · exact .inr ⟨s, if_neg hexp, Table.key_of_get? hs⟩

theorem onlySession_write (sessions : SessionStore) (s : Session) :
    OnlySession s.sessionId sessions (SessionStore.write sessions s) := by
  intro id hid
  unfold SessionStore.write
  cases sessions.get? s.sessionId with
  | none => rfl
  | some _ => exact (Table.get?_add _ _ _).trans (if_neg hid)

theorem registerPubkey_only (node : Node P) (env : Env) (fog : Fog) (body : PublicKeyRequest) :
    OnlySession body.sessionId fog.sessions (registerPubkey node env body fog).2.sessions := by
  unfold registerPubkey
  rcases onlySession_get fog.sessions node.sessionTtl env.now body.sessionId with
    ⟨sessions, hget, honly⟩ | ⟨s, hget, hid⟩
  · simp only [hget]
    exact honly
  simp only [hget]
  split
  · exact fun _ _ ↦ rfl
  cases validPublicKey P body.publicKey with
  | error e => exact fun _ _ ↦ rfl
  | ok pk =>
    dsimp only
    split
    · exact fun _ _ ↦ rfl
    cases DeviceStore.get fog.devices body.did with
    | some existing => exact fun _ _ ↦ rfl
    | none =>
      dsimp only
      split
      · exact fun _ _ ↦ rfl
      · rw [← hid]
        exact onlySession_write fog.sessions (submitted node env s body)

theorem verifyPop_id (s : Session) (signatureHex : String) (now : ℚ) :
    (verifyPop P s signatureHex now).2.sessionId = s.sessionId := by
  rcases verifyPop_session (P := P) s signatureHex now with ⟨h, -⟩ | h
  · rw [h]
  · rw [h]

theorem registerPop_only (node : Node P) (env : Env) (fog : Fog) (body : PopRequest) :
    OnlySession body.sessionId fog.sessions (registerPop node env body fog).2.sessions := by
  unfold registerPop
  rcases onlySession_get fog.sessions node.sessionTtl env.now body.sessionId with
    ⟨sessions, hget, honly⟩ | ⟨s, hget, hid⟩
  · simp only [hget]
    exact honly
  simp only [hget]
  split
  · exact fun _ _ ↦ rfl
  have hid' := (verifyPop_id (P := P) s body.signature env.later).trans hid
  generalize verifyPop P s body.signature env.later = out at hid'
  obtain ⟨result, s'⟩ := out
  rw [← hid']
  cases result with
  | error e => exact onlySession_write fog.sessions s'
  | ok passed =>
    obtain ⟨passed, reason⟩ := passed
    cases passed with
    | false => exact onlySession_write fog.sessions { s' with state := .authenticated }
    | true =>
      have hwrite := onlySession_write fog.sessions { s' with state := .popVerified }
      dsimp only
      split
      · exact hwrite
      · exact hwrite

theorem registerMetadata_only (node : Node P) (env : Env) (fog : Fog) (body : MetadataRequest) :
    OnlySession body.sessionId fog.sessions (registerMetadata node env body fog).2.sessions := by
  unfold registerMetadata
  rcases onlySession_get fog.sessions node.sessionTtl env.now body.sessionId with
    ⟨sessions, hget, honly⟩ | ⟨s, hget, hid⟩
  · simp only [hget]
    exact honly
  simp only [hget]
  split
  · exact fun _ _ ↦ rfl
  split
  · exact fun _ _ ↦ rfl
  split
  · exact fun _ _ ↦ rfl
  split
  · exact fun _ _ ↦ rfl
  split
  · exact fun _ _ ↦ rfl
  · exact fun _ _ ↦ rfl
  · rw [← hid]
    exact onlySession_write fog.sessions { s with state := .metadataAccepted }

theorem tokensIssue_only (node : Node P) (env : Env) (fog : Fog) (sessionId : String) :
    OnlySession sessionId fog.sessions (tokensIssue node env sessionId fog).2.sessions := by
  unfold tokensIssue
  rcases onlySession_get fog.sessions node.sessionTtl env.now sessionId with
    ⟨sessions, hget, honly⟩ | ⟨s, hget, -⟩
  · simp only [hget]
    exact honly
  simp only [hget]
  split
  · exact fun _ _ ↦ rfl
  split
  · exact fun _ _ ↦ rfl
  · split_ifs <;> exact fun _ _ ↦ rfl

theorem epochClose_sessions (node : Node P) (env : Env) (fog : Fog) (excludeDids : List String)
    (adminKey : Option String) :
    (epochClose node env excludeDids adminKey fog).2.sessions = fog.sessions := by
  unfold epochClose
  split
  · rfl
  obtain ⟨out, fog', hout, hcases⟩ := finalizeEpoch_cases node env excludeDids fog
  have hsessions : fog'.sessions = fog.sessions := by cases hcases <;> rfl
  rw [hout]
  split <;> rename_i h <;> cases h <;> exact hsessions

theorem revoke_sessions (node : Node P) (fog : Fog) (body : RevokeRequest)
    (adminKey : Option String) : (revoke node body adminKey fog).2.sessions = fog.sessions := by
  unfold revoke
  split
  · rfl
  split
  · split
    · rfl
    · rfl
    split
    · rfl
    unfold revokeToken
    split_ifs
    · dsimp only
      cases DeviceStore.get fog.devices body.did <;> rfl
    · rfl
  · unfold revokeDevice
    cases DeviceStore.get fog.devices body.did <;> rfl

theorem registerStart_untouched (node : Node P) (env : Env) (fog : Fog)
    (authorization : Option String) (hdrawn : env.tokenHex 16 ≠ id) :
    (registerStart node env authorization fog).2.sessions.get? id = fog.sessions.get? id := by
  unfold registerStart
  cases parseAuthorization authorization with
  | none => rfl
  | some cred =>
    obtain ⟨provId, psk⟩ := cred
    dsimp only
    split
    · exact (Table.get?_add _ _ _).trans (if_neg fun heq ↦ hdrawn heq.symm)
    · rfl

/-- A session is as it was unless the request presents it or draws its id. -/
theorem session_untouched (node : Node P) (fog : Fog) {e : Event}
    (hpresented : presentedSession e.request ≠ some id)
    (hdrawn : drawnSession e ≠ some id) :
    (step node fog e).sessions.get? id = fog.sessions.get? id := by
  have hne : ∀ j, presentedSession e.request = some j → id ≠ j := fun j hj hid ↦
    hpresented (hid ▸ hj)
  obtain ⟨env, request⟩ := e
  cases request with
  | registerStart authorization =>
    exact registerStart_untouched node env fog authorization fun heq ↦ hdrawn (congrArg some heq)
  | registerPubkey body => exact registerPubkey_only node env fog body id (hne _ rfl)
  | registerPop body => exact registerPop_only node env fog body id (hne _ rfl)
  | registerMetadata body => exact registerMetadata_only node env fog body id (hne _ rfl)
  | tokensIssue sessionId => exact tokensIssue_only node env fog sessionId id (hne _ rfl)
  | epochClose excludeDids adminKey =>
    simp only [step, handle, epochClose_sessions]
  | revoke body adminKey =>
    simp only [step, handle, revoke_sessions]
  | tokensNonce tokenId =>
    simp only [step, handle, tokensNonce]
    split <;> rfl
  | verifyNonce did =>
    simp only [step, handle, verifyNonce]
    split <;> rfl
  | tokensAccess body =>
    obtain ⟨nonces, -, h⟩ := tokensAccess_nonces node env fog body
    simp only [step, handle, h]
  | verify body =>
    simp only [step, handle, verifyAndAuthorize_nonces]
  | epochCurrent => rfl
  | proof did epochId => rfl
  | registryRoot epochId => rfl
  | revocationStatus did => rfl

end FogNode.Proofs
