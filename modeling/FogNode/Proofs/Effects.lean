import FogNode.Proofs.Finalize
import FogNode.Source.Main

namespace FogNode.Proofs

open FogNode.Library FogNode.Source

variable {P : Platform}

/-- The sessions after a look-up, which deletes the session if it has expired. -/
def Lapsed (sessions sessions' : SessionStore) : Prop :=
  sessions' = sessions ∨ ∃ id, sessions' = sessions.erase id

theorem session_get (sessions : SessionStore) (ttl : ℤ) (now : ℚ) (id : String) :
    (∃ sessions', SessionStore.get sessions ttl now id = (none, sessions') ∧
      Lapsed sessions sessions') ∨
    ∃ s, SessionStore.get sessions ttl now id = (some s, sessions) ∧
      sessions.get? id = some s := by
  unfold SessionStore.get
  cases hs : sessions.get? id with
  | none => exact .inl ⟨_, rfl, .inl rfl⟩
  | some s =>
    by_cases hexp : s.createdAt + ttl < now
    · exact .inl ⟨_, if_pos hexp, .inr ⟨id, rfl⟩⟩
    · exact .inr ⟨s, if_neg hexp, rfl⟩

theorem session_found {sessions sessions' : SessionStore} {ttl : ℤ} {now : ℚ} {id : String}
    {s : Session} (h : SessionStore.get sessions ttl now id = (some s, sessions')) :
    sessions.get? id = some s ∧ sessions' = sessions := by
  rcases session_get sessions ttl now id with ⟨_, hget, -⟩ | ⟨t, hget, ht⟩
  · rw [hget] at h
    cases h
  · rw [hget] at h
    cases h
    exact ⟨ht, rfl⟩

theorem session_write {sessions : SessionStore} {s : Session} {id : String}
    (h : sessions.get? id = some s) (s' : Session) (hid : s'.sessionId = s.sessionId) :
    SessionStore.write sessions s' = sessions.add s' := by
  simp only [SessionStore.write, hid, Table.get?_key h]

/-- The session once a key is submitted in it. -/
def submitted (node : Node P) (env : Env) (s : Session) (body : PublicKeyRequest) : Session :=
  { issueChallenge { s with did := some body.did, publicKey := some body.publicKey }
      (env.tokenHex 32) env.later node.challengeTtl with state := .keySubmitted }

/-- The nonces after a request presented one. -/
def Spent (book book' : NonceBook) : Prop :=
  book' = book ∨ (∃ n, book' = book.erase n) ∨
    ∃ n entry, book.get? n = some entry ∧ entry.used = false ∧
      book' = book.set n { entry with used := true }

theorem consume_spent (book : NonceBook) (now : ℚ) (purpose : String) (subject : Json)
    (nonce : String) : Spent book (NonceBook.consume book now purpose subject nonce).2 := by
  unfold NonceBook.consume
  cases hn : book.get? nonce with
  | none => exact .inl rfl
  | some entry =>
    cases subject with
    | str subject =>
      dsimp only
      split_ifs with h₁ h₂ h₃
      · exact .inl rfl
      · exact .inl rfl
      · exact .inr (.inl ⟨nonce, rfl⟩)
      · exact .inr (.inr ⟨nonce, entry, hn, by simpa using h₂, rfl⟩)
    | _ => exact .inl rfl

/-- The token state after a revocation that reaches the listed tokens. -/
structure Revokes (tokenIds : List String) (state state' : TokenState) : Prop where
  issued_eq : state'.issued = state.issued
  nonces_eq : state'.nonces = state.nonces
  keeps : ∀ t ∈ state.revokedTokenIds, t ∈ state'.revokedTokenIds
  reaches : ∀ t ∈ tokenIds, t ∈ state'.revokedTokenIds

theorem revoke_revokes (state : TokenState) (tokenId : String) :
    Revokes [tokenId] state (state.revoke tokenId) :=
  ⟨rfl, rfl, fun _ h ↦ List.mem_cons_of_mem _ h,
    fun _ h ↦ List.mem_singleton.mp h ▸ List.mem_cons_self⟩

theorem Revokes.trans {l m : List String} {s t u : TokenState} (h : Revokes l s t)
    (h' : Revokes m t u) : Revokes (l ++ m) s u where
  issued_eq := h'.issued_eq.trans h.issued_eq
  nonces_eq := h'.nonces_eq.trans h.nonces_eq
  keeps x hx := h'.keeps x (h.keeps x hx)
  reaches x hx := (List.mem_append.mp hx).elim (fun hl ↦ h'.keeps x (h.reaches x hl))
    (h'.reaches x)

theorem revokeAll_revokes (state : TokenState) (tokenIds : List String) :
    Revokes tokenIds state (revokeAll state tokenIds) := by
  induction tokenIds generalizing state with
  | nil => exact ⟨rfl, rfl, fun _ h ↦ h, fun _ h ↦ absurd h List.not_mem_nil⟩
  | cons t ts ih => exact (revoke_revokes state t).trans (ih (state.revoke t))

/-- The requests that only read. -/
def Reads : Request → Prop
  | .epochCurrent | .proof _ _ | .registryRoot _ | .revocationStatus _ => True
  | _ => False

/-- The requests that present a nonce. -/
def Presents : Request → Prop
  | .tokensAccess _ | .verify _ => True
  | _ => False

/-- The request asks for a nonce for the subject, which the fog knows. -/
def AsksNonce (fog : Fog) (purpose subject : String) : Request → Prop
  | .tokensNonce tokenId => purpose = TOKEN_NONCE_PURPOSE ∧ subject = tokenId ∧
      fog.tokenState.wasIssued tokenId = true
  | .verifyNonce did => purpose = VERIFY_NONCE_PURPOSE ∧ subject = did ∧
      (fog.devices.get? did).isSome
  | _ => False

def Refused (r : Response) : Prop := ∀ body, r ≠ .ok body

/-- The answer has status 200. -/
def succeeds : Response → Bool
  | .ok _ => true
  | _ => false

theorem exists_of_succeeds {r : Response} (h : succeeds r = true) : ∃ fields, r = .ok fields := by
  cases r with
  | ok fields => exact ⟨fields, rfl⟩
  | httpError => cases h
  | serverError => cases h

/-- A passed proof of possession is a signature under the submitted key over the
challenge and the submitted DID, while the challenge is unused and in time. -/
structure PopPassed (P : Platform) (s : Session) (signatureHex : String) (now : ℚ)
    (did publicKey : String) (pk challenge signature : Bytes) : Prop where
  did_eq : s.did = some did
  key_eq : s.publicKey = some publicKey
  key : fromhex publicKey = .ok pk
  unused : s.challengeUsed = false
  active : ∃ text, s.challenge = some text ∧ fromhex text = .ok challenge
  in_time : now ≤ s.challengeExpires
  sent : fromhex signatureHex = .ok signature
  valid : verify P pk (popMessage challenge did) signature = true

/-- What handling one request can do to the fog. -/
inductive Effect (node : Node P) (env : Env) (fog : Fog) : Request → Response → Fog → Prop
  | read {request : Request} {r : Response} (h : Reads request) : Effect node env fog request r fog
  | refused {request : Request} {r : Response} {sessions : SessionStore}
      (hr : Refused r) (hs : Lapsed fog.sessions sessions) :
      Effect node env fog request r { fog with sessions := sessions }
  | started {authorization : Option String} {provId psk : String} {r : Response}
      (hauth : parseAuthorization authorization = some (provId, psk))
      (hpsk : pskCheck P node.pskStore provId psk = true)
      (hr : r.field "session_id" = some (.str (env.tokenHex 16))) :
      Effect node env fog (.registerStart authorization) r
        { fog with
          sessions := fog.sessions.add (.new (env.tokenHex 16) provId env.now) }
  | submitted {body : PublicKeyRequest} {r : Response} {s : Session} {pk : Bytes}
      (hs : fog.sessions.get? body.sessionId = some s) (hstate : s.state = .authenticated)
      (hpk : fromhex body.publicKey = .ok pk) (hlen : pk.length = COMPRESSED_PK_LEN)
      (hdid : body.did = deriveDid P pk) (hnew : fog.devices.get? body.did = none)
      (huse : SessionStore.didInUse fog.sessions body.did s.sessionId = false)
      (hr : r.field "challenge" = some (.str (env.tokenHex 32))) :
      Effect node env fog (.registerPubkey body) r
        { fog with sessions := fog.sessions.add (submitted node env s body) }
  | popFailed {body : PopRequest} {r : Response} {s s' : Session}
      (hs : fog.sessions.get? body.sessionId = some s) (hstate : s.state = .keySubmitted)
      (hr : Refused r) (hid : s'.sessionId = s.sessionId) (hdid : s'.did = s.did)
      (hkey : s'.publicKey = s.publicKey)
      (hstate' : s'.state = .authenticated ∨ s'.state = .keySubmitted)
      (hused : s.challenge = none ∨ s'.challengeUsed = true)
      (hfault : s'.state = .authenticated ∨
        ∃ e, (verifyPop P s body.signature env.later).1 = .error e) :
      Effect node env fog (.registerPop body) r
        { fog with sessions := fog.sessions.add s' }
  | popPassed {body : PopRequest} {r : Response} {s s' : Session} {did publicKey : String}
      {pk challenge signature : Bytes}
      (hs : fog.sessions.get? body.sessionId = some s) (hstate : s.state = .keySubmitted)
      (hid : s'.sessionId = s.sessionId) (hsdid : s.did = some did)
      (hskey : s.publicKey = some publicKey) (hdid : s'.did = s.did)
      (hkey : s'.publicKey = s.publicKey) (hstate' : s'.state = .popVerified)
      (hpop : PopPassed P s body.signature env.later did publicKey pk challenge signature)
      (hused : s'.challengeUsed = true) (hr : r.field "did" = some (.str did)) :
      Effect node env fog (.registerPop body) r
        { fog with
          sessions := fog.sessions.add s'
          devices := DeviceStore.upsert fog.devices (.new did publicKey .pending) }
  | unqueued {body : MetadataRequest} {r : Response} {s : Session} {did : String}
      {record : DeviceRecord}
      (hs : fog.sessions.get? body.sessionId = some s) (hstate : s.state = .popVerified)
      (hdid : s.did = some did) (hrec : fog.devices.get? did = some record) (hr : Refused r)
      (hadd : s.publicKey = none ∨ ∃ publicKey e, s.publicKey = some publicKey ∧
        (fromhex publicKey).bind (fog.epochs.addLeaf P did) = .error e) :
      Effect node env fog (.registerMetadata body) r
        { fog with devices := DeviceStore.setMetadata fog.devices did body }
  | queued {body : MetadataRequest} {s s' : Session} {did publicKey : String}
      {record : DeviceRecord} {pk leaf : Bytes} {fields : List (String × Json)}
      (hs : fog.sessions.get? body.sessionId = some s) (hstate : s.state = .popVerified)
      (hdid : s.did = some did) (hrec : fog.devices.get? did = some record)
      (hvalid : validateMetadata body node.zone node.allowedTypes = [])
      (hkey : s.publicKey = some publicKey) (hpk : fromhex publicKey = .ok pk)
      (hnew : fog.epochs.pending.get? did = none) (hleaf : leafHash P did pk = .ok leaf)
      (hid : s'.sessionId = s.sessionId) (hdid' : s'.did = s.did)
      (hkey' : s'.publicKey = s.publicKey) (hstate' : s'.state = .metadataAccepted)
      (hr : Json.field "did" fields = some (.str did))
      (hused : s'.challengeUsed = s.challengeUsed) :
      Effect node env fog (.registerMetadata body) (.ok fields)
        { fog with
          sessions := fog.sessions.add s'
          devices := DeviceStore.setLeaf (DeviceStore.setMetadata fog.devices did body) did
            (toHex leaf)
          epochs := { fog.epochs with
            pending := fog.epochs.pending.add ⟨did, toHex pk, leaf⟩ } }
  | issued {sessionId : String} {s : Session} {did : String} {record : DeviceRecord}
      (hs : fog.sessions.get? sessionId = some s) (hstate : s.state = .metadataAccepted)
      (hdid : s.did = some did) (hrec : fog.devices.get? did = some record)
      (hrev : record.status ≠ .revoked) (hreg : record.status ≠ .registered)
      (hrole : roleValidForType record.deviceType record.role = true) :
      Effect node env fog (.tokensIssue sessionId)
        (.ok (issueToken P (env.tokenHex 8) did record.publicKey record.deviceType record.role
          node.signingKey env.coins fog.epochs.currentEpochId TOKEN_TTL_SECONDS env.later).1)
        { fog with
          tokenState := fog.tokenState.recordIssued (env.tokenHex 8) did
          devices := DeviceStore.setStatus fog.devices did .tokenized
          signed := fog.signed ++ [(issueToken P (env.tokenHex 8) did record.publicKey
            record.deviceType record.role node.signingKey env.coins fog.epochs.currentEpochId
            TOKEN_TTL_SECONDS env.later).2] }
  | challenged {request : Request} {r : Response} {purpose subject : String}
      (h : AsksNonce fog purpose subject request)
      (hr : r.field "nonce" = some (.str (env.tokenHex 16))) :
      Effect node env fog request r
        { fog with
          tokenState := { fog.tokenState with
            nonces := NonceBook.issue fog.tokenState.nonces (· + ·) NONCE_TTL_SECONDS env.now
              purpose subject (env.tokenHex 16) } }
  | presented {request : Request} {r : Response} {nonces : NonceBook} (h : Presents request)
      (hn : Spent fog.tokenState.nonces nonces) :
      Effect node env fog request r
        { fog with tokenState := { fog.tokenState with nonces := nonces } }
  | tokenRevoked {body : RevokeRequest} {adminKey : Option String} {r : Response}
      {tokenId : String} {state : TokenState} (hbody : body.tokenOnly = true)
      (h : Revokes [tokenId] fog.tokenState state) :
      Effect node env fog (.revoke body adminKey) r { fog with tokenState := state }
  | deviceRevoked {body : RevokeRequest} {adminKey : Option String} {r : Response}
      {record : DeviceRecord} {state : TokenState} (hbody : body.tokenOnly = false)
      (hrec : fog.devices.get? body.did = some record)
      (h : Revokes (fog.tokenState.tokensOf body.did) fog.tokenState state)
      (hadmin : adminKey = some node.adminKey) :
      Effect node env fog (.revoke body adminKey) r
        { fog with
          devices := DeviceStore.setStatus fog.devices body.did .revoked
          tokenState := state }
  | finalizing {excludeDids : List String} {adminKey : Option String} {r : Response}
      {out : Except PyError EpochResult} {fog' : Fog}
      (h : Finalizing node env excludeDids fog out fog')
      (hout : finalizeEpoch node env excludeDids fog = (out, fog'))
      (hr : Refused r ∨ ∃ result, out = .ok result) (hadmin : adminKey = some node.adminKey) :
      Effect node env fog (.epochClose excludeDids adminKey) r fog'

theorem refused_error (status : ℕ) (detail : Json) : Refused (.httpError status detail) :=
  fun _ h ↦ by cases h

theorem refused_serverError (e : PyError) : Refused (.serverError e) := fun _ h ↦ by cases h

theorem Lapsed.refl (sessions : SessionStore) : Lapsed sessions sessions := .inl rfl

variable (node : Node P) (env : Env) (fog : Fog)

theorem registerStart_effect (authorization : Option String) :
    Effect node env fog (.registerStart authorization)
      (registerStart node env authorization fog).1
      (registerStart node env authorization fog).2 := by
  unfold registerStart
  cases hauth : parseAuthorization authorization with
  | none => exact .refused (refused_error _ _) (.refl _)
  | some cred =>
    obtain ⟨provId, psk⟩ := cred
    dsimp only
    split
    · rename_i hpsk
      exact .started hauth hpsk
        (by simp [Response.field, SessionStore.create, Session.new, Json.field])
    · exact .refused (refused_error _ _) (.refl _)

theorem validPublicKey_ok {publicKey : String} {pk : Bytes}
    (h : validPublicKey P publicKey = .ok pk) :
    fromhex publicKey = .ok pk ∧ pk.length = COMPRESSED_PK_LEN := by
  unfold validPublicKey at h
  cases hhex : fromhex publicKey with
  | error e => simp [hhex] at h
  | ok bytes =>
    simp only [hhex] at h
    split at h
    · cases h
    · rename_i hlen
      cases hload : loadPublicKey P bytes with
      | error e => simp [hload, Except.map] at h
      | ok key =>
        simp only [hload, Except.map, Except.ok.injEq] at h
        subst h
        exact ⟨rfl, by simpa using hlen⟩

theorem registerPubkey_effect (body : PublicKeyRequest) :
    Effect node env fog (.registerPubkey body) (registerPubkey node env body fog).1
      (registerPubkey node env body fog).2 := by
  unfold registerPubkey
  rcases session_get fog.sessions node.sessionTtl env.now body.sessionId with
    ⟨sessions, hget, hlapsed⟩ | ⟨s, hget, hs⟩
  · simp only [hget]
    exact .refused (refused_error _ _) hlapsed
  · simp only [hget]
    split
    · exact .refused (refused_error _ _) (.refl _)
    rename_i hstate
    cases hvalid : validPublicKey P body.publicKey with
    | error e => exact .refused (refused_error _ _) (.refl _)
    | ok pk =>
      obtain ⟨hpk, hlen⟩ := validPublicKey_ok hvalid
      dsimp only
      split
      · exact .refused (refused_error _ _) (.refl _)
      rename_i hdid
      cases hrec : DeviceStore.get fog.devices body.did with
      | some existing => exact .refused (refused_error _ _) (.refl _)
      | none =>
        dsimp only
        split
        · exact .refused (refused_error _ _) (.refl _)
        rename_i huse
        change Effect node env fog _ _
          { fog with sessions := SessionStore.write fog.sessions (submitted node env s body) }
        rw [session_write hs (submitted node env s body) rfl]
        exact .submitted hs (not_not.mp hstate) hpk hlen (not_not.mp hdid) hrec
          (by simpa using huse) (by simp [Response.field, Json.field])

theorem verifyPop_session (s : Session) (signatureHex : String) (now : ℚ) :
    ((verifyPop P s signatureHex now).2 = s ∧ (s.challenge = none ∨ s.challengeUsed = true)) ∨
      (verifyPop P s signatureHex now).2 = { s with challengeUsed := true } := by
  unfold verifyPop
  split_ifs with hactive
  · exact .inl ⟨rfl, by simpa using hactive⟩
  dsimp only
  split_ifs
  · exact .inr rfl
  right
  cases fromhex signatureHex with
  | error e => rfl
  | ok signature =>
    dsimp only
    split <;> try rfl
    split
    · rfl
    · split_ifs <;> rfl

theorem verifyPop_true {s s' : Session} {signatureHex reason : String} {now : ℚ}
    (h : verifyPop P s signatureHex now = (.ok (true, reason), s')) :
    ∃ did publicKey pk challenge signature,
      PopPassed P s signatureHex now did publicKey pk challenge signature := by
  unfold verifyPop at h
  split_ifs at h with hactive
  · simp at h
  dsimp only at h
  split_ifs at h with hexpired
  · simp at h
  cases hsig : fromhex signatureHex with
  | error e => simp [hsig] at h
  | ok signature =>
    simp only [hsig] at h
    split at h
    · simp at h
    · simp at h
    · simp at h
    · rename_i challenge did publicKey hchallenge hdid hkey
      cases hpk : fromhex publicKey with
      | error e => simp [hpk] at h
      | ok pk =>
        simp only [hpk] at h
        split_ifs at h with hverify
        · simp only [not_or, Bool.not_eq_true] at hactive
          obtain ⟨text, htext⟩ := Option.ne_none_iff_exists'.mp hactive.1
          rw [htext, Option.getD_some] at hchallenge
          exact ⟨did, publicKey, pk, challenge, signature, hdid, hkey, hpk, hactive.2,
            ⟨text, htext, hchallenge⟩, Rat.not_lt.mp hexpired, hsig, hverify⟩
        · simp at h

theorem registerPop_effect (body : PopRequest) :
    Effect node env fog (.registerPop body) (registerPop node env body fog).1
      (registerPop node env body fog).2 := by
  unfold registerPop
  rcases session_get fog.sessions node.sessionTtl env.now body.sessionId with
    ⟨sessions, hget, hlapsed⟩ | ⟨s, hget, hs⟩
  · simp only [hget]
    exact .refused (refused_error _ _) hlapsed
  · simp only [hget]
    split
    · exact .refused (refused_error _ _) (.refl _)
    rename_i hstate
    have hstate' := not_not.mp hstate
    obtain ⟨out, s', hpop⟩ : ∃ out s', verifyPop P s body.signature env.later = (out, s') :=
      ⟨_, _, rfl⟩
    obtain ⟨hid, hdid, hkey, hst, hused⟩ : s'.sessionId = s.sessionId ∧ s'.did = s.did ∧
        s'.publicKey = s.publicKey ∧ s'.state = s.state ∧
        (s.challenge = none ∨ s'.challengeUsed = true) := by
      rcases hpop ▸ verifyPop_session s body.signature env.later with ⟨rfl, hused⟩ | rfl
      · exact ⟨rfl, rfl, rfl, rfl, hused⟩
      · exact ⟨rfl, rfl, rfl, rfl, .inr rfl⟩
    rw [hpop]
    match out, hpop with
    | .error e, hpop =>
      dsimp only
      rw [session_write hs s' hid]
      exact .popFailed hs hstate' (refused_serverError _) hid hdid hkey
        (.inr (hst.trans hstate')) hused (.inr ⟨e, by rw [hpop]⟩)
    | .ok (false, reason), hpop =>
      dsimp only
      rw [session_write hs { s' with state := .authenticated } hid]
      exact .popFailed hs hstate' (refused_error _ _) hid hdid hkey (.inl rfl) hused (.inl rfl)
    | .ok (true, reason), hpop =>
      obtain ⟨did, publicKey, pk, challenge, signature, hpassed⟩ := verifyPop_true hpop
      obtain ⟨text, htext, -⟩ := hpassed.active
      have hw := session_write hs { s' with state := .popVerified } hid
      simp only [hdid, hpassed.did_eq, hkey, hpassed.key_eq] at hw ⊢
      rw [hw]
      exact .popPassed hs hstate' hid hpassed.did_eq hpassed.key_eq hpassed.did_eq.symm
        hpassed.key_eq.symm rfl hpassed (hused.resolve_left (by simp [htext]))
        (by simp [Response.field, Json.field])

theorem addLeaf_ok {epochs epochs' : EpochManager} {did leafHex : String} {pk : Bytes}
    (h : epochs.addLeaf P did pk = .ok (leafHex, epochs')) :
    ∃ leaf, leafHash P did pk = .ok leaf ∧ leafHex = toHex leaf ∧
      epochs.pending.get? did = none ∧
      epochs' = { epochs with pending := epochs.pending.add ⟨did, toHex pk, leaf⟩ } := by
  unfold EpochManager.addLeaf at h
  split_ifs at h with hqueued
  · cases hleaf : leafHash P did pk with
    | error e => simp [hleaf] at h
    | ok leaf =>
      simp only [hleaf, Except.ok.injEq, Prod.mk.injEq] at h
      exact ⟨leaf, rfl, h.1.symm, by simpa using hqueued, h.2.symm⟩

theorem registerMetadata_effect (body : MetadataRequest) :
    Effect node env fog (.registerMetadata body) (registerMetadata node env body fog).1
      (registerMetadata node env body fog).2 := by
  unfold registerMetadata
  rcases session_get fog.sessions node.sessionTtl env.now body.sessionId with
    ⟨sessions, hget, hlapsed⟩ | ⟨s, hget, hs⟩
  · simp only [hget]
    exact .refused (refused_error _ _) hlapsed
  · simp only [hget]
    split
    · exact .refused (refused_error _ _) (.refl _)
    rename_i hstate
    split
    · exact .refused (refused_error _ _) (.refl _)
    rename_i hvalid
    cases hrec : s.did.bind (DeviceStore.get fog.devices) with
    | none => exact .refused (refused_serverError _) (.refl _)
    | some record =>
      obtain ⟨did, hdid, hrec⟩ := Option.bind_eq_some_iff.mp hrec
      obtain rfl : record.did = did := Table.key_of_get? hrec
      dsimp only
      cases hkey : s.publicKey with
      | none =>
        exact .unqueued hs (not_not.mp hstate) hdid hrec (refused_serverError _) (.inl hkey)
      | some publicKey =>
        dsimp only
        cases hadd : (fromhex publicKey).bind (fog.epochs.addLeaf P record.did) with
        | error e =>
          have heffect : ∀ r, Refused r → Effect node env fog (.registerMetadata body) r
              { fog with devices := DeviceStore.setMetadata fog.devices record.did body } :=
            fun r hr ↦ .unqueued hs (not_not.mp hstate) hdid hrec hr
              (.inr ⟨publicKey, e, hkey, hadd⟩)
          cases e with
          | epochError msg => exact heffect _ (refused_error _ _)
          | _ => exact heffect _ (refused_serverError _)
        | ok out =>
          obtain ⟨leafHex, epochs⟩ := out
          cases hpk : fromhex publicKey with
          | error e => simp [hpk, Except.bind] at hadd
          | ok pk =>
            rw [hpk] at hadd
            obtain ⟨leaf, hleaf, rfl, hnew, rfl⟩ := addLeaf_ok hadd
            dsimp only
            have hw := session_write hs { s with state := .metadataAccepted } rfl
            simp only [hkey] at hw
            rw [hw]
            exact .queued hs (not_not.mp hstate) hdid hrec (not_not.mp hvalid) hkey hpk hnew hleaf
              rfl rfl hkey.symm rfl rfl rfl

theorem tokensIssue_effect (sessionId : String) :
    Effect node env fog (.tokensIssue sessionId) (tokensIssue node env sessionId fog).1
      (tokensIssue node env sessionId fog).2 := by
  unfold tokensIssue
  rcases session_get fog.sessions node.sessionTtl env.now sessionId with
    ⟨sessions, hget, hlapsed⟩ | ⟨s, hget, hs⟩
  · simp only [hget]
    exact .refused (refused_error _ _) hlapsed
  · simp only [hget]
    split
    · exact .refused (refused_error _ _) (.refl _)
    rename_i hstate
    cases hrec : s.did.bind (DeviceStore.get fog.devices) with
    | none => exact .refused (refused_error _ _) (.refl _)
    | some record =>
      obtain ⟨did, hdid, hrec⟩ := Option.bind_eq_some_iff.mp hrec
      obtain rfl : record.did = did := Table.key_of_get? hrec
      dsimp only
      split_ifs with hrev hreg hrole
      · exact .refused (refused_error _ _) (.refl _)
      · exact .refused (refused_error _ _) (.refl _)
      · exact .refused (refused_error _ _) (.refl _)
      · exact .issued hs (not_not.mp hstate) hdid hrec hrev hreg (by simpa using hrole)

theorem tokensNonce_effect (tokenId : String) :
    Effect node env fog (.tokensNonce tokenId) (tokensNonce env tokenId fog).1
      (tokensNonce env tokenId fog).2 := by
  unfold tokensNonce
  split
  · rename_i h
    have hask : AsksNonce fog TOKEN_NONCE_PURPOSE tokenId (.tokensNonce tokenId) := ⟨rfl, rfl, h⟩
    exact .challenged hask rfl
  · exact .refused (refused_error _ _) (.refl _)

theorem verifyNonce_effect (did : String) :
    Effect node env fog (.verifyNonce did) (verifyNonce env did fog).1
      (verifyNonce env did fog).2 := by
  unfold verifyNonce
  split
  · rename_i h
    have hask : AsksNonce fog VERIFY_NONCE_PURPOSE did (.verifyNonce did) := ⟨rfl, rfl, h⟩
    exact .challenged hask rfl
  · exact .refused (refused_error _ _) (.refl _)

/-- Presenting a token changes nothing but the nonces. -/
theorem tokensAccess_nonces (body : TokenAccessRequest) :
    ∃ nonces, Spent fog.tokenState.nonces nonces ∧ (tokensAccess node env body fog).2 =
      { fog with tokenState := { fog.tokenState with nonces := nonces } } := by
  unfold tokensAccess
  split
  · exact ⟨_, .inl rfl, rfl⟩
  split
  · exact ⟨_, .inl rfl, rfl⟩
  · exact ⟨_, .inl rfl, rfl⟩
  rename_i tid did _ _
  split
  · exact ⟨_, .inl rfl, rfl⟩
  · exact ⟨_, .inl rfl, rfl⟩
  refine ⟨_, consume_spent fog.tokenState.nonces env.later TOKEN_NONCE_PURPOSE tid body.nonce, ?_⟩
  dsimp only
  split
  · split <;> rfl
  · rfl

theorem tokensAccess_effect (body : TokenAccessRequest) :
    Effect node env fog (.tokensAccess body) (tokensAccess node env body fog).1
      (tokensAccess node env body fog).2 := by
  obtain ⟨nonces, hspent, h⟩ := tokensAccess_nonces node env fog body
  rw [h]
  exact .presented trivial hspent

theorem verifyAndAuthorize_nonces (body : VerifyRequest) :
    (verifyAndAuthorize node env body fog).2 =
      { fog with tokenState := { fog.tokenState with
          nonces := (NonceBook.consume fog.tokenState.nonces env.now VERIFY_NONCE_PURPOSE
            (.str (pyStr P ((Json.field "did" body.proofPackage).getD .null)))
            body.nonce).2 } } := by
  unfold verifyAndAuthorize
  dsimp only
  split_ifs
  · rfl
  split
  · rfl
  split
  · rfl
  split_ifs <;> rfl

theorem verify_effect (body : VerifyRequest) :
    Effect node env fog (.verify body) (verifyAndAuthorize node env body fog).1
      (verifyAndAuthorize node env body fog).2 := by
  rw [verifyAndAuthorize_nonces]
  exact .presented trivial (consume_spent _ _ _ _ _)

theorem revoke_effect (body : RevokeRequest) (adminKey : Option String) :
    Effect node env fog (.revoke body adminKey) (revoke node body adminKey fog).1
      (revoke node body adminKey fog).2 := by
  unfold revoke
  split
  · exact .refused (refused_error _ _) (.refl _)
  rename_i hkey
  split
  · rename_i htoken
    split
    · exact .refused (refused_error _ _) (.refl _)
    · exact .refused (refused_error _ _) (.refl _)
    rename_i tokenId _ _
    split
    · exact .refused (refused_error _ _) (.refl _)
    unfold revokeToken
    split_ifs
    · dsimp only
      cases DeviceStore.get fog.devices body.did with
      | none => exact .tokenRevoked htoken (revoke_revokes _ tokenId)
      | some record => exact .tokenRevoked htoken (revoke_revokes _ tokenId)
    · exact .refused (refused_error _ _) (.refl _)
  · rename_i htoken
    unfold revokeDevice
    cases hrec : DeviceStore.get fog.devices body.did with
    | none => exact .refused (refused_error _ _) (.refl _)
    | some record =>
      have hall := revokeAll_revokes fog.tokenState (fog.tokenState.tokensOf body.did)
      refine .deviceRevoked (by simpa using htoken) hrec ?_ (not_not.mp hkey)
      split
      · exact hall
      · exact hall
      · rename_i tokenId _ _
        have h := hall.trans (revoke_revokes _ tokenId)
        exact ⟨h.issued_eq, h.nonces_eq, h.keeps,
          fun t ht ↦ h.reaches t (List.mem_append_left _ ht)⟩

theorem epochClose_effect (excludeDids : List String) (adminKey : Option String) :
    Effect node env fog (.epochClose excludeDids adminKey)
      (epochClose node env excludeDids adminKey fog).1
      (epochClose node env excludeDids adminKey fog).2 := by
  unfold epochClose
  split
  · exact .refused (refused_error _ _) (.refl _)
  rename_i hkey
  have hadmin := not_not.mp hkey
  obtain ⟨out, fog', hout, hcases⟩ := finalizeEpoch_cases node env excludeDids fog
  rw [hout]
  match out, hout, hcases with
  | .ok result, hout, hcases => exact .finalizing hcases hout (.inr ⟨result, rfl⟩) hadmin
  | .error (.epochError e), hout, hcases =>
    exact .finalizing hcases hout (.inl (refused_error _ _)) hadmin
  | .error (.valueError _), hout, hcases | .error (.keyError _), hout, hcases
  | .error (.indexError _), hout, hcases | .error (.typeError _), hout, hcases
  | .error (.attributeError _), hout, hcases | .error (.overflowError _), hout, hcases
  | .error (.validationError _), hout, hcases | .error (.osError _), hout, hcases
  | .error (.ledgerError _), hout, hcases =>
    exact .finalizing hcases hout (.inl (refused_serverError _)) hadmin

theorem handle_effect (request : Request) :
    Effect node env fog request (handle node env request fog).1
      (handle node env request fog).2 := by
  cases request with
  | registerStart authorization => exact registerStart_effect node env fog authorization
  | registerPubkey body => exact registerPubkey_effect node env fog body
  | registerPop body => exact registerPop_effect node env fog body
  | registerMetadata body => exact registerMetadata_effect node env fog body
  | epochCurrent => exact .read trivial
  | epochClose excludeDids adminKey => exact epochClose_effect node env fog excludeDids adminKey
  | proof did epochId => exact .read trivial
  | registryRoot epochId => exact .read trivial
  | revoke body adminKey => exact revoke_effect node env fog body adminKey
  | revocationStatus did => exact .read trivial
  | tokensIssue sessionId => exact tokensIssue_effect node env fog sessionId
  | tokensNonce tokenId => exact tokensNonce_effect node env fog tokenId
  | tokensAccess body => exact tokensAccess_effect node env fog body
  | verifyNonce did => exact verifyNonce_effect node env fog did
  | verify body => exact verify_effect node env fog body

theorem step_effect (fog : Fog) (e : Event) :
    Effect node e.env fog e.request (answer node fog e) (step node fog e) :=
  handle_effect node e.env fog e.request

end FogNode.Proofs
