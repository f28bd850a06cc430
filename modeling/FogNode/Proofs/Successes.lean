import FogNode.Proofs.Authorization
import FogNode.Proofs.Possession
import FogNode.Proofs.TokenAccess
import FogNode.Proofs.VerifyAccess

namespace FogNode.Proofs

open FogNode.Library FogNode.Source

variable {P : Platform} {node : Node P} {env : Env} {fog : Fog} {events : List Event} {e : Event}
  {pk : Bytes} {a : Authorization}

/-- A passed proof of possession, or an ALLOW of `/tokens/access` or of `/verify`. -/
def Successful (node : Node P) (fog : Fog) (e : Event) : Prop :=
  match e.request with
  | .registerPop _ => succeeds (answer node fog e) = true
  | .tokensAccess _ | .verify _ => (answer node fog e).Allows
  | _ => False

/-- The signature that a request presents. -/
def presented : Request → Option String
  | .registerPop body => some body.signature
  | .tokensAccess body => some body.signature
  | .verify body => some body.signature
  | _ => none

def textField (key : String) (fields : List (String × Json)) : Option String :=
  (Json.field key fields).bind strField

/-- What a request asks for, with the public key under which its signature is checked. -/
def sought (P : Platform) (fog : Fog) : Request → Option (String × Authorization)
  | .registerPop body => do
    let s ← fog.sessions.get? body.sessionId
    let did ← s.did
    let publicKey ← s.publicKey
    let challenge ← s.challenge
    match fromhex challenge with
    | .ok challenge => some (publicKey, .possession did challenge)
    | .error _ => none
  | .tokensAccess body => do
    let publicKey ← textField "public_key" body.token
    let tokenId ← textField "token_id" body.token
    let did ← textField "did" body.token
    some (publicKey, .access tokenId did body.nonce body.resource body.operation)
  | .verify body => do
    let publicKey ← textField "public_key" body.proofPackage
    let did ← textField "did" body.proofPackage
    let epochId ← Json.field "epoch_id" body.proofPackage
    some (publicKey, .verify did (pyStr P epochId) body.nonce body.resource body.operation)
  | _ => none

/-- The request asks for the authorization under the key. -/
def Seeks (P : Platform) (fog : Fog) (request : Request) (pk : Bytes) (a : Authorization) : Prop :=
  ∃ publicKey, sought P fog request = some (publicKey, a) ∧ fromhex publicKey = .ok pk

theorem Seeks.unique {request : Request} {pk' : Bytes} {a' : Authorization}
    (h : Seeks P fog request pk a) (h' : Seeks P fog request pk' a') : pk = pk' ∧ a = a' := by
  obtain ⟨publicKey, hsought, hkey⟩ := h
  obtain ⟨publicKey', hsought', hkey'⟩ := h'
  rw [hsought] at hsought'
  cases hsought'
  rw [hkey] at hkey'
  cases hkey'
  exact ⟨rfl, rfl⟩

/-- The challenge that the fog hands out when it answers the request. -/
def issuedChallenge (node : Node P) (fog : Fog) (e : Event) : Option String :=
  match e.request with
  | .registerPubkey _ => (answer node fog e).text "challenge"
  | _ => none

/-- All challenges handed out in a run. -/
abbrev issuedChallenges (node : Node P) (events : List Event) : List String :=
  outputs (step node) (issuedChallenge node) Fog.init events

theorem Submits.issued {id did publicKey : String} {challenge : Bytes}
    (h : Submits node fog e id did publicKey challenge) :
    issuedChallenge node fog e = some (toHex challenge) := by
  have hanswer := h.answers
  simp only [issuedChallenge, h.request_eq, Response.text, hanswer]
  rfl

/-- The fog judges the challenge when it handles the request. -/
def JudgesChallenge (node : Node P) (fog : Fog) (e : Event) (challenge : Bytes) : Prop :=
  ∃ id s, Judges node fog e id ∧ fog.sessions.get? id = some s ∧
    s.challenge = some (toHex challenge)

/-- When no challenge is issued twice, one on which a session waits has not been judged. -/
theorem challenge_unjudged (hdistinct : (issuedChallenges node events).Nodup) {id : String}
    {s : Session} {challenge : Bytes} (hs : (after node Fog.init events).sessions.get? id = some s)
    (hstate : s.state = .keySubmitted) (hch : s.challenge = some (toHex challenge))
    {earlier later : List Event} (hsplit : events = earlier ++ e :: later) :
    ¬ JudgesChallenge node (after node Fog.init earlier) e challenge := by
  rintro ⟨id', s', hj, hs', hch'⟩
  have hstate' : s'.state = .keySubmitted := by
    obtain ⟨_, t, -, hget, ht⟩ := hj
    rw [(session_found hget).1] at hs'
    cases hs'
    exact ht
  obtain ⟨did, publicKey, c, -, -, hc, l, sub, m, hl, -, hsub, -, hnot⟩ :=
    challenged_of_waiting events s hs hstate
  obtain ⟨did', publicKey', c', -, -, hc', l', sub', m', hl', -, hsub', -, -⟩ :=
    challenged_of_waiting earlier s' hs' hstate'
  obtain rfl : challenge = c := toHex_inj.mp (Option.some.inj (hch.symm.trans hc))
  obtain rfl : challenge = c' := toHex_inj.mp (Option.some.inj (hch'.symm.trans hc'))
  have hall : l ++ sub :: m = l' ++ sub' :: (m' ++ e :: later) := by
    rw [← hl, hsplit, hl', List.append_assoc, List.cons_append]
  obtain ⟨rfl, rfl, rfl⟩ := same_step (hl ▸ hdistinct) hall hsub.issued hsub'.issued
  obtain rfl : id = id' := by
    have hrequest := hsub.request_eq.symm.trans hsub'.request_eq
    cases hrequest
    rfl
  refine hnot m' e later rfl ?_
  rw [← hl']
  exact hj

/-- The request uses up the challenge or the nonce of the authorization. -/
def Spends (node : Node P) (fog : Fog) (e : Event) : Authorization → Prop
  | .possession _ challenge => JudgesChallenge node fog e challenge
  | .access _ _ nonce _ _ => Takes node fog e nonce
  | .verify _ _ nonce _ _ => Takes node fog e nonce

/-- What is true of a successful request after the listed ones. -/
structure Shown (node : Node P) (events : List Event) (e : Event) (pk : Bytes)
    (a : Authorization) : Prop where
  seeks : Seeks P (after node Fog.init events) e.request pk a
  signed : ∃ text, presented e.request = some text ∧
    verify P pk a.message (hexOrEmpty text) = true
  derived : a.Derived P
  determined : ∀ a', a'.Derived P → a.message = a'.message → a = a'
  spends : Spends node (after node Fog.init events) e a
  unspent : ∀ earlier e' later, events = earlier ++ e' :: later →
    ¬ Spends node (after node Fog.init earlier) e' a

theorem pop_passes {body : PopRequest} (h : succeeds (registerPop node env body fog).1 = true) :
    ∃ s did publicKey pk challenge signature,
      SessionStore.get fog.sessions node.sessionTtl env.now body.sessionId =
        (some s, fog.sessions) ∧ s.state = .keySubmitted ∧
      PopPassed P s body.signature env.later did publicKey pk challenge signature := by
  unfold registerPop at h
  rcases session_get fog.sessions node.sessionTtl env.now body.sessionId with
    ⟨sessions, hget, -⟩ | ⟨s, hget, -⟩
  · simp only [hget] at h
    cases h
  · simp only [hget] at h
    split_ifs at h with hstate
    · cases h
    · obtain ⟨out, s', hpop⟩ : ∃ out s', verifyPop P s body.signature env.later = (out, s') :=
        ⟨_, _, rfl⟩
      rw [hpop] at h
      match out, hpop with
      | .error e, hpop => cases h
      | .ok (false, reason), hpop => cases h
      | .ok (true, reason), hpop =>
        obtain ⟨did, publicKey, pk, challenge, signature, hpassed⟩ := verifyPop_true hpop
        exact ⟨s, did, publicKey, pk, challenge, signature, hget, not_not.mp hstate, hpassed⟩

theorem hexOrEmpty_eq {text : String} {bytes : Bytes} (h : fromhex text = .ok bytes) :
    hexOrEmpty text = bytes := by
  simp only [hexOrEmpty, h]

theorem textField_eq {key s : String} {fields : List (String × Json)}
    (h : Json.field key fields = some (.str s)) : textField key fields = some s := by
  simp only [textField, h, Option.bind_some, strField]

theorem pop_shown {body : PopRequest} (hreq : e.request = .registerPop body)
    (hdistinct : (issuedChallenges node events).Nodup)
    (h : succeeds (answer node (after node Fog.init events) e) = true) :
    ∃ pk a, Shown node events e pk a := by
  obtain ⟨env, request⟩ := e
  dsimp only at hreq
  subst hreq
  obtain ⟨hinv, hc⟩ := challenges_after node events
  obtain ⟨s, did, publicKey, pk, challenge, signature, hget, hstate, hpassed⟩ := pop_passes h
  have hs := (session_found hget).1
  obtain ⟨text, htext, hchallenge⟩ := hpassed.active
  obtain ⟨c, hch⟩ := (hc _ s hs).active hstate
  obtain rfl : c = challenge := by
    rw [htext] at hch
    cases hch
    rw [fromhex_toHex] at hchallenge
    exact Except.ok.inj hchallenge
  obtain ⟨key, pk', hb⟩ := hinv.bound hs (by simp [hstate]) hpassed.did_eq
  refine ⟨pk, .possession did c, ⟨publicKey, ?_, hpassed.key⟩, ⟨body.signature, rfl, ?_⟩,
    ⟨pk', hb.derived⟩, fun a' hderived hmessage ↦ ?_, ?_, fun earlier e' later hsplit ↦ ?_⟩
  · simp [sought, hs, hpassed.did_eq, hpassed.key_eq, hch]
  · rw [hexOrEmpty_eq hpassed.sent]
    exact hpassed.valid
  · have hlabel := Authorization.label_eq hmessage
    cases a' with
    | possession did' c' =>
      obtain ⟨pk'', rfl⟩ := hderived
      obtain rfl := hb.derived
      obtain ⟨hdid, rfl⟩ := popMessage_determines hmessage
      rw [hdid]
    | access => exact absurd hlabel pop_ne_access
    | verify => exact absurd hlabel pop_ne_verify
  · exact ⟨body.sessionId, s, ⟨body.signature, s, rfl, hget, hstate⟩, hs, hch⟩
  · exact challenge_unjudged hdistinct hs hstate hch hsplit

theorem access_shown {body : TokenAccessRequest} (hreq : e.request = .tokensAccess body)
    (hdistinct : (issuedNonces node events).Nodup)
    (hunforged : tokenSignatureValid P body.token node.signingKey = true →
      canonicalJson P (signedFields body.token) ∈ (after node Fog.init events).signed)
    (h : (answer node (after node Fog.init events) e).Allows) :
    ∃ pk a, Shown node events e pk a := by
  rw [answer_access hreq] at h
  obtain ⟨tokenId, didJson, deviceType, role, ha⟩ := access_allows h
  obtain ⟨did, record, pk, hg⟩ := ha.granted hreq hdistinct (hunforged ha.signature)
  obtain ⟨sig, hsig, hverify⟩ := hg.signature
  refine ⟨pk, .access tokenId did body.nonce body.resource body.operation,
    ⟨record.publicKey, ?_, hg.key⟩, ⟨body.signature, ?_, ?_⟩, trivial,
    fun a' _ hmessage ↦ ?_, hg.taken, hg.nonce.untaken⟩
  · rw [hreq]
    simp [sought, textField_eq hg.key_eq, textField_eq hg.token_id_eq, textField_eq hg.did_eq]
  · rw [hreq, presented]
  · rw [hexOrEmpty_eq hsig]
    exact hverify
  · have hlabel := Authorization.label_eq hmessage
    cases a' with
    | possession => exact absurd hlabel.symm pop_ne_access
    | access tokenId' did' nonce' resource' operation' =>
      obtain ⟨rfl, rfl, hnonce, hresource, hoperation⟩ := hg.exact _ _ _ _ _ hmessage
      rw [hnonce, hresource, hoperation]
    | verify => exact absurd hlabel access_ne_verify

theorem verify_shown {body : VerifyRequest} (hreq : e.request = .verify body)
    (hdistinct : (issuedNonces node events).Nodup)
    (h : (answer node (after node Fog.init events) e).Allows) :
    ∃ pk a, Shown node events e pk a := by
  rw [answer_verify hreq] at h
  obtain ⟨pkg, rec, hv⟩ := verify_allows h
  obtain ⟨pk, epoch, hs⟩ := hv.stated hreq hdistinct
  refine ⟨pk, .verify pkg.did (pyStr P epoch) body.nonce body.resource body.operation,
    ⟨pkg.publicKey, ?_, hs.key⟩, ⟨body.signature, ?_, hs.signature⟩, trivial,
    fun a' _ hmessage ↦ ?_, hs.taken, hs.nonce.untaken⟩
  · rw [hreq]
    simp [sought, textField_eq hs.key_eq, textField_eq hs.did_eq, hs.epoch_eq]
  · rw [hreq, presented]
  · have hlabel := Authorization.label_eq hmessage
    cases a' with
    | possession => exact absurd hlabel.symm pop_ne_verify
    | access => exact absurd hlabel.symm access_ne_verify
    | verify did' epoch' nonce' resource' operation' =>
      obtain ⟨hdid, rfl, hnonce, hresource, hoperation⟩ := hs.exact _ _ _ _ _ hmessage
      rw [hdid, hnonce, hresource, hoperation]

theorem shown_of_successful (hchallenges : (issuedChallenges node events).Nodup)
    (hnonces : (issuedNonces node events).Nodup)
    (hunforged : ∀ body, e.request = .tokensAccess body →
      tokenSignatureValid P body.token node.signingKey = true →
      canonicalJson P (signedFields body.token) ∈ (after node Fog.init events).signed)
    (h : Successful node (after node Fog.init events) e) : ∃ pk a, Shown node events e pk a := by
  unfold Successful at h
  split at h
  · rename_i body hreq
    exact pop_shown hreq hchallenges h
  · rename_i body hreq
    exact access_shown hreq hnonces (hunforged body hreq) h
  · rename_i body hreq
    exact verify_shown hreq hnonces h
  · exact h.elim

end FogNode.Proofs
