import FogNode.Proofs.AbandonedOnboarding
import FogNode.Proofs.Onboarding
import FogNode.Proofs.Possession
import FogNode.Proofs.Queue
import FogNode.Proofs.SessionFrame
import FogNode.Source.DeviceClient

namespace FogNode.Proofs

open FogNode.Library FogNode.Source

variable {P : Platform} {node : Node P} {client : Client P} {args : MetadataArgs} {env : Env}
  {fog fog' : Fog} {id did : String} {s : Session} {request : Request} {r : Response}

/-- What the fog's operator and the owner of the device have to provide for. -/
structure Provisioned (node : Node P) (client : Client P) (args : MetadataArgs) : Prop where
  header : parseAuthorization (some client.authorization) = some (client.name, client.psk)
  psk : pskCheck P node.pskStore client.name client.psk = true
  signs : SignsCorrectly P client.privateKey
  length : client.pkBytes.length = COMPRESSED_PK_LEN
  metadata : ∀ id, validateMetadata (client.metadata args id) node.zone node.allowedTypes = []

/-- The DID is not on record, and no session is onboarding it. -/
structure Unclaimed (fog : Fog) (did : String) : Prop where
  no_record : fog.devices.get? did = none
  no_session : ∀ id (s : Session), fog.sessions.get? id = some s → s.state ≠ .authenticated →
    s.did ≠ some did

def submittedDid : Request → Option String
  | .registerPubkey body => some body.did
  | _ => none

/-- The session is past AUTHENTICATED with the DID. -/
structure Claims (fog : Fog) (id did : String) (s : Session) : Prop where
  stored : fog.sessions.get? id = some s
  past : s.state ≠ .authenticated
  did_eq : s.did = some did

theorem Claims.add {t : Session} (hs : fog.sessions.get? s.sessionId = some s)
    (hstate : s.state ≠ .authenticated) {s' : Session} (hid : s'.sessionId = s.sessionId)
    (hdid : s'.did = s.did) (ht : (fog.sessions.add s').get? id = some t)
    (hpast : t.state ≠ .authenticated) (htdid : t.did = some did) :
    ∃ t, Claims fog id did t := by
  rw [Table.get?_add] at ht
  split at ht
  case isTrue heq =>
    cases ht
    exact ⟨s, by rw [heq, hid, hs], hstate, hdid ▸ htdid⟩
  case isFalse => exact ⟨t, ht, hpast, htdid⟩

/-- A session that onboards a DID did so before, or submits it now. -/
theorem Effect.claims (he : Effect node env fog request r fog') {t : Session}
    (ht : Claims fog' id did t) :
    (∃ s, Claims fog id did s) ∨ submittedDid request = some did := by
  obtain ⟨hstored, hpast, hdid⟩ := ht
  cases he with
  | refused hr hs =>
    rcases hs with rfl | ⟨j, rfl⟩
    · exact .inl ⟨t, hstored, hpast, hdid⟩
    · rw [Table.get?_erase] at hstored
      split at hstored
      · cases hstored
      · exact .inl ⟨t, hstored, hpast, hdid⟩
  | started =>
    rw [Table.get?_add] at hstored
    split at hstored
    · cases hstored
      exact absurd rfl hpast
    · exact .inl ⟨t, hstored, hpast, hdid⟩
  | @submitted body _ s =>
    rw [Table.get?_add] at hstored
    split at hstored
    · cases hstored
      exact .inr hdid
    · exact .inl ⟨t, hstored, hpast, hdid⟩
  | popFailed hs hstate _ hid hsdid =>
    exact .inl (Claims.add (Table.get?_key hs) (by simp [hstate]) hid hsdid hstored hpast hdid)
  | popPassed hs hstate hid _ _ hsdid =>
    exact .inl (Claims.add (Table.get?_key hs) (by simp [hstate]) hid hsdid hstored hpast hdid)
  | queued hs hstate _ _ _ _ _ _ _ hid hsdid =>
    exact .inl (Claims.add (Table.get?_key hs) (by simp [hstate]) hid hsdid hstored hpast hdid)
  | finalizing hf => cases hf <;> exact .inl ⟨t, hstored, hpast, hdid⟩
  | _ => exact .inl ⟨t, hstored, hpast, hdid⟩

/-- Only a submission of the DID claims it. -/
theorem Unclaimed.effect (h : Unclaimed fog did) (he : Effect node env fog request r fog')
    (hother : submittedDid request ≠ some did) : Unclaimed fog' did := by
  constructor
  · by_contra hrec
    obtain ⟨rec, hrec⟩ := Option.ne_none_iff_exists'.mp hrec
    rcases he.record hrec with ⟨rec₀, hget, -⟩ | ⟨j, s, pk, challenge, signature, hpass⟩
    · rw [h.no_record] at hget
      cases hget
    · obtain ⟨_, -, hpop⟩ := hpass.request_eq
      exact h.no_session j s hpass.get (by simp [hpass.waiting]) hpop.did_eq
  · intro j t ht hpast hdid
    rcases he.claims ⟨ht, hpast, hdid⟩ with ⟨s, hs⟩ | hsubmitted
    · exact h.no_session j s hs.stored hs.past hs.did_eq
    · exact hother hsubmitted

section answers

theorem loadPublicKey_of_signs {key : P.PrivateKey} (h : SignsCorrectly P key) :
    ∃ pk, loadPublicKey P (publicKeyBytes P key) = .ok pk := by
  have hverify := h 0 []
  unfold verify at hverify
  cases hload : loadPublicKey P (publicKeyBytes P key) with
  | error e =>
    rw [hload] at hverify
    cases hverify
  | ok pk => exact ⟨pk, rfl⟩

theorem Provisioned.valid_key (h : Provisioned node client args) :
    validPublicKey P client.publicKeyHex = .ok client.pkBytes := by
  obtain ⟨pk, hload⟩ := loadPublicKey_of_signs h.signs
  have hload' : loadPublicKey P client.pkBytes = .ok pk := hload
  simp only [validPublicKey, Client.publicKeyHex, fromhex_toHex, h.length, ne_eq,
    not_true_eq_false, if_false, hload', Except.map]

theorem Provisioned.start (h : Provisioned node client args) (env : Env) (fog : Fog) :
    registerStart node env (some client.authorization) fog =
      (.ok [("session_id", .str (env.tokenHex 16)), ("expires_in", .int node.sessionTtl)],
        { fog with
          sessions := fog.sessions.add (.new (env.tokenHex 16) client.name env.now) }) := by
  simp only [registerStart, h.header, h.psk, if_true]
  rfl

theorem session_live (hs : fog.sessions.get? id = some s) {now : ℚ} (hlive : ¬ Expired node now s) :
    SessionStore.get fog.sessions node.sessionTtl now id = (some s, fog.sessions) := by
  simp only [SessionStore.get, hs]
  exact if_neg hlive

theorem Unclaimed.not_in_use (h : Unclaimed fog did) (id : String) :
    SessionStore.didInUse fog.sessions did id = false := by
  rw [← Bool.not_eq_true, didInUse_iff fog ⟨id, did, ""⟩]
  rintro ⟨j, t, ht⟩
  exact h.no_session j t ht.stored ht.past ht.did_eq

theorem Provisioned.submit (h : Provisioned node client args) (hu : Unclaimed fog client.did)
    (hs : fog.sessions.get? id = some s) (hstate : s.state = .authenticated)
    (hlive : ¬ Expired node env.now s) :
    registerPubkey node env ⟨id, client.did, client.publicKeyHex⟩ fog =
      (.ok [("session_id", .str s.sessionId), ("challenge", .str (env.tokenHex 32)),
          ("expires_in", .int node.challengeTtl)],
        { fog with
          sessions := fog.sessions.add
            (submitted node env s ⟨id, client.did, client.publicKeyHex⟩) }) := by
  have hdid : deriveDid P client.pkBytes = client.did := rfl
  simp only [registerPubkey, session_live hs hlive, hstate, h.valid_key, hdid, DeviceStore.get,
    hu.no_record, hu.not_in_use, ne_eq, not_true_eq_false, if_false, Bool.false_eq_true]
  have hwrite := session_write hs (submitted node env s ⟨id, client.did, client.publicKeyHex⟩) rfl
  rw [← hwrite]
  rfl

/-- A session that waits for the proof of possession of the device. -/
structure Awaits (client : Client P) (challenge : Bytes) (s : Session) : Prop where
  state_eq : s.state = .keySubmitted
  did_eq : s.did = some client.did
  key_eq : s.publicKey = some client.publicKeyHex
  challenge_eq : s.challenge = some (toHex challenge)
  unused : s.challengeUsed = false

theorem Provisioned.verified (h : Provisioned node client args) {challenge : Bytes}
    (ha : Awaits client challenge s) {now : ℚ} (htime : now ≤ s.challengeExpires) (coins : ℕ) :
    verifyPop P s (toHex (sign P client.privateKey coins (popMessage challenge client.did))) now =
      (.ok (true, "signature valid"), { s with challengeUsed := true }) := by
  have hkey : fromhex client.publicKeyHex = .ok client.pkBytes := fromhex_toHex _
  have hverify : verify P client.pkBytes (popMessage challenge client.did)
      (sign P client.privateKey coins (popMessage challenge client.did)) = true :=
    h.signs coins _
  simp only [verifyPop, ha.challenge_eq, ha.unused, ha.did_eq, ha.key_eq, Rat.not_lt.mpr htime,
    Option.getD_some, fromhex_toHex, hkey, hverify, reduceCtorEq, Bool.false_eq_true, or_self,
    if_false, if_true]

theorem Provisioned.prove (h : Provisioned node client args) {challenge : Bytes}
    (hs : fog.sessions.get? id = some s) (ha : Awaits client challenge s)
    (hlive : ¬ Expired node env.now s) (htime : env.later ≤ s.challengeExpires) (coins : ℕ) :
    registerPop node env
        ⟨id, toHex (sign P client.privateKey coins (popMessage challenge client.did))⟩ fog =
      (.ok [("session_id", .str s.sessionId), ("did", .str client.did),
          ("status", .str SessionState.popVerified.value)],
        { fog with
          sessions := fog.sessions.add { s with challengeUsed := true, state := .popVerified }
          devices := DeviceStore.upsert fog.devices
            (.new client.did client.publicKeyHex .pending) }) := by
  simp only [registerPop, session_live hs hlive, ha.state_eq, h.verified ha htime coins, ne_eq,
    not_true_eq_false, if_false, ha.did_eq, ha.key_eq]
  rw [session_write hs]
  rfl

/-- The leaf of the device. -/
def clientLeaf (client : Client P) : Bytes := P.sha256 (leafInput client.did client.pkBytes)

theorem Provisioned.leaf (h : Provisioned node client args) :
    leafHash P client.did client.pkBytes = .ok (clientLeaf client) :=
  leafHash_ok.mpr ⟨isDid_deriveDid P client.pkBytes, h.length, rfl⟩

/-- A session in which the device has proved possession of its key. -/
structure Proved (client : Client P) (s : Session) : Prop where
  state_eq : s.state = .popVerified
  did_eq : s.did = some client.did
  key_eq : s.publicKey = some client.publicKeyHex

/-- The record of a device that has not been described yet. -/
theorem Inv.undescribed (h : Inv node fog) (hs : fog.sessions.get? id = some s)
    (hp : Proved client s) :
    ∃ rec, fog.devices.get? client.did = some rec ∧ rec.publicKey = client.publicKeyHex ∧
      fog.epochs.pending.get? client.did = none := by
  obtain ⟨key, pk, hb⟩ := h.bound hs (by simp [hp.state_eq]) hp.did_eq
  obtain ⟨rec, hrec, -⟩ := exists_of_enrolled (hb.proved hp.state_eq)
  obtain ⟨hkey, hleaf⟩ := h.proved hs hp.state_eq hp.did_eq hrec
  refine ⟨rec, hrec, Option.some.inj (hkey.symm.trans hp.key_eq), ?_⟩
  cases hqueued : fog.epochs.pending.get? client.did with
  | none => rfl
  | some e =>
    obtain ⟨rec', hrec', hleaf', -⟩ := h.queue client.did e hqueued
    rw [Table.key_of_get? hqueued, hrec] at hrec'
    cases hrec'
    rw [hleaf] at hleaf'
    cases hleaf'

theorem Provisioned.describe (h : Provisioned node client args) (hinv : Inv node fog)
    (hs : fog.sessions.get? id = some s) (hp : Proved client s) (hlive : ¬ Expired node env.now s) :
    ∃ batchSize, registerMetadata node env (client.metadata args id) fog =
      (.ok [("did", .str client.did), ("leaf", .str (toHex (clientLeaf client))),
          ("epoch_id", .int fog.epochs.currentEpochId), ("batch_size", .int batchSize),
          ("status", .str "QUEUED_FOR_BATCH")],
        { fog with
          sessions := fog.sessions.add { s with state := .metadataAccepted }
          devices := DeviceStore.setLeaf
            (DeviceStore.setMetadata fog.devices client.did (client.metadata args id)) client.did
            (toHex (clientLeaf client))
          epochs := { fog.epochs with
            pending := fog.epochs.pending.add
              ⟨client.did, toHex client.pkBytes, clientLeaf client⟩ } }) := by
  obtain ⟨rec, hrec, -, hnew⟩ := hinv.undescribed hs hp
  have hkey : fromhex client.publicKeyHex = .ok client.pkBytes := fromhex_toHex _
  have hdid : rec.did = client.did := Table.key_of_get? hrec
  have hid : (client.metadata args id).sessionId = id := rfl
  simp only [registerMetadata, hid, session_live hs hlive, hp.state_eq, hp.did_eq, hp.key_eq,
    h.metadata id, Option.bind_some, DeviceStore.get, hrec, hdid, hkey, Except.bind,
    EpochManager.addLeaf, hnew, h.leaf, ne_eq, not_true_eq_false, if_false, Option.isSome_none,
    Bool.false_eq_true]
  rw [session_write hs]
  · exact ⟨_, rfl⟩
  · rfl

end answers

section track

/-- The request neither excludes the device from an epoch nor revokes it. -/
def LeavesIn (node : Node P) (did : String) : Request → Prop
  | .epochClose excludeDids adminKey => adminKey = some node.adminKey → did ∉ excludeDids
  | .revoke body adminKey =>
    adminKey = some node.adminKey → body.did = did → body.tokenOnly = true
  | _ => True

/-- What holds of the fog when the device has come so far, and none of its requests failed.
The device is decided when its epoch is over, if nothing was in the way. -/
def OnTrack (client : Client P) (args : MetadataArgs) (free : Prop) (fog : Fog) : Stage → Prop
  | .idle => Unclaimed fog client.did
  | .started id => Unclaimed fog client.did ∧
    ∃ s, fog.sessions.get? id = some s ∧ s.state = .authenticated
  | .challenged id challengeHex => ∃ s challenge, fog.sessions.get? id = some s ∧
    Awaits client challenge s ∧ challengeHex = toHex challenge
  | .proved id => ∃ s, fog.sessions.get? id = some s ∧ Proved client s
  | .queued id leaf epochId => leaf = toHex (clientLeaf client) ∧
    (∃ rec, fog.devices.get? client.did = some rec ∧ rec.publicKey = client.publicKeyHex ∧
      rec.leaf = some leaf ∧ DescribedBy rec (client.metadata args id)) ∧
    (fog.epochs.currentEpochId = epochId ∧
      (∃ e, fog.epochs.pending.get? client.did = some e ∧ e.leaf = clientLeaf client) ∨
      epochId < fog.epochs.currentEpochId ∧ (free → Decided fog client.did))
  | .failed _ _ => False

/-- The turn leaves the registration alone, and is taken in time if it belongs to it. -/
def Undisturbed (node : Node P) (client : Client P) (world : Registering) : RegisterTurn → Prop
  | .other e => (∀ id ∈ world.stage.session,
      presentedSession e.request ≠ some id ∧ drawnSession e ≠ some id) ∧
    submittedDid e.request ≠ some client.did
  | .device env _ => ∀ s ∈ world.stage.session.bind world.fog.sessions.get?,
    ¬ Expired node env.now s ∧ (s.state = .keySubmitted → env.later ≤ s.challengeExpires)

instance (node : Node P) (client : Client P) (world : Registering) :
    DecidablePred (Undisturbed node client world)
  | .other e => inferInstanceAs (Decidable ((∀ id ∈ world.stage.session,
      presentedSession e.request ≠ some id ∧ drawnSession e ≠ some id) ∧
    submittedDid e.request ≠ some client.did))
  | .device env _ => inferInstanceAs (Decidable
      (∀ s ∈ world.stage.session.bind world.fog.sessions.get?,
        ¬ Expired node env.now s ∧ (s.state = .keySubmitted → env.later ≤ s.challengeExpires)))

variable {stage : Stage} {free : Prop}

theorem SameProfile.describes {rec rec' : DeviceRecord} (h : SameProfile rec rec')
    {body : MetadataRequest} (hd : DescribedBy rec body) : DescribedBy rec' body :=
  ⟨h.name_eq.trans hd.name_eq, h.type_eq.trans hd.type_eq, h.zone_eq.trans hd.zone_eq,
    h.vendor_eq.trans hd.vendor_eq, h.role_eq.trans hd.role_eq⟩

/-- Queued devices stay in the open batch until an authorized close ends the epoch. -/
theorem Effect.epoch_cases (he : Effect node env fog request r fog') :
    fog'.epochs.currentEpochId = fog.epochs.currentEpochId ∧
      (∀ did e, fog.epochs.pending.get? did = some e → fog'.epochs.pending.get? did = some e) ∨
    fog.epochs.currentEpochId < fog'.epochs.currentEpochId ∧ ∃ excludeDids result,
      request = .epochClose excludeDids (some node.adminKey) ∧
        Finalizing node env excludeDids fog (.ok result) fog' := by
  cases he with
  | queued hs hstate hdid hrec hvalid hkey hpk hnew =>
    refine .inl ⟨rfl, fun did e hq ↦
      (Table.get?_add _ _ _).trans ((if_neg fun heq ↦ ?_).trans hq)⟩
    have hq' : fog.epochs.pending.get? _ = some e := heq ▸ hq
    rw [hnew] at hq'
    cases hq'
  | finalizing hf _ _ hadmin =>
    cases hf with
    | closed hm he ht hr hd hp hresult =>
      exact .inr ⟨Int.lt_succ _, _, _, congrArg _ hadmin, .closed hm he ht hr hd hp hresult⟩
    | _ => exact .inl ⟨rfl, fun _ _ hq ↦ hq⟩
  | _ => exact .inl ⟨rfl, fun _ _ hq ↦ hq⟩

theorem Effect.epoch_le (he : Effect node env fog request r fog') :
    fog.epochs.currentEpochId ≤ fog'.epochs.currentEpochId := by
  rcases he.epoch_cases with ⟨hsame, -⟩ | ⟨hnext, -⟩
  · exact hsame.ge
  · exact le_of_lt hnext

/-- Only a request to revoke the device revokes it. -/
theorem Effect.unrevoked (he : Effect node env fog request r fog')
    (hfree : LeavesIn node did request) (hlive : ¬ Revoked fog did) : ¬ Revoked fog' did := by
  have hsame : NoneNew .revoked fog.devices fog'.devices → ¬ Revoked fog' did :=
    fun hnone ⟨rec, hrec, hstatus⟩ ↦ hlive (hnone did rec hrec hstatus)
  have hkept : NoneNew .revoked fog.devices fog.devices := fun _ rec hrec hs ↦ ⟨rec, hrec, hs⟩
  cases he with
  | popPassed => exact hsame (upsert_noneNew (by decide))
  | unqueued => exact hsame setMetadata_noneNew
  | queued =>
    refine hsame fun j rec hrec hs ↦ ?_
    obtain ⟨rec', hrec', hs'⟩ := setLeaf_noneNew j rec hrec hs
    exact setMetadata_noneNew j rec' hrec' hs'
  | issued => exact hsame (setStatus_noneNew (by decide))
  | @deviceRevoked body _ _ _ _ hbody _ _ hadmin =>
    have hother : body.did ≠ did := fun heq ↦ by simp [hfree hadmin heq] at hbody
    rintro ⟨rec, hrec, hstatus⟩
    rw [get?_setStatus, if_neg hother.symm] at hrec
    exact hlive ⟨rec, hrec, hstatus⟩
  | finalizing hf =>
    cases hf with
    | closed => exact hsame (commitDevices_noneNew (Table.nodup_keys _) (by decide))
    | _ => exact hsame hkept
  | _ => exact hsame hkept

theorem OnTrack.other (h : OnTrack client args free fog stage) (hinv : Inv node fog) {e : Event}
    (hu : Undisturbed node client ⟨fog, stage⟩ (.other e))
    (hfree : free → LeavesIn node client.did e.request) :
    OnTrack client args free (step node fog e) stage := by
  have he := step_effect node fog e
  have hsession : ∀ id, stage.session = some id →
      (step node fog e).sessions.get? id = fog.sessions.get? id := fun id hid ↦
    session_untouched node fog (hu.1 id hid).1 (hu.1 id hid).2
  cases stage with
  | idle => exact Unclaimed.effect h he hu.2
  | started id =>
    rw [OnTrack, hsession id rfl]
    exact ⟨h.1.effect he hu.2, h.2⟩
  | challenged id challenge =>
    rw [OnTrack, hsession id rfl]
    exact h
  | proved id =>
    rw [OnTrack, hsession id rfl]
    exact h
  | queued id leaf epochId =>
    obtain ⟨hleaf, ⟨rec, hrec, hkey, hrleaf, hdescribed⟩, hepoch⟩ := h
    obtain ⟨rec', hrec', hadv⟩ := (hinv.effect he).2.devices client.did rec hrec
    have hsame : SameProfile rec rec' := hadv.same_profile (by simp [hrleaf])
    refine ⟨hleaf, ⟨rec', hrec', hsame.key_eq.trans hkey, hsame.leaf_eq.trans hrleaf,
      hsame.describes hdescribed⟩, ?_⟩
    rcases hepoch with ⟨hcurrent, e', he', hel⟩ | ⟨hpast, hdecided⟩
    · rcases he.epoch_cases with ⟨hsame', hq⟩ | ⟨hnext, excludeDids, result, hreq, hclosed⟩
      · exact .inl ⟨hsame'.trans hcurrent, e', hq _ e' he', hel⟩
      · refine .inr ⟨hcurrent ▸ hnext, fun hf ↦ ?_⟩
        have hleaves := hfree hf
        rw [hreq] at hleaves
        exact hinv.decided_closed hclosed (hleaves rfl) (.inl (Option.isSome_of_eq_some he'))
    · exact .inr ⟨lt_of_lt_of_le hpast he.epoch_le, fun hf ↦
        (hdecided hf).advance (hinv.effect he).2.devices⟩
  | failed stage r => exact h

theorem registerTurn_request {coins : ℕ}
    (hreq : client.request args coins stage = .ok (some request))
    (env : Env) (fog : Fog) : registerTurn node client args ⟨fog, stage⟩ (.device env coins) =
      ⟨(handle node env request fog).2, stage.answered (handle node env request fog).1⟩ := by
  simp only [registerTurn, hreq]
  rfl

theorem OnTrack.device (h : OnTrack client args free fog stage) (hp : Provisioned node client args)
    (hinv : Inv node fog) {coins : ℕ}
    (hu : Undisturbed node client ⟨fog, stage⟩ (.device env coins)) :
    ∃ fog' stage', registerTurn node client args ⟨fog, stage⟩ (.device env coins) =
      ⟨fog', stage'⟩ ∧ OnTrack client args free fog' stage' ∧ Inv node fog' ∧
      stage'.steps = min 4 (stage.steps + 1) := by
  have hkept : ∀ request, Inv node (handle node env request fog).2 := fun request ↦
    inv_step fog ⟨env, request⟩ hinv
  cases stage with
  | idle =>
    have hreq : client.request args coins .idle =
        .ok (some (.registerStart (some client.authorization))) := rfl
    have hanswer : handle node env (.registerStart (some client.authorization)) fog = _ :=
      hp.start env fog
    have hnew : Unclaimed (handle node env (.registerStart (some client.authorization)) fog).2
        client.did :=
      Unclaimed.effect h (handle_effect node env fog _) fun hreq ↦ by cases hreq
    refine ⟨_, _, registerTurn_request hreq env fog, ?_, hkept _, by rw [hanswer]; rfl⟩
    rw [hanswer] at hnew ⊢
    exact ⟨hnew, _, Table.get?_add_self _ _, rfl⟩
  | started id =>
    obtain ⟨hclaim, s, hs, hstate⟩ := h
    have hreq : client.request args coins (.started id) =
        .ok (some (.registerPubkey ⟨id, client.did, client.publicKeyHex⟩)) := rfl
    have hanswer : handle node env
        (.registerPubkey ⟨id, client.did, client.publicKeyHex⟩) fog = _ :=
      hp.submit hclaim hs hstate (hu s hs).1
    refine ⟨_, _, registerTurn_request hreq env fog, ?_, hkept _, by rw [hanswer]; rfl⟩
    rw [hanswer]
    refine ⟨submitted node env s ⟨id, client.did, client.publicKeyHex⟩, (env.draw 32).1, ?_,
      ⟨rfl, rfl, rfl, rfl, rfl⟩, rfl⟩
    exact (Table.get?_add _ _ _).trans (if_pos (Table.key_of_get? hs).symm)
  | challenged id challengeHex =>
    obtain ⟨s, challenge, hs, ha, rfl⟩ := h
    have hlive := hu s hs
    have hreq : client.request args coins (.challenged id (toHex challenge)) =
        .ok (some (.registerPop ⟨id, toHex (sign P client.privateKey coins
          (popMessage challenge client.did))⟩)) := by
      simp only [Client.request, Device.signChallenge, fromhex_toHex]
    have hanswer : handle node env (.registerPop ⟨id, toHex (sign P client.privateKey coins
        (popMessage challenge client.did))⟩) fog = _ :=
      hp.prove hs ha hlive.1 (hlive.2 ha.state_eq) coins
    refine ⟨_, _, registerTurn_request hreq env fog, ?_, hkept _, by rw [hanswer]; rfl⟩
    rw [hanswer]
    refine ⟨{ s with challengeUsed := true, state := .popVerified }, ?_,
      ⟨rfl, ha.did_eq, ha.key_eq⟩⟩
    exact (Table.get?_add _ _ _).trans (if_pos (Table.key_of_get? hs).symm)
  | proved id =>
    obtain ⟨s, hs, hproved⟩ := h
    obtain ⟨rec, hrec, hkey, -⟩ := hinv.undescribed hs hproved
    obtain ⟨batchSize, hdescribe⟩ := hp.describe hinv hs hproved (hu s hs).1
    have hreq : client.request args coins (.proved id) =
        .ok (some (.registerMetadata (client.metadata args id))) := rfl
    have hanswer : handle node env (.registerMetadata (client.metadata args id)) fog = _ :=
      hdescribe
    refine ⟨_, _, registerTurn_request hreq env fog, ?_, hkept _, by rw [hanswer]; rfl⟩
    rw [hanswer]
    refine ⟨rfl, ?_, .inl ⟨rfl, _, Table.get?_add_self _ _, rfl⟩⟩
    simp only [get?_setLeaf, get?_setMetadata, if_pos, hrec, Option.map_some]
    exact ⟨_, rfl, hkey, rfl, ⟨rfl, rfl, rfl, rfl, rfl⟩⟩
  | queued id leaf epochId => exact ⟨fog, .queued id leaf epochId, rfl, h, hinv, rfl⟩
  | failed stage r => exact h.elim

def isDevice : RegisterTurn → Bool
  | .device _ _ => true
  | .other _ => false

theorem track_run (hp : Provisioned node client args) {turns : List RegisterTurn}
    (world : Registering) (h : OnTrack client args free world.fog world.stage)
    (hinv : Inv node world.fog)
    (hfree : free → ∀ e, .other e ∈ turns → LeavesIn node client.did e.request)
    (hadm : Admissible (registerTurn node client args) (Undisturbed node client) world turns) :
    OnTrack client args free (run (registerTurn node client args) world turns).fog
        (run (registerTurn node client args) world turns).stage ∧
      (run (registerTurn node client args) world turns).stage.steps =
        min 4 (world.stage.steps + turns.countP isDevice) := by
  induction turns generalizing world with
  | nil =>
    refine ⟨h, ?_⟩
    rw [run_nil, List.countP_nil]
    cases hstage : world.stage <;> rfl
  | cons turn turns ih =>
    obtain ⟨hu, hrest⟩ := hadm
    obtain ⟨fog, stage⟩ := world
    have hlater : free → ∀ e, .other e ∈ turns → LeavesIn node client.did e.request :=
      fun hf e he ↦ hfree hf e (List.mem_cons_of_mem _ he)
    rw [run_cons]
    cases turn with
    | other e =>
      have htrack := h.other hinv hu fun hf ↦ hfree hf e List.mem_cons_self
      exact ih ⟨step node fog e, stage⟩ htrack (inv_step fog e hinv) hlater hrest
    | device env coins =>
      obtain ⟨fog', stage', hturn, htrack, hinv', hsteps⟩ := h.device hp hinv hu
      rw [hturn] at hrest ⊢
      obtain ⟨hend, hcount⟩ := ih ⟨fog', stage'⟩ htrack hinv' hlater hrest
      refine ⟨hend, hcount.trans ?_⟩
      have hcons : (RegisterTurn.device env coins :: turns).countP isDevice =
          turns.countP isDevice + 1 := List.countP_cons_of_pos rfl
      rw [hcons, hsteps]
      omega

theorem request_leavesIn {coins : ℕ} (hreq : client.request args coins stage = .ok (some request))
    (node : Node P) (did : String) : LeavesIn node did request := by
  cases stage with
  | challenged id challenge =>
    rw [Client.request] at hreq
    cases hsign : client.signChallenge coins challenge with
    | error e =>
      rw [hsign] at hreq
      cases hreq
    | ok signature =>
      rw [hsign] at hreq
      cases hreq
      trivial
  | queued id leaf epochId => cases hreq
  | failed name r => cases hreq
  | _ =>
    cases hreq
    trivial

/-- A turn handles a request, which is that of another or is in nobody's way. -/
theorem registerTurn_fog (node : Node P) (client : Client P) (args : MetadataArgs) (did : String)
    (world : Registering) (turn : RegisterTurn) :
    (registerTurn node client args world turn).fog = world.fog ∨
      ∃ e, (registerTurn node client args world turn).fog = step node world.fog e ∧
        (turn = .other e ∨ LeavesIn node did e.request) := by
  cases turn with
  | other e => exact .inr ⟨e, rfl, .inl rfl⟩
  | device env coins =>
    rw [registerTurn]
    cases hreq : client.request args coins world.stage with
    | error e => exact .inl rfl
    | ok request =>
      cases request with
      | none => exact .inl rfl
      | some request =>
        exact .inr ⟨⟨env, request⟩, rfl, .inr (request_leavesIn hreq node did)⟩

theorem unrevoked_run (args : MetadataArgs) {turns : List RegisterTurn}
    (hfree : ∀ e, .other e ∈ turns → LeavesIn node did e.request) (world : Registering)
    (hlive : ¬ Revoked world.fog did) :
    ¬ Revoked (run (registerTurn node client args) world turns).fog did := by
  induction turns generalizing world with
  | nil => exact hlive
  | cons turn turns ih =>
    refine ih (fun e he ↦ hfree e (List.mem_cons_of_mem _ he)) _ ?_
    rcases registerTurn_fog node client args did world turn with hsame | ⟨e, hstep, hleaves⟩
    · rwa [hsame]
    · rw [hstep]
      refine (step_effect node world.fog e).unrevoked ?_ hlive
      rcases hleaves with rfl | hleaves
      · exact hfree e List.mem_cons_self
      · exact hleaves

/-- What has come of a registration in which the device has taken so many of the turns. -/
structure Registers (node : Node P) (client : Client P) (args : MetadataArgs)
    (turns : List RegisterTurn) (world : Registering) : Prop where
  steps_eq : world.stage.steps = min 4 (turns.countP isDevice)
  not_failed : ∀ stage r, world.stage ≠ .failed stage r
  queued : 4 ≤ turns.countP isDevice → ∃ id epochId rec,
    world.stage = .queued id (toHex (clientLeaf client)) epochId ∧
    world.fog.devices.get? client.did = some rec ∧ rec.publicKey = client.publicKeyHex ∧
    rec.leaf = some (toHex (clientLeaf client)) ∧ DescribedBy rec (client.metadata args id) ∧
    (world.fog.epochs.currentEpochId = epochId ∧
      (∃ e, world.fog.epochs.pending.get? client.did = some e ∧ e.leaf = clientLeaf client) ∨
      epochId < world.fog.epochs.currentEpochId ∧
        ((∀ e, .other e ∈ turns → LeavesIn node client.did e.request) →
          rec.status = .registered))

theorem OnTrack.registers {turns : List RegisterTurn} (h : OnTrack client args
      (∀ e, .other e ∈ turns → LeavesIn node client.did e.request) fog stage)
    (hlive : (∀ e, .other e ∈ turns → LeavesIn node client.did e.request) →
      ¬ Revoked fog client.did)
    (hsteps : stage.steps = min 4 (turns.countP isDevice)) :
    Registers node client args turns ⟨fog, stage⟩ := by
  refine ⟨hsteps, fun name r hfailed ↦ ?_, fun hfour ↦ ?_⟩
  · obtain rfl : stage = .failed name r := hfailed
    exact h
  · rw [min_eq_left hfour] at hsteps
    cases stage with
    | queued id leaf epochId =>
      obtain ⟨rfl, ⟨rec, hrec, hkey, hleaf, hdescribed⟩, hepoch⟩ := h
      refine ⟨id, epochId, rec, rfl, hrec, hkey, hleaf, hdescribed, hepoch.imp_right ?_⟩
      rintro ⟨hpast, hdecided⟩
      refine ⟨hpast, fun hfree ↦ ?_⟩
      obtain ⟨rec', hrec', hstatus⟩ := hdecided hfree
      obtain rfl : rec = rec' := Option.some.inj (hrec.symm.trans hrec')
      exact hstatus.resolve_right fun hrevoked ↦ hlive hfree ⟨rec, hrec, hrevoked⟩
    | _ => cases hsteps

/-- A device whose registration is left alone completes it, and is registered by the next
close of the epoch unless it is excluded or revoked, whatever else happens. -/
theorem registration_completes (hp : Provisioned node client args) (actions : List Action)
    (hnew : Unclaimed (afterActions node Fog.init actions) client.did)
    {turns : List RegisterTurn}
    (hadm : Admissible (registerTurn node client args) (Undisturbed node client)
      ⟨afterActions node Fog.init actions, .idle⟩ turns) :
    Registers node client args turns (run (registerTurn node client args)
      ⟨afterActions node Fog.init actions, .idle⟩ turns) := by
  have hlive : ¬ Revoked (afterActions node Fog.init actions) client.did := by
    rintro ⟨rec, hrec, -⟩
    rw [hnew.no_record] at hrec
    cases hrec
  obtain ⟨htrack, hsteps⟩ := track_run hp ⟨afterActions node Fog.init actions, .idle⟩ hnew
    (inv_afterActions actions) id hadm
  rw [Stage.steps, Nat.zero_add] at hsteps
  exact htrack.registers (fun hfree ↦ unrevoked_run args hfree _ hlive) hsteps

end track

section defaults

theorem default_roles : ∀ e ∈ SIM_DEVICE_TYPE :: DEMO_DEVICES.map Prod.snd,
    ALLOWED_DEVICE_TYPES.contains e.1 = true ∧ ALLOWED_ROLES.contains e.2 = true ∧
      roleValidForType (some e.1) (some e.2) = true := by decide

theorem default_mem (client : Client P) :
    (DEMO_DEVICES.lookup client.name).getD SIM_DEVICE_TYPE ∈
      SIM_DEVICE_TYPE :: DEMO_DEVICES.map Prod.snd := by
  cases h : DEMO_DEVICES.lookup client.name with
  | none => exact List.mem_cons_self
  | some e =>
    obtain ⟨l₁, l₂, hl, -⟩ := List.lookup_eq_some_iff.mp h
    rw [Option.getD_some, hl]
    exact List.mem_cons_of_mem _ (List.mem_map.mpr ⟨(client.name, e), by simp, rfl⟩)

/-- What a device sends by default passes the checks of the fog's own zone, and its role
is one that its type may hold. -/
theorem default_metadata (client : Client P) (hname : nameMatches client.name = true)
    (id : String) :
    validateMetadata (client.metadata .default id) FOG_ZONE ALLOWED_DEVICE_TYPES = [] ∧
      roleValidForType (some (client.metadata .default id).deviceType)
        (some (client.metadata .default id).role) = true := by
  obtain ⟨htype, hrole, hvalid⟩ := default_roles _ (default_mem client)
  refine ⟨?_, hvalid⟩
  have hname : nameMatches (client.metadata .default id).deviceName = true := hname
  have htype : ALLOWED_DEVICE_TYPES.contains (client.metadata .default id).deviceType = true :=
    htype
  have hzone : (client.metadata .default id).zone = FOG_ZONE := rfl
  have hrole : ALLOWED_ROLES.contains (client.metadata .default id).role = true := hrole
  have hvendor : ALLOWED_VENDORS.contains (client.metadata .default id).vendor = true :=
    (by decide : ALLOWED_VENDORS.contains DEFAULT_VENDOR = true)
  rw [validateMetadata, if_pos hname, if_pos htype, if_pos hzone, if_pos hrole, if_pos hvendor]
  rfl

end defaults

/-- The device for which a key is provisioned. -/
def plainClient : Client plainPlatform := ⟨⟨plainKey 7⟩, "temp01", "0102"⟩

/-- The arguments that suit the zone of the fog. -/
def plainArgs : MetadataArgs := ⟨none, none, "Acme", "zone_a"⟩

theorem plain_provisioned : Provisioned plainNode plainClient plainArgs where
  header := by decide
  psk := by decide +kernel
  signs := plain_signsCorrectly (plainKey 7)
  length := congrArg Nat.succ (plainKey 7).2
  metadata _ := show validateMetadata (plainClient.metadata plainArgs "") _ _ = [] by decide

/-- The device registers while another one does the same and two epochs are closed. -/
def interleavedTurns : List RegisterTurn :=
  (registration (plainKey 9) 1 9).map .other ++
    [.device (plainEnv 2 7 none) 0, .other (plainEvent 3 3 (.epochClose [] (some "admin"))),
      .device (plainEnv 4 7 none) 0,
      .other (plainEvent 5 5 (.registerStart (some "PSK temp01:0102"))),
      .device (plainEnv 6 7 none) 0, .other (plainEvent 7 7 .epochCurrent),
      .device (plainEnv 8 7 none) 0, .other (plainEvent 9 9 (.epochClose [] (some "admin")))]

theorem registration_completes_interleaved :
    (∀ e, .other e ∈ interleavedTurns → LeavesIn plainNode plainClient.did e.request) ∧
    ((run (registerTurn plainNode plainClient plainArgs) ⟨Fog.init, .idle⟩
      interleavedTurns).fog.devices.get? plainClient.did).map DeviceRecord.status =
        some .registered ∧
    Registers plainNode plainClient plainArgs interleavedTurns
      (run (registerTurn plainNode plainClient plainArgs) ⟨Fog.init, .idle⟩
        interleavedTurns) := by
  have hnew : Unclaimed (afterActions plainNode Fog.init []) plainClient.did :=
    ⟨rfl, fun id s hs ↦ by cases hs⟩
  refine ⟨fun e he ↦ ?_, by decide +kernel,
    registration_completes plain_provisioned [] hnew (by decide +kernel)⟩
  rcases List.mem_append.mp he with he | he
  · obtain ⟨e', he', heq⟩ := List.mem_map.mp he
    cases heq
    simp only [registration, List.mem_cons, List.not_mem_nil, or_false] at he'
    rcases he' with rfl | rfl | rfl | rfl <;> trivial
  · simp only [List.mem_cons, RegisterTurn.other.injEq, reduceCtorEq, false_or, List.not_mem_nil,
      or_false] at he
    rcases he with rfl | rfl | rfl | rfl
    · exact fun _ ↦ List.not_mem_nil
    · trivial
    · trivial
    · exact fun _ ↦ List.not_mem_nil

end FogNode.Proofs
