import FogNode.Proofs.Instance
import FogNode.Proofs.Steps

namespace FogNode.Proofs

open FogNode.Library FogNode.Source

variable {P : Platform} {node : Node P} {env : Env} {fog : Fog} {body : PublicKeyRequest}

/-- The answer to a DID that is in another onboarding session. -/
def alreadyOnboarding : Response := .error 409 "DID already in an onboarding session"

/-- The time of the session is up, as `SessionStore.get` reckons it. -/
def Expired (node : Node P) (now : ℚ) (s : Session) : Prop := s.createdAt + node.sessionTtl < now

instance (node : Node P) (now : ℚ) (s : Session) : Decidable (Expired node now s) :=
  inferInstanceAs (Decidable (s.createdAt + node.sessionTtl < now))

/-- A stored session other than the one that asks is past AUTHENTICATED with the DID. -/
structure HeldBy (fog : Fog) (body : PublicKeyRequest) (id : String) (t : Session) : Prop where
  stored : fog.sessions.get? id = some t
  other : id ≠ body.sessionId
  did_eq : t.did = some body.did
  past : t.state ≠ .authenticated

/-- A live AUTHENTICATED session submits a valid key and its DID, which is not on record. -/
structure InOrder (node : Node P) (env : Env) (fog : Fog) (body : PublicKeyRequest) : Prop where
  session : ∃ s, fog.sessions.get? body.sessionId = some s ∧ ¬ Expired node env.now s ∧
    s.state = .authenticated
  key : ∃ pk, validPublicKey P body.publicKey = .ok pk ∧ body.did = deriveDid P pk
  unknown : fog.devices.get? body.did = none

theorem didInUse_iff (fog : Fog) (body : PublicKeyRequest) :
    SessionStore.didInUse fog.sessions body.did body.sessionId = true ↔
      ∃ id t, HeldBy fog body id t := by
  simp only [SessionStore.didInUse, List.any_eq_true, decide_eq_true_eq]
  constructor
  · rintro ⟨t, ht, hdid, hother, hpast⟩
    exact ⟨t.sessionId, t, Table.mem_values.mp ht, hother, hdid, hpast⟩
  · rintro ⟨id, t, hstored, hother, hdid, hpast⟩
    have hkey : t.sessionId = id := Table.key_of_get? hstored
    exact ⟨t, Table.mem_values.mpr (Table.get?_key hstored), hdid, hkey ▸ hother, hpast⟩

/-- A request in order is refused for its DID exactly when another session holds the DID. -/
theorem InOrder.refused_iff (h : InOrder node env fog body) :
    (registerPubkey node env body fog).1 = alreadyOnboarding ↔ ∃ id t, HeldBy fog body id t := by
  obtain ⟨s, hs, hlive, hstate⟩ := h.session
  obtain ⟨pk, hpk, hdid⟩ := h.key
  have hid : s.sessionId = body.sessionId := Table.key_of_get? hs
  have hget : SessionStore.get fog.sessions node.sessionTtl env.now body.sessionId =
      (some s, fog.sessions) := by
    simp only [SessionStore.get, hs]
    exact if_neg hlive
  rw [← didInUse_iff, registerPubkey, hget]
  simp only [hstate, hpk, ← hdid, DeviceStore.get, h.unknown, hid, ne_eq, not_true_eq_false,
    if_false]
  split_ifs with huse
  · exact iff_of_true rfl huse
  · refine iff_of_false (fun he ↦ ?_) huse
    cases he

/-- A DID is refused as already onboarding only for a session that has not expired. -/
def FairRefusal (node : Node P) (fog : Fog) (e : Event) : Prop :=
  ∀ body, e.request = .registerPubkey body → InOrder node e.env fog body →
    answer node fog e = alreadyOnboarding →
    ∃ id t, HeldBy fog body id t ∧ ¬ Expired node e.env.now t

/-- No expired session past AUTHENTICATED is stored with the DID. -/
def NoneAbandoned (node : Node P) (fog : Fog) (e : Event) : Prop :=
  ∀ body, e.request = .registerPubkey body → InOrder node e.env fog body →
    ∀ id t, HeldBy fog body id t → ¬ Expired node e.env.now t

theorem answer_pubkey {e : Event} (hreq : e.request = .registerPubkey body) :
    answer node fog e = (registerPubkey node e.env body fog).1 := by
  rw [answer, hreq]
  rfl

theorem Inv.same_holder (h : Inv node fog) {id id' : String} {t t' : Session}
    (ht : HeldBy fog body id t) (ht' : HeldBy fog body id' t') : t = t' := by
  obtain rfl := h.sessions.unique id id' t t' body.did ht.stored ht'.stored ht.past ht'.past
    ht.did_eq ht'.did_eq
  exact Option.some.inj (ht.stored.symm.trans ht'.stored)

theorem Inv.fairRefusal_iff (fog : Fog) (e : Event) (h : Inv node fog) :
    FairRefusal node fog e ↔ NoneAbandoned node fog e := by
  constructor
  · intro hfair body hreq horder id t ht hexpired
    have hrefused := horder.refused_iff.mpr ⟨id, t, ht⟩
    rw [← answer_pubkey hreq] at hrefused
    obtain ⟨id', t', ht', hlive⟩ := hfair body hreq horder hrefused
    exact hlive (h.same_holder ht ht' ▸ hexpired)
  · intro hnone body hreq horder hrefused
    rw [answer_pubkey hreq] at hrefused
    obtain ⟨id, t, ht⟩ := horder.refused_iff.mp hrefused
    exact ⟨id, t, ht, hnone body hreq horder id t ht⟩

/-- The runs without unfair refusals are those in which no DID comes back while an abandoned
session still holds it. -/
theorem refusals_fair_iff (node : Node P) (events : List Event) :
    Admissible (step node) (FairRefusal node) Fog.init events ↔
      Admissible (step node) (NoneAbandoned node) Fog.init events :=
  admissible_congr inv_step Inv.fairRefusal_iff inv_init events

/-- The session with that number submits the key of a device. -/
def submission (seed : UInt8) : PublicKeyRequest :=
  let pk := plainPlatform.publicBytes (plainKey 7)
  ⟨toHex (List.replicate 16 seed), deriveDid plainPlatform pk, toHex pk⟩

/-- A device is given up after its key was submitted, and its session expires before another
one is started for it. -/
def abandonedRun : List Event :=
  [plainEvent 0 5 (.registerStart (some "PSK temp01:0102")),
    plainEvent 0 5 (.registerPubkey (submission 5)),
    plainEvent 400 6 (.registerStart (some "PSK temp01:0102"))]

theorem abandoned_blocks :
    ¬ Admissible (step plainNode) (FairRefusal plainNode) Fog.init
      (abandonedRun ++ [plainEvent 400 6 (.registerPubkey (submission 6))]) := by
  rw [admissible_append]
  rintro ⟨-, hfair, -⟩
  have hinv : Inv plainNode (after plainNode Fog.init abandonedRun) := inv_after abandonedRun
  have hnone := (hinv.fairRefusal_iff _ _).mp hfair
  have hnew : ((after plainNode Fog.init abandonedRun).sessions.get? (submission 6).sessionId).any
      (fun s ↦ decide (¬ Expired plainNode 400 s ∧ s.state = .authenticated)) =
      true := by decide +kernel
  have hold : ((after plainNode Fog.init abandonedRun).sessions.get? (submission 5).sessionId).any
      (fun t ↦ decide (t.did = some (submission 6).did ∧ t.state ≠ .authenticated ∧
        Expired plainNode 400 t)) = true := by decide +kernel
  obtain ⟨s, hs, hlive⟩ := (Option.any_eq_true _ _).mp hnew
  obtain ⟨t, ht, hgone⟩ := (Option.any_eq_true _ _).mp hold
  rw [decide_eq_true_eq] at hlive hgone
  refine hnone (submission 6) rfl ⟨⟨s, hs, hlive⟩, ?_, ?_⟩ _ t ⟨ht, by decide, hgone.1, hgone.2.1⟩
    hgone.2.2
  · exact ⟨plainPlatform.publicBytes (plainKey 7), by decide +kernel, rfl⟩
  · decide +kernel

end FogNode.Proofs
