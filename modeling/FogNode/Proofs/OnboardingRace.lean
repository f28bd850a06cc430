import FogNode.Proofs.Instance
import FogNode.Proofs.Steps
import FogNode.Source.OnboardingRace

namespace FogNode.Proofs

open FogNode.Library FogNode.Source

variable {P : Platform} {node : Node P} {revoked : ℕ → String} {race : OnboardingRace}
  {fog : Fog} {id : String} {s s' : Session}

/-- Two sessions are in KEY_SUBMITTED for one DID. -/
def Shared (race : OnboardingRace) : Prop :=
  ∃ id id' s s' did, id ≠ id' ∧ race.fog.sessions.get? id = some s ∧
    race.fog.sessions.get? id' = some s' ∧ s.state = .keySubmitted ∧ s'.state = .keySubmitted ∧
    s.did = some did ∧ s'.did = some did

/-- In this turn `/register/pop` enters a fresh record where there is one of that DID. -/
def Replaces (race : OnboardingRace) (rec : DeviceRecord) : OnboardingTurn → Prop
  | .next id => ∃ s publicKey, race.threads id = .popVerified s ∧ s.did = some rec.did ∧
      s.publicKey = some publicKey ∧ race.fog.devices.get? rec.did = some rec
  | _ => False

/-- One of the two checks of the DID would fail by now, where KEY_SUBMITTED is set next. -/
def staleAt (fog : Fog) : OnboardPhase → Bool
  | .keyChallenged _ body s => (DeviceStore.get fog.devices body.did).isSome ||
      SessionStore.didInUse fog.sessions body.did s.sessionId
  | _ => false

/-- In this turn `/register/pubkey` sets KEY_SUBMITTED on checks that would by now fail. -/
def Stale (race : OnboardingRace) : OnboardingTurn → Prop
  | .next id => staleAt race.fog (race.threads id) = true
  | _ => False

instance (race : OnboardingRace) : (t : OnboardingTurn) → Decidable (Stale race t)
  | .next id => inferInstanceAs (Decidable (staleAt race.fog (race.threads id) = true))
  | .pubkey _ _ | .pop _ _ | .revoke _ => inferInstanceAs (Decidable False)

/-- What the thread of a session knows of its object. -/
def PhaseOk (fog : Fog) (id : String) : OnboardPhase → Prop
  | .idle _ => True
  | .keyReceived _ body => body.sessionId = id
  | .popReceived _ body => body.sessionId = id
  | .keyValid _ _ s | .keyUnknown _ _ s | .keyUnused _ _ s =>
    fog.sessions.get? id = some s ∧ s.state = .authenticated
  | .keyNamed _ body s | .keyStored _ body s | .keyChallenged _ body s =>
    fog.sessions.get? id = some s ∧ s.state = .authenticated ∧ s.did = some body.did
  | .popFound _ _ s | .popJudged s _ _ =>
    fog.sessions.get? id = some s ∧ s.state = .keySubmitted
  | .popVerified s => fog.sessions.get? id = some s ∧ s.state = .popVerified ∧
      ∀ did, s.did = some did → fog.devices.get? did = none

/-- No two sessions hold one DID, and there is no record of a DID that is submitted. -/
structure Exclusive (fog : Fog) : Prop where
  unique : ∀ id id' s s' did, fog.sessions.get? id = some s → fog.sessions.get? id' = some s' →
    s.state ≠ .authenticated → s'.state ≠ .authenticated → s.did = some did →
    s'.did = some did → id = id'
  fresh : ∀ id s did, fog.sessions.get? id = some s → s.state = .keySubmitted →
    s.did = some did → fog.devices.get? did = none

structure RaceOk (race : OnboardingRace) : Prop where
  exclusive : Exclusive race.fog
  phases : ∀ id, PhaseOk race.fog id (race.threads id)

theorem PhaseOk.congr {fog' : Fog} {phase : OnboardPhase} (h : PhaseOk fog id phase)
    (hsessions : fog'.sessions.get? id = fog.sessions.get? id)
    (hdevices : ∀ s did, phase = .popVerified s → s.did = some did →
      fog.devices.get? did = none → fog'.devices.get? did = none) : PhaseOk fog' id phase := by
  cases phase with
  | popVerified s =>
    obtain ⟨hs, hstate, hnone⟩ := h
    exact ⟨hsessions.trans hs, hstate, fun did hdid ↦ hdevices s did rfl hdid (hnone did hdid)⟩
  | idle | keyReceived | popReceived => exact h
  | _ =>
    simp only [PhaseOk, hsessions]
    exact h

/-- What a step of the thread of one session may do. -/
theorem RaceOk.thread (h : RaceOk race) {fog' : Fog} {phase : OnboardPhase}
    (hexclusive : Exclusive fog') (hphase : PhaseOk fog' id phase)
    (hother : ∀ j, j ≠ id → fog'.sessions.get? j = race.fog.sessions.get? j)
    (hdevices : ∀ j s did, j ≠ id → race.threads j = .popVerified s → s.did = some did →
      race.fog.devices.get? did = none → fog'.devices.get? did = none) :
    RaceOk { race with threads := Function.update race.threads id phase, fog := fog' } where
  exclusive := hexclusive
  phases j := by
    dsimp only
    by_cases hj : j = id
    · subst hj
      rw [Function.update_self]
      exact hphase
    · rw [Function.update_of_ne hj]
      exact (h.phases j).congr (hother j hj) fun s did ↦ hdevices j s did hj

/-- A session may be written when its DID stays its own. -/
theorem Exclusive.write (h : Exclusive fog) (hs : fog.sessions.get? id = some s)
    (hid : s'.sessionId = s.sessionId)
    (hunique : ∀ did, s'.state ≠ .authenticated → s'.did = some did →
      ∀ j t, fog.sessions.get? j = some t → j ≠ id → t.state ≠ .authenticated → t.did ≠ some did)
    (hfresh : ∀ did, s'.state = .keySubmitted → s'.did = some did →
      fog.devices.get? did = none) :
    Exclusive { fog with sessions := SessionStore.write fog.sessions s' } := by
  have hkey : s'.sessionId = id := hid.trans (Table.key_of_get? hs)
  rw [session_write hs s' hid]
  constructor
  · intro j j' t t' did ht ht' hstate hstate' hdid hdid'
    simp only [Table.get?_add, hkey] at ht ht'
    split at ht <;> split at ht'
    case isTrue.isTrue hj hj' => exact hj.trans hj'.symm
    case isTrue.isFalse hj hj' =>
      cases ht
      exact absurd hdid' (hunique did hstate hdid j' t' ht' hj' hstate')
    case isFalse.isTrue hj hj' =>
      cases ht'
      exact absurd hdid (hunique did hstate' hdid' j t ht hj hstate)
    case isFalse.isFalse => exact h.unique j j' t t' did ht ht' hstate hstate' hdid hdid'
  · intro j t did ht hstate hdid
    simp only [Table.get?_add, hkey] at ht
    split at ht
    case isTrue => cases ht; exact hfresh did hstate hdid
    case isFalse => exact h.fresh j t did ht hstate hdid

/-- A thread may write its session when the DID stays its own. -/
theorem RaceOk.write (h : RaceOk race) (hs : race.fog.sessions.get? id = some s)
    (hid : s'.sessionId = s.sessionId)
    (hunique : ∀ did, s'.state ≠ .authenticated → s'.did = some did →
      ∀ j t, race.fog.sessions.get? j = some t → j ≠ id → t.state ≠ .authenticated →
        t.did ≠ some did)
    (hfresh : ∀ did, s'.state = .keySubmitted → s'.did = some did →
      race.fog.devices.get? did = none) {phase : OnboardPhase}
    (hphase : ∀ fog', fog'.sessions.get? id = some s' → fog'.devices = race.fog.devices →
      PhaseOk fog' id phase) :
    RaceOk { race with
      threads := Function.update race.threads id phase
      fog := { race.fog with sessions := SessionStore.write race.fog.sessions s' } } := by
  have hkey : s'.sessionId = id := hid.trans (Table.key_of_get? hs)
  have hget : ∀ j, (SessionStore.write race.fog.sessions s').get? j =
      if j = id then some s' else race.fog.sessions.get? j := by
    intro j
    rw [session_write hs s' hid, Table.get?_add, hkey]
  refine h.thread (h.exclusive.write hs hid hunique hfresh) (hphase _ ?_ rfl) ?_
    fun _ _ _ _ _ _ hnone ↦ hnone
  · rw [hget, if_pos rfl]
  · intro j hj
    rw [hget, if_neg hj]

theorem RaceOk.idles (h : RaceOk race) {phase : OnboardPhase}
    (hphase : PhaseOk race.fog id phase) :
    RaceOk { race with threads := Function.update race.threads id phase } :=
  h.thread h.exclusive hphase (fun _ _ ↦ rfl) fun _ _ _ _ _ _ hnone ↦ hnone

theorem session_missing {sessions sessions' : SessionStore} {ttl : ℤ} {now : ℚ}
    (h : SessionStore.get sessions ttl now id = (none, sessions')) :
    (∀ j, j ≠ id → sessions'.get? j = sessions.get? j) ∧
      ∀ j t, sessions'.get? j = some t → sessions.get? j = some t := by
  unfold SessionStore.get at h
  cases hs : sessions.get? id with
  | none =>
    simp only [hs, Prod.mk.injEq, true_and] at h
    subst h
    exact ⟨fun _ _ ↦ rfl, fun _ _ ht ↦ ht⟩
  | some s =>
    simp only [hs] at h
    split_ifs at h
    · simp only [Prod.mk.injEq, true_and] at h
      subst h
      refine ⟨fun j hj ↦ by rw [Table.get?_erase, if_neg hj], fun j t ht ↦ ?_⟩
      rw [Table.get?_erase] at ht
      split at ht
      · cases ht
      · exact ht
    · cases h

theorem RaceOk.missing (h : RaceOk race) {sessions : SessionStore} {ttl : ℤ} {now : ℚ}
    (hget : SessionStore.get race.fog.sessions ttl now id = (none, sessions))
    (answer : Option Response) :
    RaceOk { race with
      threads := Function.update race.threads id (.idle answer)
      fog := { race.fog with sessions := sessions } } := by
  obtain ⟨hother, hsub⟩ := session_missing hget
  refine h.thread ⟨?_, ?_⟩ trivial hother fun _ _ _ _ _ _ hnone ↦ hnone
  · intro j j' t t' did ht ht'
    exact h.exclusive.unique j j' t t' did (hsub j t ht) (hsub j' t' ht')
  · intro j t did ht
    exact h.exclusive.fresh j t did (hsub j t ht)

/-- The DID of a session past AUTHENTICATED is its own. -/
theorem Exclusive.alone (h : Exclusive fog) (hs : fog.sessions.get? id = some s)
    (hstate : s.state ≠ .authenticated) {did : String} (hdid : s.did = some did) :
    ∀ j t, fog.sessions.get? j = some t → j ≠ id → t.state ≠ .authenticated →
      t.did ≠ some did := by
  intro j t ht hj hstate' hdid'
  exact hj (h.unique j id t s did ht hs hstate' hstate hdid' hdid)

theorem RaceOk.keyReceived (h : RaceOk race) {env : Env} {body : PublicKeyRequest}
    (hthread : race.threads id = .keyReceived env body) :
    RaceOk (onboardingTurn node revoked race (.next id)) := by
  have hphase := h.phases id
  rw [hthread] at hphase
  obtain rfl : body.sessionId = id := hphase
  simp only [onboardingTurn, hthread, onboardStep]
  cases hget : SessionStore.get race.fog.sessions node.sessionTtl env.now body.sessionId with
  | mk found sessions =>
    cases found with
    | none => exact h.missing hget _
    | some s =>
      obtain ⟨hs, rfl⟩ := session_found hget
      dsimp only
      split_ifs with hstate
      · exact h.idles trivial
      · cases validPublicKey P body.publicKey with
        | error e => exact h.idles trivial
        | ok pkBytes =>
          dsimp only
          split_ifs
          · exact h.idles trivial
          · exact h.idles ⟨hs, not_not.mp hstate⟩

theorem RaceOk.popReceived (h : RaceOk race) {env : Env} {body : PopRequest}
    (hthread : race.threads id = .popReceived env body) :
    RaceOk (onboardingTurn node revoked race (.next id)) := by
  have hphase := h.phases id
  rw [hthread] at hphase
  obtain rfl : body.sessionId = id := hphase
  simp only [onboardingTurn, hthread, onboardStep]
  cases hget : SessionStore.get race.fog.sessions node.sessionTtl env.now body.sessionId with
  | mk found sessions =>
    cases found with
    | none => exact h.missing hget _
    | some s =>
      obtain ⟨hs, rfl⟩ := session_found hget
      dsimp only
      split_ifs with hstate
      · exact h.idles trivial
      · exact h.idles ⟨hs, not_not.mp hstate⟩

/-- While a session is in AUTHENTICATED its thread may write what it likes. -/
theorem RaceOk.unbound (h : RaceOk race) (hs : race.fog.sessions.get? id = some s)
    (hid : s'.sessionId = s.sessionId) (hstate : s'.state = .authenticated)
    {phase : OnboardPhase}
    (hphase : ∀ fog', fog'.sessions.get? id = some s' → fog'.devices = race.fog.devices →
      PhaseOk fog' id phase) :
    RaceOk { race with
      threads := Function.update race.threads id phase
      fog := { race.fog with sessions := SessionStore.write race.fog.sessions s' } } :=
  h.write hs hid (fun _ hne ↦ absurd hstate hne)
    (fun _ hsubmitted ↦ by rw [hstate] at hsubmitted; cases hsubmitted) hphase

/-- KEY_SUBMITTED is set while no record and no other session has the DID. -/
theorem RaceOk.keyChallenged (h : RaceOk race) {env : Env} {body : PublicKeyRequest}
    (hthread : race.threads id = .keyChallenged env body s)
    (hstale : ¬ Stale race (.next id)) :
    RaceOk (onboardingTurn node revoked race (.next id)) := by
  have hphase := h.phases id
  rw [hthread] at hphase
  obtain ⟨hs, hstate, hdid⟩ := hphase
  obtain ⟨hnone, huse⟩ : race.fog.devices.get? body.did = none ∧
      SessionStore.didInUse race.fog.sessions body.did s.sessionId = false := by
    have hnot : staleAt race.fog (.keyChallenged env body s) = false := by
      rw [← hthread, ← Bool.not_eq_true]
      exact hstale
    simp only [staleAt, Bool.or_eq_false_iff, Option.isSome_eq_false_iff,
      Option.isNone_iff_eq_none] at hnot
    exact hnot
  have hid : ({ s with state := .keySubmitted } : Session).sessionId = s.sessionId := rfl
  simp only [onboardingTurn, hthread, onboardStep]
  refine h.write hs hid (fun did _ hdid' ↦ ?_) (fun did _ hdid' ↦ ?_) fun _ _ _ ↦ trivial
  · cases hdid.symm.trans hdid'
    rw [Table.key_of_get? hs] at huse
    exact not_in_use huse
  · cases hdid.symm.trans hdid'
    exact hnone

theorem verifyPop_keeps (s : Session) (signature : String) (now : ℚ) :
    (verifyPop P s signature now).2.sessionId = s.sessionId ∧
      (verifyPop P s signature now).2.state = s.state ∧
      (verifyPop P s signature now).2.did = s.did := by
  rcases verifyPop_session (P := P) s signature now with ⟨he, -⟩ | he
  · rw [he]
    exact ⟨rfl, rfl, rfl⟩
  · rw [he]
    exact ⟨rfl, rfl, rfl⟩

/-- The DID of a session in KEY_SUBMITTED stays its own through the proof. -/
theorem RaceOk.proving (h : RaceOk race) (hs : race.fog.sessions.get? id = some s)
    (hstate : s.state = .keySubmitted) (hid : s'.sessionId = s.sessionId)
    (hdid : s'.did = s.did) {phase : OnboardPhase}
    (hphase : ∀ fog', fog'.sessions.get? id = some s' → fog'.devices = race.fog.devices →
      PhaseOk fog' id phase) :
    RaceOk { race with
      threads := Function.update race.threads id phase
      fog := { race.fog with sessions := SessionStore.write race.fog.sessions s' } } := by
  have hpast : s.state ≠ .authenticated := by simp [hstate]
  refine h.write hs hid (fun did _ hdid' ↦ ?_) (fun did _ hdid' ↦ ?_) hphase
  · exact h.exclusive.alone hs hpast (hdid.symm.trans hdid')
  · exact h.exclusive.fresh id s did hs hstate (hdid.symm.trans hdid')

theorem RaceOk.popFound (h : RaceOk race) {env : Env} {body : PopRequest}
    (hthread : race.threads id = .popFound env body s) :
    RaceOk (onboardingTurn node revoked race (.next id)) := by
  have hphase := h.phases id
  rw [hthread] at hphase
  obtain ⟨hs, hstate⟩ := hphase
  obtain ⟨hid, hstate', hdid⟩ := verifyPop_keeps (P := P) s body.signature env.later
  simp only [onboardingTurn, hthread, onboardStep]
  generalize verifyPop P s body.signature env.later = out at hid hstate' hdid
  match out with
  | (.error e, s') => exact h.proving hs hstate hid hdid fun _ _ _ ↦ trivial
  | (.ok (passed, reason), s') =>
    exact h.proving hs hstate hid hdid fun _ hget _ ↦ ⟨hget, hstate'.trans hstate⟩

theorem RaceOk.popJudged (h : RaceOk race) {passed : Bool} {reason : String}
    (hthread : race.threads id = .popJudged s passed reason) :
    RaceOk (onboardingTurn node revoked race (.next id)) := by
  have hphase := h.phases id
  rw [hthread] at hphase
  obtain ⟨hs, hstate⟩ := hphase
  have hid : ∀ state, ({ s with state := state } : Session).sessionId = s.sessionId := fun _ ↦ rfl
  simp only [onboardingTurn, hthread]
  cases passed with
  | false => exact h.unbound hs (hid .authenticated) rfl fun _ _ _ ↦ trivial
  | true =>
    refine h.proving hs hstate (hid .popVerified) rfl fun fog' hget hdevices ↦
      ⟨hget, rfl, fun did hdid ↦ ?_⟩
    rw [hdevices]
    exact h.exclusive.fresh id s did hs hstate hdid

/-- The record is entered for a DID that no other thread is about to enter. -/
theorem RaceOk.popVerified (h : RaceOk race) (hthread : race.threads id = .popVerified s) :
    RaceOk (onboardingTurn node revoked race (.next id)) := by
  have hphase := h.phases id
  rw [hthread] at hphase
  obtain ⟨hs, hstate, hnone⟩ := hphase
  have hpast : s.state ≠ .authenticated := by simp [hstate]
  simp only [onboardingTurn, hthread, onboardStep]
  cases hdid : s.did with
  | none => exact h.idles trivial
  | some did =>
    cases hkey : s.publicKey with
    | none => exact h.idles trivial
    | some publicKey =>
      dsimp only
      refine h.thread ⟨h.exclusive.unique, ?_⟩ trivial (fun _ _ ↦ rfl) ?_
      · intro j t did' ht hsubmitted hdid'
        rw [get?_upsert, if_neg]
        · exact h.exclusive.fresh j t did' ht hsubmitted hdid'
        · rintro rfl
          have hj := h.exclusive.unique j id t s did' ht hs (by simp [hsubmitted]) hpast hdid' hdid
          rw [hj, hs] at ht
          cases ht
          rw [hstate] at hsubmitted
          cases hsubmitted
      · intro j t did' hj hthread' hdid' hnone'
        rw [get?_upsert, if_neg]
        · exact hnone'
        · rintro rfl
          have hphase' := h.phases j
          rw [hthread'] at hphase'
          obtain ⟨ht, hstate', -⟩ := hphase'
          exact h.exclusive.alone hs hpast hdid j t ht hj (by simp [hstate']) hdid'

theorem RaceOk.assigns (h : RaceOk race)
    (hs : race.fog.sessions.get? id = some s ∧ s.state = .authenticated)
    (hid : s'.sessionId = s.sessionId) (hstate : s'.state = s.state) {phase : OnboardPhase}
    (hphase : ∀ fog', fog'.sessions.get? id = some s' ∧ s'.state = .authenticated →
      PhaseOk fog' id phase) :
    RaceOk { race with
      threads := Function.update race.threads id phase
      fog := { race.fog with sessions := SessionStore.write race.fog.sessions s' } } :=
  h.unbound hs.1 hid (hstate.trans hs.2) fun fog' hget _ ↦ hphase fog' ⟨hget, hstate.trans hs.2⟩

theorem RaceOk.next (h : RaceOk race) (hstale : ¬ Stale race (.next id)) :
    RaceOk (onboardingTurn node revoked race (.next id)) := by
  have hphase := h.phases id
  cases hthread : race.threads id with
  | idle answer =>
    simp only [onboardingTurn, hthread]
    exact h.idles trivial
  | keyReceived env body => exact h.keyReceived hthread
  | keyValid env body s =>
    rw [hthread] at hphase
    simp only [onboardingTurn, hthread, onboardStep]
    cases DeviceStore.get race.fog.devices body.did with
    | none => exact h.idles hphase
    | some existing => exact h.idles trivial
  | keyUnknown env body s =>
    rw [hthread] at hphase
    simp only [onboardingTurn, hthread, onboardStep]
    split_ifs
    · exact h.idles trivial
    · exact h.idles hphase
  | keyUnused env body s =>
    rw [hthread] at hphase
    have hid : ({ s with did := some body.did } : Session).sessionId = s.sessionId := rfl
    simp only [onboardingTurn, hthread, onboardStep]
    exact h.assigns hphase hid rfl fun _ hs ↦ ⟨hs.1, hs.2, rfl⟩
  | keyNamed env body s =>
    rw [hthread] at hphase
    obtain ⟨hs, hstate, hdid⟩ := hphase
    have hid : ({ s with publicKey := some body.publicKey } : Session).sessionId =
      s.sessionId := rfl
    simp only [onboardingTurn, hthread, onboardStep]
    exact h.assigns ⟨hs, hstate⟩ hid rfl fun _ hs' ↦ ⟨hs'.1, hs'.2, hdid⟩
  | keyStored env body s =>
    rw [hthread] at hphase
    obtain ⟨hs, hstate, hdid⟩ := hphase
    have hid : (issueChallenge s (env.tokenHex 32) env.later node.challengeTtl).sessionId =
      s.sessionId := rfl
    simp only [onboardingTurn, hthread, onboardStep]
    exact h.assigns ⟨hs, hstate⟩ hid rfl fun _ hs' ↦ ⟨hs'.1, hs'.2, hdid⟩
  | keyChallenged env body s => exact h.keyChallenged hthread hstale
  | popReceived env body => exact h.popReceived hthread
  | popFound env body s => exact h.popFound hthread
  | popJudged s passed reason => exact h.popJudged hthread
  | popVerified s => exact h.popVerified hthread

theorem RaceOk.begin (h : RaceOk race) {phase : OnboardPhase}
    (hphase : PhaseOk race.fog id phase) : RaceOk (race.begin id phase) := by
  unfold OnboardingRace.begin
  split
  · exact h.idles hphase
  · exact h

/-- Revoking a device neither adds a record nor takes one away. -/
theorem revokeStep_known (did : String) (phase : RevokePhase) (fog : Fog) :
    (revokeStep did phase fog).2.sessions = fog.sessions ∧
      ∀ j, fog.devices.get? j = none → (revokeStep did phase fog).2.devices.get? j = none := by
  cases phase with
  | start =>
    simp only [revokeStep]
    cases DeviceStore.get fog.devices did <;> exact ⟨rfl, fun _ h ↦ h⟩
  | known =>
    refine ⟨rfl, fun j hj ↦ ?_⟩
    simp only [revokeStep, get?_setStatus]
    split_ifs with he
    · rw [← he, hj]
      rfl
    · exact hj
  | blacklisting tokenIds => cases tokenIds <;> exact ⟨rfl, fun _ h ↦ h⟩
  | marked | returned => exact ⟨rfl, fun _ h ↦ h⟩

theorem RaceOk.turn (h : RaceOk race) {t : OnboardingTurn} (hstale : ¬ Stale race t) :
    RaceOk (onboardingTurn node revoked race t) := by
  cases t with
  | pubkey env body => exact h.begin rfl
  | pop env body => exact h.begin rfl
  | next id => exact h.next hstale
  | revoke i =>
    obtain ⟨hsessions, hdevices⟩ := revokeStep_known (revoked i) (race.revokes i) race.fog
    simp only [onboardingTurn]
    generalize revokeStep (revoked i) (race.revokes i) race.fog = out at hsessions hdevices
    refine ⟨⟨?_, ?_⟩, fun id ↦ ?_⟩
    · simp only [hsessions]
      exact h.exclusive.unique
    · simp only [hsessions]
      exact fun id s did hs hstate hdid ↦ hdevices did (h.exclusive.fresh id s did hs hstate hdid)
    · exact (h.phases id).congr (by rw [hsessions]) fun _ did _ _ ↦ hdevices did

theorem Inv.raceOk (h : Inv node fog) : RaceOk (.ofFog fog) := by
  refine ⟨⟨h.sessions.unique, fun id s did hs hstate hdid ↦ ?_⟩, fun _ ↦ trivial⟩
  obtain ⟨key, pk, hb⟩ := h.bound hs (by simp [hstate]) hdid
  exact enrolled_eq_none.mp (hb.submitted hstate)

theorem RaceOk.not_shared (h : RaceOk race) : ¬ Shared race := by
  rintro ⟨id, id', s, s', did, hne, hs, hs', hstate, hstate', hdid, hdid'⟩
  exact hne (h.exclusive.unique id id' s s' did hs hs' (by simp [hstate]) (by simp [hstate'])
    hdid hdid')

theorem RaceOk.not_replaces (h : RaceOk race) (rec : DeviceRecord) (t : OnboardingTurn) :
    ¬ Replaces race rec t := by
  cases t with
  | next id =>
    rintro ⟨s, publicKey, hthread, hdid, -, hrec⟩
    have hphase := h.phases id
    rw [hthread] at hphase
    rw [hphase.2.2 rec.did hdid] at hrec
    cases hrec
  | _ => exact id

/-- In every schedule in which KEY_SUBMITTED is set only while the checks of the DID would
still pass, no two sessions share a DID and no record is replaced. -/
theorem onboarded_by_one (node : Node P) (revoked : ℕ → String) (actions : List Action)
    (schedule : List OnboardingTurn)
    (hok : Admissible (onboardingTurn node revoked) (fun race t ↦ ¬ Stale race t)
      (.ofFog (afterActions node Fog.init actions)) schedule) :
    ∀ earlier later, schedule = earlier ++ later →
      ¬ Shared (run (onboardingTurn node revoked) (.ofFog (afterActions node Fog.init actions))
        earlier) ∧
      ∀ rec t, later.head? = some t →
        ¬ Replaces (run (onboardingTurn node revoked)
          (.ofFog (afterActions node Fog.init actions)) earlier) rec t := by
  rintro earlier later rfl
  have hrun : RaceOk (run (onboardingTurn node revoked)
      (.ofFog (afterActions node Fog.init actions)) earlier) :=
    run_invariant_of (fun race t h ht ↦ h.turn ht) (inv_afterActions actions).raceOk
      ((admissible_append _ _ _).mp hok).1
  exact ⟨hrun.not_shared, fun rec t _ ↦ hrun.not_replaces rec t⟩

/-- Two sessions that are open for one device. -/
def twoSessions : List Action :=
  [.request (plainEvent 0 7 (.registerStart (some "PSK temp01:0102"))),
    .request (plainEvent 0 8 (.registerStart (some "PSK temp01:0102")))]

def sessionOf (seed : UInt8) : String := toHex (List.replicate 16 seed)

/-- The turns in which the session submits the key of the device. -/
def submitKey (seed : UInt8) : OnboardingTurn :=
  .pubkey (plainEnv 0 seed none)
    ⟨sessionOf seed, plainDid 7, toHex (plainPlatform.publicBytes (plainKey 7))⟩

def provePossession (seed : UInt8) : OnboardingTurn :=
  .pop (plainEnv 0 seed none) ⟨sessionOf seed, toHex (plainPlatform.ecdsaSign (plainKey 7) 0
    (popMessage (List.replicate 32 seed) (plainDid 7)))⟩

def steps (seed : UInt8) (n : ℕ) : List OnboardingTurn :=
  List.replicate n (.next (sessionOf seed))

abbrev raceAfter (schedule : List OnboardingTurn) : OnboardingRace :=
  run (onboardingTurn plainNode fun _ ↦ plainDid 7)
    (.ofFog (afterActions plainNode Fog.init twoSessions)) schedule

/-- Both sessions pass the checks before either of them is in KEY_SUBMITTED. -/
def bothSubmit : List OnboardingTurn :=
  [submitKey 7, submitKey 8] ++ steps 7 3 ++ steps 8 3 ++ steps 7 4 ++ steps 8 4

/-- The first session proves possession, the device is revoked, and the second one proves
possession too, up to the entry of its record. -/
def revokedBetween : List OnboardingTurn :=
  bothSubmit ++ [provePossession 7] ++ steps 7 4 ++ List.replicate 4 (.revoke 0) ++
    [provePossession 8] ++ steps 8 3

/-- What a thread is about to enter. -/
def entering : OnboardPhase → Option (Option String × Option String)
  | .popVerified s => some (s.did, s.publicKey)
  | _ => none

/-- One session submits its key, and then the other one tries to. -/
theorem onboarded_by_one_first :
    ¬ Shared (raceAfter ([submitKey 7] ++ steps 7 7 ++ [submitKey 8] ++ steps 8 7)) :=
  (onboarded_by_one plainNode (fun _ ↦ plainDid 7) twoSessions
    ([submitKey 7] ++ steps 7 7 ++ [submitKey 8] ++ steps 8 7) (by decide +kernel) _ []
    (List.append_nil _).symm).1

/-- Two sessions are in KEY_SUBMITTED for one DID, and the record of a revoked device is
replaced by a pending one. -/
theorem revoked_record_replaced :
    Shared (raceAfter bothSubmit) ∧
      (∃ rec, rec.status = .revoked ∧
        Replaces (raceAfter revokedBetween) rec (.next (sessionOf 8))) ∧
      ∃ rec, (raceAfter (revokedBetween ++ [.next (sessionOf 8)])).fog.devices.get? (plainDid 7) =
        some rec ∧ rec.status = .pending := by
  have hrun : ((raceAfter bothSubmit).fog.sessions.get? (sessionOf 7)).map
        (fun s ↦ (s.state, s.did)) = some (.keySubmitted, some (plainDid 7)) ∧
      ((raceAfter bothSubmit).fog.sessions.get? (sessionOf 8)).map
        (fun s ↦ (s.state, s.did)) = some (.keySubmitted, some (plainDid 7)) ∧
      ((raceAfter revokedBetween).fog.devices.get? (plainDid 7)).map DeviceRecord.status =
        some .revoked ∧
      entering ((raceAfter revokedBetween).threads (sessionOf 8)) =
        some (some (plainDid 7), some (toHex (plainPlatform.publicBytes (plainKey 7)))) ∧
      ((raceAfter (revokedBetween ++ [.next (sessionOf 8)])).fog.devices.get? (plainDid 7)).map
        DeviceRecord.status = some .pending := by
    decide +kernel
  obtain ⟨hfirst, hsecond, hrevoked, hentering, hpending⟩ := hrun
  generalize raceAfter (revokedBetween ++ [.next (sessionOf 8)]) = replaced at hpending
  generalize raceAfter revokedBetween = before at hrevoked hentering
  generalize raceAfter bothSubmit = both at hfirst hsecond
  refine ⟨?_, ?_, ?_⟩
  · obtain ⟨s, hs, hs'⟩ := Option.map_eq_some_iff.mp hfirst
    obtain ⟨t, ht, ht'⟩ := Option.map_eq_some_iff.mp hsecond
    obtain ⟨hstate, hdid⟩ := Prod.mk.inj hs'
    obtain ⟨hstate', hdid'⟩ := Prod.mk.inj ht'
    have hne : sessionOf 7 ≠ sessionOf 8 := by decide +kernel
    exact ⟨_, _, s, t, plainDid 7, hne, hs, ht, hstate, hstate', hdid, hdid'⟩
  · obtain ⟨rec, hrec, hstatus⟩ := Option.map_eq_some_iff.mp hrevoked
    refine ⟨rec, hstatus, ?_⟩
    have hdid := Table.key_of_get? hrec
    unfold entering at hentering
    split at hentering
    case h_1 s hthread =>
      obtain ⟨hsdid, hskey⟩ := Prod.mk.inj (Option.some.inj hentering)
      exact ⟨s, _, hthread, hsdid.trans (congrArg some hdid.symm), hskey, hdid ▸ hrec⟩
    case h_2 => cases hentering
  · obtain ⟨rec, hrec, hstatus⟩ := Option.map_eq_some_iff.mp hpending
    exact ⟨rec, hrec, hstatus⟩

end FogNode.Proofs
