import FogNode.Source.Concurrency
import FogNode.Source.OnboardingRace

namespace FogNode.Proofs

open FogNode.Library FogNode.Source

variable {P : Platform} (node : Node P) (calls : Calls) (race : Race)

/-- The phase in which `finalize_epoch` ends with the given outcome. -/
def endPhase : Except PyError EpochResult → ClosePhase
  | .ok result => .closed result
  | .error e => .raised e

/-- The fog after the loop over the packages. -/
def updated (result : EpochResult) (pkgs : List ProofPackage) (fog : Fog) : Fog :=
  { fog with
    devices := commitDevices result.epochId pkgs fog.devices
    epochs := { fog.epochs with latestPackage := fog.epochs.latestPackage.addAll pkgs } }

theorem updating_alone (result : EpochResult) (written rest : List ProofPackage) (fog : Fog) :
    Leads (turn node calls) .close { race with close := .updating result written rest, fog := fog }
      { race with
        close := .updating result (written ++ rest) []
        fog := updated result rest fog } := by
  induction rest generalizing written fog with
  | nil => rw [List.append_nil]; exact .refl _
  | cons pkg rest ih =>
    have hnext : ∀ fog', updated result rest fog' = updated result (pkg :: rest) fog →
        Leads (turn node calls) .close
          { race with close := .updating result (written ++ [pkg]) rest, fog := fog' }
          { race with
            close := .updating result (written ++ pkg :: rest) []
            fog := updated result (pkg :: rest) fog } := by
      intro fog' hfog
      have h := ih (written ++ [pkg]) fog'
      rwa [List.append_assoc, List.singleton_append, hfog] at h
    cases hrec : DeviceStore.get fog.devices pkg.did with
    | none =>
      have habsent : DeviceStore.commit fog.devices pkg.did pkg.leaf result.epochId =
          fog.devices := Table.modify_absent hrec _ _
      refine .head ?_
      simp only [turn, closeStep, hrec]
      refine hnext _ ?_
      simp only [updated, commitDevices, List.foldl_cons, habsent]
      rfl
    | some record =>
      refine .head ?_
      simp only [turn, closeStep, hrec]
      exact .head (hnext _ rfl)

/-- Without other threads `finalize_epoch` does what it does as one operation. -/
theorem close_alone : Leads (turn node calls) .close { race with close := .start }
    { race with
      close := endPhase (finalizeEpoch node calls.closeEnv calls.excludeDids race.fog).1
      fog := (finalizeEpoch node calls.closeEnv calls.excludeDids race.fog).2 } := by
  refine .head ?_
  simp only [turn, closeStep, finalizeEpoch]
  cases hm : collectMembers node race.fog (blockedDids race.fog.devices calls.excludeDids) with
  | error e => exact .one (by simp only [turn, closeStep, hm]; rfl)
  | ok out =>
    obtain ⟨members, new, carried⟩ := out
    dsimp only
    split
    case isTrue hempty => exact .one (by simp only [turn, closeStep, hm, if_pos hempty]; rfl)
    case isFalse hne =>
      refine .head ?_
      simp only [turn, closeStep, hm, if_neg hne, closeEpoch]
      cases ha : anchorEpoch node calls.closeEnv race.fog
          (blockedDids race.fog.devices calls.excludeDids) members new carried with
      | mk out fog =>
        cases out with
        | error e => exact .one (by simp only [turn, closeStep, ha]; rfl)
        | ok result =>
          refine .head ?_
          simp only [turn, closeStep, ha]
          exact (updating_alone node calls race result [] result.packages.values fog).trans
            (.one rfl)

theorem blacklisting_alone (i : ℕ) (tokenIds : List String) (fog : Fog) :
    Leads (turn node calls) (.revoke i)
      { race with
        revokes := Function.update race.revokes i (.blacklisting tokenIds)
        fog := fog }
      { race with
        revokes := Function.update race.revokes i (.returned true)
        fog := { fog with tokenState := revokeAll fog.tokenState tokenIds } } := by
  induction tokenIds generalizing fog with
  | nil =>
    refine .one ?_
    simp only [turn, Function.update_self, Function.update_idem, revokeStep]
    rfl
  | cons tokenId tokenIds ih =>
    refine .head ?_
    simp only [turn, Function.update_self, Function.update_idem, revokeStep]
    exact ih _

/-- Without other threads `revoke_device` does what it does as one operation. -/
theorem revoke_alone (i : ℕ) : Leads (turn node calls) (.revoke i)
    { race with revokes := Function.update race.revokes i .start }
    { race with
      revokes := Function.update race.revokes i
        (.returned (revokeDevice race.fog.devices (calls.revoked i) race.fog.tokenState).1)
      fog := { race.fog with
        devices := (revokeDevice race.fog.devices (calls.revoked i) race.fog.tokenState).2.1
        tokenState :=
          (revokeDevice race.fog.devices (calls.revoked i) race.fog.tokenState).2.2 } } := by
  refine .head ?_
  simp only [turn, Function.update_self, Function.update_idem, revokeStep, revokeDevice]
  cases DeviceStore.get race.fog.devices (calls.revoked i) with
  | none => exact .refl _
  | some record =>
    dsimp only
    refine .head (.head ?_)
    simp only [turn, Function.update_self, Function.update_idem, revokeStep]
    exact blacklisting_alone node calls race i _ _

/-- Without other threads `tokens_issue` does what it does as one operation. -/
theorem issue_alone : Leads (turn node calls) .issue { race with issue := .start }
    { race with
      issue := .answered (tokensIssue node calls.issueEnv calls.sessionId race.fog).1
      fog := (tokensIssue node calls.issueEnv calls.sessionId race.fog).2 } := by
  refine .head ?_
  simp only [turn, issueStep, tokensIssue]
  cases SessionStore.get race.fog.sessions node.sessionTtl calls.issueEnv.now calls.sessionId with
  | mk found sessions =>
    cases found with
    | none => exact .refl _
    | some session =>
      dsimp only
      split_ifs with hstate
      · exact .refl _
      · refine .head ?_
        simp only [turn, issueStep]
        cases session.did.bind (DeviceStore.get race.fog.devices) with
        | none => exact .refl _
        | some record =>
          dsimp only
          split_ifs
          · exact .refl _
          · exact .refl _
          · exact .refl _
          · exact .head (.one rfl)

theorem write_write (sessions : SessionStore) {s s' : Session}
    (hid : s'.sessionId = s.sessionId) :
    SessionStore.write (SessionStore.write sessions s) s' = SessionStore.write sessions s' := by
  cases hget : sessions.get? s.sessionId with
  | none => simp only [SessionStore.write, hid, hget]
  | some t =>
    simp only [SessionStore.write, hid, hget, Table.get?_add_self, Table.add_add _ hid]

/-- Without other threads `register_pubkey` does what it does as one operation. -/
theorem pubkey_alone (revoked : ℕ → String) (race : OnboardingRace) (env : Env)
    (body : PublicKeyRequest) : Leads (onboardingTurn node revoked) (.next body.sessionId)
    { race with
      threads := Function.update race.threads body.sessionId (.keyReceived env body) }
    { race with
      threads := Function.update race.threads body.sessionId
        (.idle (some (registerPubkey node env body race.fog).1))
      fog := (registerPubkey node env body race.fog).2 } := by
  refine .head ?_
  simp only [onboardingTurn, Function.update_self, Function.update_idem, onboardStep,
    registerPubkey]
  cases SessionStore.get race.fog.sessions node.sessionTtl env.now body.sessionId with
  | mk found sessions =>
    cases found with
    | none => exact .refl _
    | some s =>
      dsimp only
      by_cases hstate : s.state ≠ .authenticated
      · simp only [if_pos hstate]
        exact .refl _
      simp only [if_neg hstate]
      cases validPublicKey P body.publicKey with
      | error e => exact .refl _
      | ok pkBytes =>
        dsimp only
        by_cases hderived : body.did ≠ deriveDid P pkBytes
        · simp only [if_pos hderived]
          exact .refl _
        simp only [if_neg hderived]
        refine .head ?_
        simp only [onboardingTurn, Function.update_self, Function.update_idem, onboardStep]
        cases DeviceStore.get race.fog.devices body.did with
        | some existing => exact .refl _
        | none =>
          refine .head ?_
          simp only [onboardingTurn, Function.update_self, Function.update_idem, onboardStep]
          by_cases huse : SessionStore.didInUse sessions body.did s.sessionId = true
          · simp only [if_pos huse]
            exact .refl _
          simp only [if_neg huse]
          refine .head (.head (.head (.one ?_)))
          simp only [onboardingTurn, Function.update_self, Function.update_idem, onboardStep]
          rw [write_write, write_write, write_write]
          · rfl
          · rfl
          · rfl

/-- Without other threads `register_pop` does what it does as one operation. -/
theorem pop_alone (revoked : ℕ → String) (race : OnboardingRace) (env : Env)
    (body : PopRequest) : Leads (onboardingTurn node revoked) (.next body.sessionId)
    { race with
      threads := Function.update race.threads body.sessionId (.popReceived env body) }
    { race with
      threads := Function.update race.threads body.sessionId
        (.idle (some (registerPop node env body race.fog).1))
      fog := (registerPop node env body race.fog).2 } := by
  refine .head ?_
  simp only [onboardingTurn, Function.update_self, Function.update_idem, onboardStep, registerPop]
  cases SessionStore.get race.fog.sessions node.sessionTtl env.now body.sessionId with
  | mk found sessions =>
    cases found with
    | none => exact .refl _
    | some s =>
      dsimp only
      by_cases hstate : s.state ≠ .keySubmitted
      · simp only [if_pos hstate]
        exact .refl _
      simp only [if_neg hstate]
      refine .head ?_
      simp only [onboardingTurn, Function.update_self, Function.update_idem, onboardStep]
      cases verifyPop P s body.signature env.later with
      | mk out s' =>
        cases out with
        | error e => exact .refl _
        | ok result =>
          obtain ⟨passed, reason⟩ := result
          cases passed with
          | false =>
            refine .one ?_
            simp only [onboardingTurn, Function.update_self, Function.update_idem, onboardStep]
            rw [write_write]
            rfl
          | true =>
            refine .head (.one ?_)
            simp only [onboardingTurn, Function.update_self, Function.update_idem, onboardStep]
            have hwrites : SessionStore.write (SessionStore.write sessions s')
                { s' with state := .popVerified } =
                SessionStore.write sessions { s' with state := .popVerified } := write_write _ rfl
            simp only [hwrites]
            cases s'.did with
            | none => rfl
            | some did => cases s'.publicKey <;> rfl

end FogNode.Proofs
