import FogNode.Proofs.LostRevocation
import FogNode.Proofs.Steps

namespace FogNode.Proofs

open FogNode.Library FogNode.Source

variable {P : Platform} {node : Node P} {calls : Calls} {race : Race} {fog : Fog} {did : String}

/-- The devices whose records `finalize_epoch` has updated. -/
def committed : ClosePhase → List String
  | .updating _ written _ | .found _ written _ _ => written.map ProofPackage.did
  | .closed result => result.packages.values.map ProofPackage.did
  | _ => []

/-- The tokens that a call of `revoke_device` still has to revoke, once it has read them. -/
def remaining : RevokePhase → Option (List String)
  | .blacklisting tokenIds => some tokenIds
  | .returned true => some []
  | _ => none

/-- A call of `revoke_device` for the device has read its tokens without this one. -/
def Missed (calls : Calls) (race : Race) (tokenId did : String) : Prop :=
  ∃ i tokenIds, calls.revoked i = did ∧ remaining (race.revokes i) = some tokenIds ∧
    tokenId ∉ tokenIds ∧ tokenId ∉ race.fog.tokenState.revokedTokenIds

/-- `tokens_issue` is about to write TOKENIZED for a device that is in the new root, or
for one that was revoked without the new token. -/
def Regresses (calls : Calls) (race : Race) : Turn → Prop
  | .issue => ∃ tokenId did token, race.issue = .recorded tokenId did token ∧
      (did ∈ committed race.close ∨ Missed calls race tokenId did)
  | _ => False

/-- What issuing a token must never leave behind. -/
structure NeverBack (calls : Calls) (race : Race) : Prop where
  committed : ∀ did ∈ committed race.close, ∀ rec, race.fog.devices.get? did = some rec →
    rec.status ≠ .tokenized
  revoked : ∀ i, race.revokes i = .returned true → ∀ rec,
    race.fog.devices.get? (calls.revoked i) = some rec → rec.status = .tokenized →
    ∀ tokenId, race.fog.tokenState.issued.get? tokenId = some (calls.revoked i) →
      tokenId ∈ race.fog.tokenState.revokedTokenIds

/-- The record of the device, if there is one, is past TOKENIZED. -/
def Past (devices : DeviceStore) (did : String) : Prop :=
  ∀ rec, devices.get? did = some rec → rec.status = .registered ∨ rec.status = .revoked

def Over : IssuePhase → Prop
  | .absent | .answered _ => True
  | _ => False

/-- The loop of `finalize_epoch` runs over all its packages. -/
def Complete : ClosePhase → Prop
  | .updating result written rest => result.packages.values = written ++ rest
  | .found result written pkg rest => result.packages.values = written ++ pkg :: rest
  | _ => True

/-- Every token of the device is revoked or about to be, except for one that is recorded
for it while its handler still has to write the status. -/
def Covered (race : Race) (did : String) (tokenIds : List String) : Prop :=
  ∀ tokenId, race.fog.tokenState.issued.get? tokenId = some did →
    tokenId ∈ race.fog.tokenState.revokedTokenIds ∨ tokenId ∈ tokenIds ∨
      ∃ token, race.issue = .recorded tokenId did token

structure Guarded (calls : Calls) (race : Race) : Prop where
  complete : Complete race.close
  past : ∀ did ∈ Proofs.committed race.close, Past race.fog.devices did
  marked : ∀ i, race.revokes i = .marked ∨ (remaining (race.revokes i)).isSome →
    ¬ Over race.issue → Past race.fog.devices (calls.revoked i)
  covered : ∀ i tokenIds, remaining (race.revokes i) = some tokenIds →
    Covered race (calls.revoked i) tokenIds

theorem Past.modified {devices devices' : DeviceStore} {did' : String}
    {t : DeviceRecord → DeviceRecord} (h : Past devices did)
    (hg : devices'.get? did = if did = did' then (devices.get? did').map t else devices.get? did)
    (ht : ∀ rec, (t rec).status = .registered ∨ (t rec).status = .revoked) : Past devices' did := by
  intro rec hrec
  rw [hg] at hrec
  split at hrec
  case isTrue =>
    obtain ⟨r, -, rfl⟩ := Option.map_eq_some_iff.mp hrec
    exact ht r
  case isFalse => exact h rec hrec

/-- What one step of `finalize_epoch` adds to the devices it has committed. -/
theorem closeStep_committed (node : Node P) (env : Env) (excludeDids : List String)
    {phase : ClosePhase} (fog : Fog) (hc : Complete phase) :
    Complete (closeStep node env excludeDids phase fog).1 ∧
      ∀ did ∈ committed (closeStep node env excludeDids phase fog).1,
        did ∈ committed phase ∨ Past (closeStep node env excludeDids phase fog).2.devices did := by
  cases phase with
  | start => exact ⟨trivial, fun _ h ↦ absurd h List.not_mem_nil⟩
  | blocked blocked =>
    simp only [closeStep]
    cases collectMembers node fog blocked with
    | error e => exact ⟨trivial, fun _ h ↦ absurd h List.not_mem_nil⟩
    | ok out =>
      dsimp only
      split <;> exact ⟨trivial, fun _ h ↦ absurd h List.not_mem_nil⟩
  | collected blocked members new carried =>
    simp only [closeStep]
    cases anchorEpoch node env fog blocked members new carried with
    | mk out fog' =>
      cases out with
      | error e => exact ⟨trivial, fun _ h ↦ absurd h List.not_mem_nil⟩
      | ok result => exact ⟨rfl, fun _ h ↦ absurd h List.not_mem_nil⟩
  | updating result written rest =>
    cases rest with
    | nil =>
      simp only [Complete, List.append_nil] at hc
      exact ⟨trivial, fun did h ↦ .inl (by simpa only [committed, closeStep, hc] using h)⟩
    | cons pkg rest =>
      simp only [closeStep]
      cases hrec : DeviceStore.get fog.devices pkg.did with
      | some rec => exact ⟨hc, fun _ h ↦ .inl h⟩
      | none =>
        refine ⟨by simpa [Complete] using hc, fun did h ↦ ?_⟩
        simp only [committed, List.map_append, List.mem_append, List.map_cons, List.map_nil,
          List.mem_singleton] at h ⊢
        refine h.imp_right ?_
        rintro rfl rec hget
        rw [DeviceStore.get] at hrec
        rw [hrec] at hget
        cases hget
  | found result written pkg rest =>
    refine ⟨by simpa [Complete, closeStep] using hc, fun did h ↦ ?_⟩
    simp only [committed, closeStep, List.map_append, List.mem_append, List.map_cons,
      List.map_nil, List.mem_singleton] at h ⊢
    refine h.imp_right ?_
    rintro rfl rec hget
    rw [get?_commit, if_pos rfl] at hget
    obtain ⟨r, -, rfl⟩ := Option.map_eq_some_iff.mp hget
    exact .inl rfl
  | closed result => exact ⟨trivial, fun _ h ↦ .inl h⟩
  | raised e => exact ⟨trivial, fun _ h ↦ absurd h List.not_mem_nil⟩

theorem Guarded.close (h : Guarded calls race) : Guarded calls (turn node calls race .close) := by
  obtain ⟨htokens, hwrites⟩ :=
    closeStep_writes node calls.closeEnv calls.excludeDids race.close race.fog
  obtain ⟨hcomplete, hcommitted⟩ :=
    closeStep_committed node calls.closeEnv calls.excludeDids race.fog h.complete
  have hpast : ∀ did, Past race.fog.devices did →
      Past (closeStep node calls.closeEnv calls.excludeDids race.close race.fog).2.devices did := by
    intro did hp
    rcases hwrites with hsame | ⟨result, written, pkg, rest, -, hcommit⟩
    · rwa [hsame]
    · rw [hcommit]
      exact hp.modified (get?_commit _ _ _ _ _) fun _ ↦ .inl rfl
  refine ⟨hcomplete, fun did hdid ↦ ?_, fun i hi ho ↦ hpast _ (h.marked i hi ho),
    fun i tokenIds hi tokenId ht ↦ ?_⟩
  · exact (hcommitted did hdid).elim (fun hold ↦ hpast did (h.past did hold)) id
  · simp only [turn, htokens] at ht ⊢
    exact h.covered i tokenIds hi tokenId ht

/-- The writes of `revoke_device` leave the records past TOKENIZED, and only revoke tokens. -/
theorem revokeStep_writes (did' : String) (phase : RevokePhase) (fog : Fog) :
    (∀ did, Past fog.devices did → Past (revokeStep did' phase fog).2.devices did) ∧
      (revokeStep did' phase fog).2.tokenState.issued = fog.tokenState.issued ∧
      ∀ t ∈ fog.tokenState.revokedTokenIds,
        t ∈ (revokeStep did' phase fog).2.tokenState.revokedTokenIds := by
  cases phase with
  | start => simp only [revokeStep]; split <;> exact ⟨fun _ h ↦ h, rfl, fun _ h ↦ h⟩
  | known =>
    exact ⟨fun did h ↦ h.modified (get?_setStatus _ _ _ did) fun _ ↦ .inr rfl, rfl, fun _ h ↦ h⟩
  | marked => exact ⟨fun _ h ↦ h, rfl, fun _ h ↦ h⟩
  | blacklisting tokenIds =>
    cases tokenIds with
    | nil => exact ⟨fun _ h ↦ h, rfl, fun _ h ↦ h⟩
    | cons t ts => exact ⟨fun _ h ↦ h, rfl, fun _ h ↦ List.mem_cons_of_mem _ h⟩
  | returned known => exact ⟨fun _ h ↦ h, rfl, fun _ h ↦ h⟩

theorem revokeStep_marked {i : ℕ} (h : Guarded calls race) {out : RevokePhase × Fog}
    (hout : revokeStep (calls.revoked i) (race.revokes i) race.fog = out) :
    (out.1 = .marked ∨ (remaining out.1).isSome → ¬ Over race.issue →
        Past out.2.devices (calls.revoked i)) ∧
      ∀ tokenIds, remaining out.1 = some tokenIds → ∀ tokenId,
        out.2.tokenState.issued.get? tokenId = some (calls.revoked i) →
        tokenId ∈ out.2.tokenState.revokedTokenIds ∨ tokenId ∈ tokenIds ∨
          ∃ token, race.issue = .recorded tokenId (calls.revoked i) token := by
  have hmarked := h.marked i
  have hcovered := h.covered i
  subst hout
  cases hphase : race.revokes i with
  | start => simp only [revokeStep]; split <;> simp [remaining]
  | known =>
    refine ⟨fun _ _ rec hrec ↦ ?_, by simp [revokeStep, remaining]⟩
    simp only [revokeStep, get?_setStatus, if_true] at hrec
    obtain ⟨r, -, rfl⟩ := Option.map_eq_some_iff.mp hrec
    exact .inr rfl
  | marked =>
    refine ⟨fun _ ho ↦ hmarked (.inl hphase) ho, fun tokenIds hr tokenId ht ↦ ?_⟩
    simp only [revokeStep, remaining, Option.some.injEq] at hr ht
    subst hr
    exact .inr (.inl (mem_tokensOf.mpr ht))
  | blacklisting tokenIds =>
    rw [hphase] at hmarked hcovered
    cases tokenIds with
    | nil => exact ⟨fun _ ho ↦ hmarked (.inr rfl) ho, fun ts hr ↦ hcovered ts hr⟩
    | cons t ts =>
      refine ⟨fun _ ho ↦ hmarked (.inr rfl) ho, fun tokenIds hr tokenId ht ↦ ?_⟩
      simp only [revokeStep, remaining, Option.some.injEq] at hr
      subst hr
      rcases hcovered _ rfl tokenId ht with hin | hin | hin
      · exact .inl (List.mem_cons_of_mem _ hin)
      · rcases List.mem_cons.mp hin with rfl | hin
        · exact .inl List.mem_cons_self
        · exact .inr (.inl hin)
      · exact .inr (.inr hin)
  | returned known =>
    rw [hphase] at hmarked hcovered
    exact ⟨hmarked, hcovered⟩

theorem Guarded.revoke (h : Guarded calls race) (i : ℕ) :
    Guarded calls (turn node calls race (.revoke i)) := by
  obtain ⟨hpast, hissued, hrevoked⟩ :=
    revokeStep_writes (calls.revoked i) (race.revokes i) race.fog
  obtain ⟨hown, hcovers⟩ := revokeStep_marked h (i := i) rfl
  refine ⟨h.complete, fun did hdid ↦ hpast did (h.past did hdid), fun j hj ho ↦ ?_,
    fun j tokenIds hj ↦ ?_⟩
  · by_cases hji : j = i
    · subst hji
      simp only [turn, Function.update_self] at hj
      exact hown hj ho
    · simp only [turn, Function.update_of_ne hji] at hj
      exact hpast _ (h.marked j hj ho)
  · by_cases hji : j = i
    · subst hji
      simp only [turn, Function.update_self] at hj
      exact hcovers tokenIds hj
    · simp only [turn, Function.update_of_ne hji] at hj
      intro tokenId ht
      simp only [turn, hissued] at ht
      exact (h.covered j tokenIds hj tokenId ht).imp (hrevoked tokenId) id

/-- A step of `tokens_issue` that writes neither a status nor a token. -/
theorem Guarded.frame (h : Guarded calls race) {phase : IssuePhase} {fog : Fog}
    (hdevices : fog.devices = race.fog.devices) (htokens : fog.tokenState = race.fog.tokenState)
    (hover : Over race.issue → Over phase)
    (hissue : ∀ tokenId did token, race.issue ≠ .recorded tokenId did token) :
    Guarded calls { race with issue := phase, fog := fog } where
  complete := h.complete
  past did hdid := hdevices ▸ h.past did hdid
  marked i hi ho := hdevices ▸ h.marked i hi (mt hover ho)
  covered i tokenIds hi tokenId ht := by
    simp only [htokens] at ht ⊢
    rcases h.covered i tokenIds hi tokenId ht with hin | hin | ⟨token, hrecorded⟩
    · exact .inl hin
    · exact .inr (.inl hin)
    · exact absurd hrecorded (hissue _ _ _)

theorem Guarded.issue (h : Guarded calls race) (hok : ¬ Regresses calls race .issue) :
    Guarded calls (turn node calls race .issue) := by
  have hframe := @Guarded.frame calls race h
  have hmarked := h.marked
  have hcovered := h.covered
  simp only [turn]
  cases hphase : race.issue with
  | absent => exact hframe rfl rfl (fun _ ↦ trivial) (by simp [hphase])
  | start =>
    simp only [issueStep]
    split
    · exact hframe rfl rfl (fun _ ↦ trivial) (by simp [hphase])
    · split
      · exact hframe rfl rfl (fun _ ↦ trivial) (by simp [hphase])
      · exact hframe rfl rfl (by simp [hphase, Over]) (by simp [hphase])
  | found did =>
    simp only [issueStep]
    split
    · exact hframe rfl rfl (fun _ ↦ trivial) (by simp [hphase])
    · split_ifs
      · exact hframe rfl rfl (fun _ ↦ trivial) (by simp [hphase])
      · exact hframe rfl rfl (fun _ ↦ trivial) (by simp [hphase])
      · exact hframe rfl rfl (fun _ ↦ trivial) (by simp [hphase])
      · exact hframe rfl rfl (by simp [hphase, Over]) (by simp [hphase])
  | admitted tokenId did token =>
    refine ⟨h.complete, h.past, fun i hi _ ↦ hmarked i hi (by simp [hphase, Over]),
      fun i tokenIds hi t ht ↦ ?_⟩
    simp only [issueStep, TokenState.recordIssued, Dict.get?_set] at ht
    split at ht
    case isTrue he =>
      simp only [Option.some.injEq] at ht
      exact .inr (.inr ⟨token, by rw [he, ← ht]; rfl⟩)
    case isFalse =>
      rcases hcovered i tokenIds hi t ht with hin | hin | ⟨token', hrecorded⟩
      · exact .inl hin
      · exact .inr (.inl hin)
      · rw [hphase] at hrecorded
        cases hrecorded
  | recorded tokenId did token =>
    have hnew : did ∉ Proofs.committed race.close ∧ ¬ Missed calls race tokenId did := by
      rw [← not_or]
      exact fun hbad ↦ hok ⟨tokenId, did, token, hphase, hbad⟩
    refine ⟨h.complete, fun did' hdid' rec hrec ↦ ?_, fun i hi ho ↦ absurd trivial ho,
      fun i tokenIds hi t ht ↦ ?_⟩
    · have hne : did' ≠ did := fun he ↦ hnew.1 (he ▸ hdid')
      simp only [issueStep, get?_setStatus, if_neg hne] at hrec
      exact h.past did' hdid' rec hrec
    · rcases hcovered i tokenIds hi t ht with hin | hin | ⟨token', hrecorded⟩
      · exact .inl hin
      · exact .inr (.inl hin)
      · -- the token just recorded is covered, or else a call would have missed it
        rw [hphase] at hrecorded
        cases hrecorded
        by_contra hnone
        simp only [issueStep, not_or] at hnone
        exact hnew.2 ⟨i, tokenIds, rfl, hi, hnone.2.1, hnone.1⟩
  | answered r => exact hframe rfl rfl (fun _ ↦ trivial) (by simp [hphase])

theorem Guarded.turn (h : Guarded calls race) {t : Turn} (ht : ¬ Regresses calls race t) :
    Guarded calls (Source.turn node calls race t) := by
  cases t with
  | close => exact h.close
  | issue => exact h.issue ht
  | revoke i => exact h.revoke i

theorem Guarded.neverBack (h : Guarded calls race) : NeverBack calls race := by
  constructor
  · intro did hdid rec hrec hs
    rcases h.past did hdid rec hrec with hs' | hs' <;> rw [hs] at hs' <;> cases hs'
  · intro i hi rec hrec hs tokenId ht
    rcases h.covered i [] (by rw [hi]; rfl) tokenId ht with hin | hin | ⟨token, hrecorded⟩
    · exact hin
    · cases hin
    · exfalso
      have hpast := h.marked i (.inr (by rw [hi]; rfl)) (by simp [hrecorded, Over]) rec hrec
      rcases hpast with hs' | hs' <;> rw [hs] at hs' <;> cases hs'

/-- In every schedule in which `tokens_issue` never writes TOKENIZED too late, neither a
new root nor a revocation is undone by it. -/
theorem token_never_moves_back (node : Node P) (calls : Calls) (fog : Fog) (schedule : List Turn)
    (hok : Admissible (turn node calls) (fun race t ↦ ¬ Regresses calls race t) (.ofIssue fog)
      schedule) :
    NeverBack calls (run (turn node calls) (.ofIssue fog) schedule) := by
  have hstart : Guarded calls (.ofIssue fog) :=
    ⟨trivial, fun _ h ↦ absurd h List.not_mem_nil, by simp [Race.ofIssue, remaining],
      by simp [Race.ofIssue, remaining]⟩
  exact (run_invariant_of (fun race t h ht ↦ h.turn ht) hstart hok).neverBack

theorem admissible_closes (node : Node P) (calls : Calls) (race : Race) (n : ℕ) :
    Admissible (turn node calls) (fun race t ↦ ¬ Regresses calls race t) race
      (List.replicate n .close) := by
  induction n generalizing race with
  | zero => trivial
  | succ n ih => exact ⟨id, ih _⟩

theorem admissible_issues (node : Node P) (calls : Calls) (n : ℕ) {race : Race}
    (hclose : race.close = .start) (hrevokes : ∀ i, race.revokes i = .start) :
    Admissible (turn node calls) (fun race t ↦ ¬ Regresses calls race t) race
      (List.replicate n .issue) := by
  induction n generalizing race with
  | zero => trivial
  | succ n ih =>
    refine ⟨?_, ih hclose hrevokes⟩
    rintro ⟨tokenId, did, token, -, hin | ⟨i, tokenIds, -, hr, -⟩⟩
    · simp [hclose, committed] at hin
    · simp [hrevokes, remaining] at hr

/-- The token is issued first and the epoch closed after it. -/
theorem token_never_moves_back_first :
    NeverBack plainCalls (run (turn plainNode plainCalls) (.ofIssue queuedFog)
      (List.replicate 4 .issue ++ List.replicate 6 .close)) :=
  token_never_moves_back plainNode plainCalls queuedFog _ ((admissible_append _ _ _).mpr
    ⟨admissible_issues plainNode plainCalls 4 rfl fun _ ↦ rfl,
      admissible_closes plainNode plainCalls _ 6⟩)

/-- The epoch is closed between the check of the status and the write of TOKENIZED. -/
def lateAfterClose : Race :=
  run (turn plainNode plainCalls) (.ofIssue queuedFog)
    (List.replicate 2 .issue ++ List.replicate 6 .close ++ List.replicate 2 .issue)

/-- The device is revoked between the check of the status and the record of the token. -/
def lateAfterRevocation : Race :=
  run (turn plainNode plainCalls) (.ofIssue queuedFog)
    (List.replicate 2 .issue ++ List.replicate 4 (.revoke 0) ++ List.replicate 2 .issue)

/-- In one schedule a device of the new root ends TOKENIZED, in another a revoked one
does, with a token that is not revoked. -/
theorem token_moves_back :
    ¬ NeverBack plainCalls lateAfterClose ∧ ¬ NeverBack plainCalls lateAfterRevocation := by
  have hclose : plainDid 7 ∈ committed lateAfterClose.close ∧
      (lateAfterClose.fog.devices.get? (plainDid 7)).map DeviceRecord.status =
        some .tokenized := by
    decide +kernel
  have hrevoked : lateAfterRevocation.revokes 0 = .returned true ∧
      (lateAfterRevocation.fog.devices.get? (plainDid 7)).map DeviceRecord.status =
        some .tokenized ∧
      lateAfterRevocation.fog.tokenState.issued.get? (plainCalls.issueEnv.tokenHex 8) =
        some (plainDid 7) ∧
      plainCalls.issueEnv.tokenHex 8 ∉
        lateAfterRevocation.fog.tokenState.revokedTokenIds := by
    decide +kernel
  constructor
  · intro h
    obtain ⟨rec, hrec, hs⟩ := Option.map_eq_some_iff.mp hclose.2
    exact h.committed _ hclose.1 rec hrec hs
  · intro h
    obtain ⟨hreturned, hstatus, hissued, hlive⟩ := hrevoked
    obtain ⟨rec, hrec, hs⟩ := Option.map_eq_some_iff.mp hstatus
    exact hlive (h.revoked 0 hreturned rec hrec hs _ hissued)

end FogNode.Proofs
