import FogNode.Proofs.DeviceAccess
import FogNode.Proofs.Revocation
import FogNode.Source.AccessRace

namespace FogNode.Proofs

open FogNode.Library FogNode.Source

variable {P : Platform} {node : Node P} {env : Env} {fog fog' : Fog} {n : String}

/-- The rest of the fog, with these nonces. -/
def withNonces (fog : Fog) (nonces : NonceBook) : Fog :=
  { fog with tokenState := { fog.tokenState with nonces := nonces } }

/-- The nonce can still be accepted, unless it is late. -/
def Unspent (n : String) (fog : Fog) : Prop :=
  ∃ entry, fog.tokenState.nonces.get? n = some entry ∧ entry.used = false

theorem Inv.withNonces (h : Inv node fog) (nonces : NonceBook) :
    Inv node (withNonces fog nonces) := { h with tokens := h.tokens }

theorem keeps_withNonces (fog : Fog) (nonces : NonceBook) : Keeps fog (withNonces fog nonces) :=
  .of_devices (.refl Advances.refl _) rfl rfl fun _ ht ↦ ht

theorem Spent.unspent {nonces : NonceBook} (h : Spent fog.tokenState.nonces nonces)
    (hn : Unspent n (withNonces fog nonces)) : Unspent n fog := by
  obtain ⟨entry, hget, hunused⟩ := hn
  change nonces.get? n = some entry at hget
  rcases h with rfl | ⟨m, rfl⟩ | ⟨m, entry', hget', -, rfl⟩
  · exact ⟨entry, hget, hunused⟩
  · exact ⟨entry, (Dict.get?_erase_some hget).2, hunused⟩
  · rw [Dict.get?_set] at hget
    split at hget
    case isTrue =>
      cases hget
      cases hunused
    case isFalse => exact ⟨entry, hget, hunused⟩

/-- A nonce that is accepted is unspent before and spent after. -/
theorem taken_of_consume {now : ℚ} {purpose : String} {subject : Json}
    (h : (NonceBook.consume fog.tokenState.nonces now purpose subject n).1 = .ok) :
    Unspent n fog ∧ ¬ Unspent n
      (withNonces fog (NonceBook.consume fog.tokenState.nonces now purpose subject n).2) := by
  obtain ⟨text, entry, -, haccepts, hset⟩ := consume_ok h
  refine ⟨⟨entry, haccepts.get, haccepts.unused⟩, ?_⟩
  rintro ⟨entry', hget, hunused⟩
  change (NonceBook.consume fog.tokenState.nonces now purpose subject n).2.get? n = _ at hget
  rw [hset, Dict.get?_set_self] at hget
  cases hget
  cases hunused

section steps

variable {body : TokenAccessRequest}

/-- What `tokens_access` has checked once it has accepted the nonce. -/
structure TokenPassed (node : Node P) (env : Env) (fog : Fog) (body : TokenAccessRequest)
    (tokenId : String) (did : Json) : Prop where
  signature : tokenSignatureValid P body.token node.signingKey = true
  token_id : getItem body.token "token_id" = .ok (.str tokenId)
  did_eq : getItem body.token "did" = .ok did
  live : tokenExpired P body.token env.now = .ok false
  nonce : (NonceBook.consume fog.tokenState.nonces env.later TOKEN_NONCE_PURPOSE (.str tokenId)
    body.nonce).1 = .ok

theorem startAccess_cases (node : Node P) (env : Env) (body : TokenAccessRequest) (fog : Fog) :
    (∃ tokenId did, TokenPassed node env fog body tokenId did ∧ startAccess node env body fog =
      (.access body (.accepted tokenId did), withNonces fog (NonceBook.consume
        fog.tokenState.nonces env.later TOKEN_NONCE_PURPOSE (.str tokenId) body.nonce).2)) ∨
    ∃ r nonces, startAccess node env body fog = (.answered r, withNonces fog nonces) ∧
      ¬ r.Allows ∧ Spent fog.tokenState.nonces nonces := by
  unfold startAccess
  cases hsig : tokenSignatureValid P body.token node.signingKey with
  | false => exact .inr ⟨_, _, rfl, not_allows_tokenDeny _ _, .inl rfl⟩
  | true =>
    rw [if_neg (by simp)]
    cases htid : getItem body.token "token_id" with
    | error e => exact .inr ⟨_, _, rfl, not_allows_serverError e, .inl rfl⟩
    | ok tid =>
      cases hdid : getItem body.token "did" with
      | error e => exact .inr ⟨_, _, rfl, not_allows_serverError e, .inl rfl⟩
      | ok did =>
        cases hexp : tokenExpired P body.token env.now with
        | error e => exact .inr ⟨_, _, rfl, not_allows_serverError e, .inl rfl⟩
        | ok late =>
          cases late with
          | true => exact .inr ⟨_, _, rfl, not_allows_tokenDeny _ _, .inl rfl⟩
          | false =>
            have hspent := consume_spent fog.tokenState.nonces env.later TOKEN_NONCE_PURPOSE tid
              body.nonce
            cases hstatus : (NonceBook.consume fog.tokenState.nonces env.later
                TOKEN_NONCE_PURPOSE tid body.nonce).1 with
            | ok =>
              obtain ⟨tokenId, entry, rfl, -, -⟩ := consume_ok hstatus
              refine .inl ⟨tokenId, did, ⟨hsig, htid, hdid, hexp, hstatus⟩, ?_⟩
              simp only [hstatus]
              rfl
            | _ =>
              refine .inr ⟨tokenDeny (NonceBook.consume fog.tokenState.nonces env.later
                TOKEN_NONCE_PURPOSE tid body.nonce).1.value "nonce validator", _, ?_,
                not_allows_tokenDeny _ _, hspent⟩
              simp only [hstatus]
              rfl

theorem startVerify_cases (P : Platform) (env : Env) (body : VerifyRequest) (fog : Fog) :
    ∃ p, startVerify P env body fog = (p, withNonces fog (NonceBook.consume
        fog.tokenState.nonces env.now VERIFY_NONCE_PURPOSE
        (.str (pyStr P ((Json.field "did" body.proofPackage).getD .null))) body.nonce).2) ∧
      ((p = .verify body .accepted ∧ (NonceBook.consume fog.tokenState.nonces env.now
        VERIFY_NONCE_PURPOSE (.str (pyStr P ((Json.field "did" body.proofPackage).getD .null)))
        body.nonce).1 = .ok) ∨ ∃ r, p = .answered r ∧ ¬ r.Allows) := by
  unfold startVerify
  dsimp only
  split_ifs with hstatus
  · exact ⟨_, rfl, .inr ⟨_, rfl, not_allows_verifyDeny _ _ _ _⟩⟩
  · exact ⟨_, rfl, .inl ⟨rfl, not_not.mp hstatus⟩⟩

/-- A step of a call writes no more than the nonces. -/
theorem callStep_writes (node : Node P) (env : Env) (p : CallPhase) (fog : Fog) :
    ∃ nonces, (callStep node env p fog).2 = withNonces fog nonces ∧
      Spent fog.tokenState.nonces nonces := by
  cases p with
  | start call =>
    cases call with
    | access body =>
      rcases startAccess_cases node env body fog with
        ⟨tokenId, did, -, hstep⟩ | ⟨r, nonces, hstep, -, hspent⟩
      · exact ⟨_, congrArg Prod.snd hstep, consume_spent _ _ _ _ _⟩
      · exact ⟨_, congrArg Prod.snd hstep, hspent⟩
    | verify body =>
      obtain ⟨p, hstep, -⟩ := startVerify_cases P env body fog
      exact ⟨_, congrArg Prod.snd hstep, consume_spent _ _ _ _ _⟩
  | _ => exact ⟨_, rfl, .inl rfl⟩

/-- A call on its own, step after step. -/
abbrev alone (node : Node P) (env : Env) (x : CallPhase × Fog) : CallPhase × Fog :=
  callStep node env x.1 x.2

theorem answered_alone (node : Node P) (env : Env) (r : Response) (fog : Fog) (n : ℕ) :
    (alone node env)^[n] (.answered r, fog) = (.answered r, fog) :=
  Function.iterate_fixed rfl n

/-- The reads of `tokens_access` after the nonce, with nothing in between. -/
theorem accepted_alone (node : Node P) (env : Env) (body : TokenAccessRequest) (tokenId : String)
    (did : Json) (fog : Fog) :
    (∃ e, accessRevoked fog tokenId did = .error e ∧
      (alone node env)^[3] (.access body (.accepted tokenId did), fog) =
        (.answered (.serverError e), fog)) ∨
    (accessRevoked fog tokenId did = .ok true ∧
      (alone node env)^[3] (.access body (.accepted tokenId did), fog) =
        (.answered (tokenDeny "revoked" "revocation checker"), fog)) ∨
    accessRevoked fog tokenId did = .ok false ∧
      (alone node env)^[3] (.access body (.accepted tokenId did), fog) =
        (.answered (respond (accessDecision P body)), fog) := by
  have hstep : ∀ phase n, (alone node env)^[n + 1] (.access body phase, fog) =
      (alone node env)^[n] (accessStep P body phase fog, fog) := fun _ _ ↦ rfl
  rw [hstep]
  cases hlisted : fog.tokenState.isRevoked tokenId with
  | true =>
    simp only [accessStep, accessRevoked, hlisted, if_true]
    exact .inr (.inl ⟨trivial, answered_alone node env _ fog 2⟩)
  | false =>
    simp only [accessStep, accessRevoked, hlisted, Bool.false_eq_true, if_false]
    rw [hstep]
    cases did with
    | str did =>
      simp only [accessStep]
      cases hrec : DeviceStore.get fog.devices did with
      | none =>
        have hlive : isDeviceRevoked fog.devices did = false := by rw [isDeviceRevoked, hrec]
        exact .inr (.inr ⟨congrArg Except.ok hlive, answered_alone node env _ fog 1⟩)
      | some rec =>
        dsimp only
        rw [hstep]
        cases hrevoked : isDeviceRevoked fog.devices did with
        | true =>
          simp only [accessStep, hrevoked, if_true]
          exact .inr (.inl ⟨trivial, answered_alone node env _ fog 0⟩)
        | false =>
          simp only [accessStep, hrevoked, Bool.false_eq_true, if_false]
          exact .inr (.inr ⟨trivial, answered_alone node env _ fog 0⟩)
    | arr items => exact .inl ⟨_, rfl, answered_alone node env _ fog 1⟩
    | obj fields => exact .inl ⟨_, rfl, answered_alone node env _ fog 1⟩
    | _ => exact .inr (.inr ⟨rfl, answered_alone node env _ fog 1⟩)

/-- A call of `tokens_access` that nothing comes between answers as the handler does. -/
theorem access_alone (node : Node P) (env : Env) (body : TokenAccessRequest) (fog : Fog) :
    (alone node env)^[4] (.start (.access body), fog) =
      (.answered (tokensAccess node env body fog).1, (tokensAccess node env body fog).2) := by
  rw [Function.iterate_succ_apply]
  change (alone node env)^[3] (startAccess node env body fog) = _
  unfold startAccess tokensAccess
  cases tokenSignatureValid P body.token node.signingKey with
  | false => exact answered_alone node env _ fog 3
  | true =>
    simp only [Bool.true_eq_false, if_false]
    cases getItem body.token "token_id" with
    | error e => exact answered_alone node env _ fog 3
    | ok tid =>
      cases getItem body.token "did" with
      | error e => exact answered_alone node env _ fog 3
      | ok did =>
        cases tokenExpired P body.token env.now with
        | error e => exact answered_alone node env _ fog 3
        | ok late =>
          cases late with
          | true => exact answered_alone node env _ fog 3
          | false =>
            dsimp only
            generalize NonceBook.consume fog.tokenState.nonces env.later TOKEN_NONCE_PURPOSE tid
              body.nonce = taken
            obtain ⟨status, nonces⟩ := taken
            cases status with
            | ok =>
              cases tid with
              | str tokenId =>
                have hreads := accepted_alone node env body tokenId did (withNonces fog nonces)
                simp only [withNonces] at hreads
                rcases hreads with ⟨e, hlive, halone⟩ | ⟨hlive, halone⟩ | ⟨hlive, halone⟩ <;>
                · simp only [hlive]
                  exact halone
              | _ => exact answered_alone node env _ _ 3
            | _ => exact answered_alone node env _ _ 3

/-- The reads of the device record in `verify_and_authorize`, with nothing in between. -/
theorem proved_alone (node : Node P) (env : Env) (body : VerifyRequest) (did : String)
    (fog : Fog) :
    (alone node env)^[7] (.verify body (.proved did), fog) =
      (.answered (authorize fog.devices did ((Json.field "epoch_id" body.proofPackage).getD .null)
        body), fog) := by
  have hstep : ∀ phase n, (alone node env)^[n + 1] (.verify body phase, fog) =
      (alone node env)^[n] (verifyStep node body phase fog, fog) := fun _ _ ↦ rfl
  rw [hstep]
  unfold authorize
  cases hrec : DeviceStore.get fog.devices did with
  | none =>
    simp only [verifyStep, withRecord, hrec]
    exact answered_alone node env _ fog 6
  | some rec =>
    simp only [verifyStep, withRecord, hrec, hstep]
    by_cases hrevoked : rec.status = .revoked
    · rw [if_pos hrevoked, if_pos hrevoked]
      exact answered_alone node env _ fog 5
    rw [if_neg hrevoked, if_neg hrevoked, hstep]
    simp only [verifyStep, withRecord, hrec]
    by_cases hstatus : rec.status ≠ .registered
    · rw [if_pos hstatus, if_pos hstatus]
      exact answered_alone node env _ fog 4
    rw [if_neg hstatus, if_neg hstatus, hstep]
    simp only [verifyStep, withRecord, hrec, hstep]
    by_cases hvalid : roleValidForType rec.deviceType rec.role = false
    · rw [if_pos hvalid, if_pos hvalid]
      exact answered_alone node env _ fog 2
    rw [if_neg hvalid, if_neg hvalid, hstep]
    simp only [verifyStep, withRecord, hrec]
    by_cases hpolicy : checkPolicy body.resource body.operation (rec.role.getD "") = false
    · rw [if_pos hpolicy, if_pos hpolicy]
      exact answered_alone node env _ fog 1
    rw [if_neg hpolicy, if_neg hpolicy, hstep]
    simp only [verifyStep, withRecord, hrec]
    exact answered_alone node env _ fog 0

/-- A call of `verify_and_authorize` that nothing comes between answers as the handler does. -/
theorem verify_alone (node : Node P) (env : Env) (body : VerifyRequest) (fog : Fog) :
    (alone node env)^[9] (.start (.verify body), fog) =
      (.answered (verifyAndAuthorize node env body fog).1,
        (verifyAndAuthorize node env body fog).2) := by
  have hstep : ∀ fog n, (alone node env)^[n + 1] (.verify body .accepted, fog) =
      (alone node env)^[n] (proveStep node body fog, fog) := fun _ _ ↦ rfl
  rw [Function.iterate_succ_apply]
  change (alone node env)^[8] (startVerify P env body fog) = _
  unfold startVerify verifyAndAuthorize
  dsimp only
  generalize NonceBook.consume fog.tokenState.nonces env.now VERIFY_NONCE_PURPOSE _ _ = taken
  split_ifs with hstatus
  · exact answered_alone node env _ _ 8
  · rw [hstep]
    unfold proveStep
    cases ProofPackage.parse P body.proofPackage with
    | none => exact answered_alone node env _ _ 7
    | some parsed =>
      dsimp only
      cases verifyProofPackage P parsed (trustedRoot fog.ledger
          ((Json.field "epoch_id" body.proofPackage).getD .null))
          (publicKeyBytes P node.signingKey) with
      | error e => exact answered_alone node env _ _ 7
      | ok result =>
        dsimp only
        split_ifs with hok hsig
        · exact answered_alone node env _ _ 7
        · exact answered_alone node env _ _ 7
        · exact proved_alone node env body parsed.did _

/-- The steps that a call takes to its answer. -/
def callSteps : AccessCall → ℕ
  | .access _ => 4
  | .verify _ => 9

theorem call_alone (node : Node P) (env : Env) (call : AccessCall) (fog : Fog) :
    (alone node env)^[callSteps call] (.start call, fog) =
      (.answered (answer node fog ⟨env, call.request⟩), step node fog ⟨env, call.request⟩) := by
  cases call with
  | access body => exact access_alone node env body fog
  | verify body => exact verify_alone node env body fog

end steps

section race

variable {calls : ℕ → CallEvent} {i : ℕ} {l first second : List (PoolMove Event)} {did : String}

/-- The fog after the moves. -/
abbrev fogAt (node : Node P) (calls : ℕ → CallEvent) (fog : Fog)
    (l : List (PoolMove Event)) : Fog :=
  (raceFrom node calls fog l).shared

theorem inv_race (h : Inv node fog) (l : List (PoolMove Event)) :
    Inv node (fogAt node calls fog l) := by
  refine shared_invariant (fun i p s hs ↦ ?_) inv_step h l
  obtain ⟨nonces, hwrites, -⟩ := callStep_writes node (calls i).env p s
  rw [hwrites]
  exact hs.withNonces nonces

theorem keeps_race (h : Inv node fog) (first rest : List (PoolMove Event)) :
    Keeps (fogAt node calls fog first) (fogAt node calls fog (first ++ rest)) := by
  rw [fogAt, fogAt, raceFrom, raceFrom, run_append]
  refine shared_relates (I := Inv node) (R := Keeps) (fun i p s hs ↦ ?_) (fun s e hs ↦ ?_)
    Keeps.refl Keeps.trans (inv_race h first) rest
  · obtain ⟨nonces, hwrites, -⟩ := callStep_writes node (calls i).env p s
    rw [hwrites]
    exact ⟨hs.withNonces nonces, keeps_withNonces s nonces⟩
  · exact ⟨inv_step s e hs, (hs.effect (step_effect node s e)).2⟩

theorem keeps_of_earlier (h : Inv node fog) (hl : first <+: l) :
    Keeps (fogAt node calls fog first) (fogAt node calls fog l) := by
  obtain ⟨rest, rfl⟩ := hl
  exact keeps_race h first rest

/-- The step that the thread takes at the moment spends the nonce of its call. -/
def TakesAt (node : Node P) (calls : ℕ → CallEvent) (fog : Fog) (i : ℕ)
    (first : List (PoolMove Event)) : Prop :=
  Unspent (calls i).call.nonce (fogAt node calls fog first) ∧
    ¬ Unspent (calls i).call.nonce (fogAt node calls fog (first ++ [.thread i]))

/-- The answer is that of the handler running alone at a later moment of the call, on the
nonces as they were when the call took its own. -/
structure Atomic (node : Node P) (calls : ℕ → CallEvent) (fog : Fog) (i : ℕ)
    (l first second : List (PoolMove Event)) (r : Response) : Prop where
  began : Stepped i second first
  ended : Stepped i l second
  takes : TakesAt node calls fog i first
  answer_eq : answer node (withNonces (fogAt node calls fog second)
    (fogAt node calls fog first).tokenState.nonces) ⟨(calls i).env, (calls i).call.request⟩ = r

/-- The package is accepted against the root in the ledger, and the request is signed. -/
structure ProofPassed (node : Node P) (fog : Fog) (body : VerifyRequest) (pkg : ProofPackage) :
    Prop where
  parsed : ProofPackage.parse P body.proofPackage = some pkg
  accepted : Accepted P pkg (trustedRoot fog.ledger
    ((Json.field "epoch_id" body.proofPackage).getD .null)) (publicKeyBytes P node.signingKey)
  signature : verify P (hexOrEmpty pkg.publicKey)
    (verifyMessage pkg.did (pyStr P ((Json.field "epoch_id" body.proofPackage).getD .null))
      body.nonce body.resource body.operation) (hexOrEmpty body.signature) = true

theorem trustedRoot_kept (h : Keeps fog fog') {j : Json} {root : String}
    (hroot : trustedRoot fog.ledger j = some root) : trustedRoot fog'.ledger j = some root := by
  cases j with
  | int n => exact h.roots.eq_some hroot
  | bool b => exact h.roots.eq_some hroot
  | _ => cases hroot

theorem ProofPassed.kept {body : VerifyRequest} {pkg : ProofPackage}
    (h : ProofPassed node fog body pkg) (hk : Keeps fog fog') :
    ProofPassed node fog' body pkg where
  parsed := h.parsed
  accepted := by
    obtain ⟨pk, leaf, p, sig, hc⟩ := checked_of_accepted h.accepted
    have hsame := (trustedRoot_kept hk hc.root_eq).trans hc.root_eq.symm
    rw [hsame]
    exact h.accepted
  signature := h.signature

theorem proveStep_cases (node : Node P) (body : VerifyRequest) (fog : Fog) :
    (∃ pkg, ProofPassed node fog body pkg ∧
      proveStep node body fog = .verify body (.proved pkg.did)) ∨
    ∃ r, proveStep node body fog = .answered r ∧ ¬ r.Allows := by
  unfold proveStep
  cases hparse : ProofPackage.parse P body.proofPackage with
  | none => exact .inr ⟨_, rfl, not_allows_verifyDeny _ _ _ _⟩
  | some pkg =>
    dsimp only
    cases hresult : verifyProofPackage P pkg (trustedRoot fog.ledger
        ((Json.field "epoch_id" body.proofPackage).getD .null))
        (publicKeyBytes P node.signingKey) with
    | error e => exact .inr ⟨_, rfl, not_allows_verifyDeny _ _ _ _⟩
    | ok result =>
      dsimp only
      split_ifs with hok hsig
      · exact .inr ⟨_, rfl, not_allows_verifyDeny _ _ _ _⟩
      · exact .inr ⟨_, rfl, not_allows_verifyDeny _ _ _ _⟩
      · rw [Bool.not_eq_false] at hok hsig
        exact .inl ⟨pkg, ⟨hparse, ⟨result, hresult, hok⟩, hsig⟩, rfl⟩

/-- The record of the device said REGISTERED at the moment. -/
structure RegisteredAt (node : Node P) (calls : ℕ → CallEvent) (fog : Fog)
    (second : List (PoolMove Event)) (body : VerifyRequest) (did : String) (rec : DeviceRecord) :
    Prop where
  proved : ∃ pkg, ProofPassed node (fogAt node calls fog second) body pkg ∧ pkg.did = did
  get : (fogAt node calls fog second).devices.get? did = some rec
  status_eq : rec.status = .registered

/-- Type and role of a registered device stay what they are. -/
theorem RegisteredAt.profile {body : VerifyRequest} {rec rec' : DeviceRecord}
    (h : RegisteredAt node calls fog second body did rec) (hinv : Inv node fog)
    (hl : second <+: l) (hrec : (fogAt node calls fog l).devices.get? did = some rec') :
    rec'.deviceType = rec.deviceType ∧ rec'.role = rec.role := by
  obtain ⟨rec₁, hrec₁, hadv⟩ := (keeps_of_earlier hinv hl).devices did rec h.get
  rw [hrec] at hrec₁
  cases hrec₁
  have hleaf := ((inv_race hinv second).records did rec h.get).committed (.inr h.status_eq)
  obtain ⟨-, htype, -, -, hrole⟩ := hadv.profile_eq hleaf
  exact ⟨htype, hrole⟩

theorem race_own (node : Node P) (calls : ℕ → CallEvent) (fog : Fog) (first : List (PoolMove Event))
    (i k : ℕ) :
    ((raceFrom node calls fog (first ++ List.replicate k (.thread i))).phases i,
      fogAt node calls fog (first ++ List.replicate k (.thread i))) =
    (alone node (calls i).env)^[k] ((raceFrom node calls fog first).phases i,
      fogAt node calls fog first) := by
  rw [fogAt, raceFrom, run_append]
  exact run_own i k

/-- A call that starts and ends with no other move in between is the handler's. -/
theorem race_alone (hstart : (raceFrom node calls fog first).phases i = .start (calls i).call) :
    (raceFrom node calls fog
        (first ++ List.replicate (callSteps (calls i).call) (.thread i))).phases i =
      .answered (answer node (fogAt node calls fog first)
        ⟨(calls i).env, (calls i).call.request⟩) ∧
    fogAt node calls fog (first ++ List.replicate (callSteps (calls i).call) (.thread i)) =
      step node (fogAt node calls fog first) ⟨(calls i).env, (calls i).call.request⟩ := by
  have hown := race_own node calls fog first i (callSteps (calls i).call)
  rw [hstart, call_alone] at hown
  exact Prod.ext_iff.mp hown

/-- What the past says of a thread in `tokens_access`. -/
def TokenPoint (node : Node P) (calls : ℕ → CallEvent) (fog : Fog) (i : ℕ)
    (l first : List (PoolMove Event)) (tokenId : String) (did : Json) : AccessPhase → Prop
  | .accepted tokenId' did' => tokenId' = tokenId ∧ did' = did
  | .unlisted did' => did' = did ∧ ∃ second, Stepped i second first ∧ Stepped i l second ∧
      (fogAt node calls fog second).tokenState.isRevoked tokenId = false
  | .known did' => did = .str did' ∧ ∃ second, Stepped i second first ∧ Stepped i l second ∧
      (fogAt node calls fog second).tokenState.isRevoked tokenId = false

/-- What the past says of a thread in `verify_and_authorize`. -/
def VerifyPoint (node : Node P) (calls : ℕ → CallEvent) (fog : Fog) (i : ℕ)
    (l first : List (PoolMove Event)) (body : VerifyRequest) : VerifyPhase → Prop
  | .accepted => True
  | .proved did | .known did | .live did =>
      ∃ pkg, ProofPassed node (fogAt node calls fog l) body pkg ∧ pkg.did = did
  | .registered did => ∃ second rec, Stepped i second first ∧ Stepped i l second ∧
      RegisteredAt node calls fog second body did rec
  | .typed did deviceType => ∃ second rec, Stepped i second first ∧ Stepped i l second ∧
      RegisteredAt node calls fog second body did rec ∧ deviceType = rec.deviceType
  | .fitting did => ∃ second rec, Stepped i second first ∧ Stepped i l second ∧
      RegisteredAt node calls fog second body did rec ∧
      roleValidForType rec.deviceType rec.role = true
  | .permitted did => ∃ second rec, Stepped i second first ∧ Stepped i l second ∧
      RegisteredAt node calls fog second body did rec ∧
      roleValidForType rec.deviceType rec.role = true ∧
      checkPolicy body.resource body.operation (rec.role.getD "") = true

/-- What the past says of a thread. -/
def Evidence (node : Node P) (calls : ℕ → CallEvent) (fog : Fog) (i : ℕ)
    (l : List (PoolMove Event)) : CallPhase → Prop
  | .start call => call = (calls i).call
  | .access body phase => (calls i).call = .access body ∧ ∃ first tokenId did,
      Stepped i l first ∧ TakesAt node calls fog i first ∧
      TokenPassed node (calls i).env (fogAt node calls fog first) body tokenId did ∧
      TokenPoint node calls fog i l first tokenId did phase
  | .verify body phase => (calls i).call = .verify body ∧ ∃ first,
      Stepped i l first ∧ TakesAt node calls fog i first ∧
      (NonceBook.consume (fogAt node calls fog first).tokenState.nonces (calls i).env.now
        VERIFY_NONCE_PURPOSE (.str (pyStr P ((Json.field "did" body.proofPackage).getD .null)))
        body.nonce).1 = .ok ∧
      VerifyPoint node calls fog i l first body phase
  | .answered r => r.Allows → ∃ first second, Atomic node calls fog i l first second r

section snoc

variable {m : PoolMove Event}

theorem Atomic.snoc {r : Response} (h : Atomic node calls fog i l first second r)
    (m : PoolMove Event) : Atomic node calls fog i (l ++ [m]) first second r :=
  { h with ended := h.ended.snoc m }

theorem TokenPoint.snoc {tokenId : String} {j : Json} {phase : AccessPhase}
    (h : TokenPoint node calls fog i l first tokenId j phase) (m : PoolMove Event) :
    TokenPoint node calls fog i (l ++ [m]) first tokenId j phase := by
  cases phase with
  | accepted => exact h
  | unlisted =>
    obtain ⟨hdid, second, hbegan, hended, hlisted⟩ := h
    exact ⟨hdid, second, hbegan, hended.snoc m, hlisted⟩
  | known =>
    obtain ⟨hdid, second, hbegan, hended, hlisted⟩ := h
    exact ⟨hdid, second, hbegan, hended.snoc m, hlisted⟩

theorem VerifyPoint.snoc {body : VerifyRequest} {phase : VerifyPhase}
    (h : VerifyPoint node calls fog i l first body phase) (hinv : Inv node fog)
    (m : PoolMove Event) : VerifyPoint node calls fog i (l ++ [m]) first body phase := by
  have hkeeps : Keeps (fogAt node calls fog l) (fogAt node calls fog (l ++ [m])) :=
    keeps_race hinv l [m]
  cases phase with
  | accepted => trivial
  | proved did | known did | live did =>
    obtain ⟨pkg, hproved, hdid⟩ := h
    exact ⟨pkg, hproved.kept hkeeps, hdid⟩
  | registered | typed | fitting | permitted =>
    obtain ⟨second, rec, hbegan, hended, hrest⟩ := h
    exact ⟨second, rec, hbegan, hended.snoc m, hrest⟩

/-- What the past says of a thread it still says after another move. -/
theorem Evidence.snoc {p : CallPhase} (h : Evidence node calls fog i l p) (hinv : Inv node fog)
    (m : PoolMove Event) : Evidence node calls fog i (l ++ [m]) p := by
  cases p with
  | start => exact h
  | access body phase =>
    obtain ⟨hcall, first, tokenId, did, hstepped, htakes, hpassed, hpoint⟩ := h
    exact ⟨hcall, first, tokenId, did, hstepped.snoc m, htakes, hpassed, hpoint.snoc m⟩
  | verify body phase =>
    obtain ⟨hcall, first, hstepped, htakes, hnonce, hpoint⟩ := h
    exact ⟨hcall, first, hstepped.snoc m, htakes, hnonce, hpoint.snoc hinv m⟩
  | answered r =>
    intro hallows
    obtain ⟨first, second, hatomic⟩ := h hallows
    exact ⟨first, second, hatomic.snoc m⟩

end snoc

section own

/-- A thread that answers with a refusal has nothing to show. -/
theorem evidence_refused {r : Response} (h : ¬ r.Allows) :
    Evidence node calls fog i l (.answered r) := fun hallows ↦ absurd hallows h

/-- The thread takes a step at the end of the moves. -/
theorem fogAt_step {out : CallPhase × Fog}
    (h : callStep node (calls i).env ((raceFrom node calls fog l).phases i)
      (fogAt node calls fog l) = out) :
    fogAt node calls fog (l ++ [.thread i]) = out.2 := by
  rw [fogAt, raceFrom, run_snoc, ← h]
  rfl

theorem evidence_start (hstart : (raceFrom node calls fog l).phases i = .start (calls i).call) :
    Evidence node calls fog i (l ++ [.thread i])
      (callStep node (calls i).env (.start (calls i).call) (fogAt node calls fog l)).1 := by
  have hlater := fogAt_step (i := i) (rfl : callStep node (calls i).env
    ((raceFrom node calls fog l).phases i) (fogAt node calls fog l) = _)
  rw [hstart] at hlater
  have htakes : ∀ now purpose subject, (NonceBook.consume (fogAt node calls fog l).tokenState.nonces
        now purpose subject (calls i).call.nonce).1 = .ok →
      fogAt node calls fog (l ++ [.thread i]) = withNonces (fogAt node calls fog l)
        (NonceBook.consume (fogAt node calls fog l).tokenState.nonces now purpose subject
          (calls i).call.nonce).2 → TakesAt node calls fog i l := by
    intro now purpose subject hok hfog
    obtain ⟨hbefore, hafter⟩ := taken_of_consume hok
    exact ⟨hbefore, by rwa [hfog]⟩
  cases hcall : (calls i).call with
  | access body =>
    rw [hcall] at hlater htakes
    rcases startAccess_cases node (calls i).env body (fogAt node calls fog l) with
      ⟨tokenId, did, hpassed, hstep⟩ | ⟨r, nonces, hstep, hrefused, -⟩
    · rw [callStep, hstep] at hlater ⊢
      exact ⟨hcall, l, tokenId, did, .now i l, htakes _ _ _ hpassed.nonce hlater, hpassed, rfl,
        rfl⟩
    · rw [callStep, hstep]
      exact evidence_refused hrefused
  | verify body =>
    rw [hcall] at hlater htakes
    obtain ⟨p, hstep, hp⟩ := startVerify_cases P (calls i).env body (fogAt node calls fog l)
    rw [callStep, hstep] at hlater ⊢
    rcases hp with ⟨rfl, hok⟩ | ⟨r, rfl, hrefused⟩
    · exact ⟨hcall, l, .now i l, htakes _ _ _ hok hlater, hok, trivial⟩
    · exact evidence_refused hrefused

theorem TokenPassed.answers {f g : Fog} {body : TokenAccessRequest} {tokenId : String} {j : Json}
    (h : TokenPassed node env f body tokenId j) (hlive : accessRevoked g tokenId j = .ok false) :
    (tokensAccess node env body (withNonces g f.tokenState.nonces)).1 =
      respond (accessDecision P body) := by
  have hlive' : ∀ nonces, accessRevoked (withNonces g nonces) tokenId j = .ok false :=
    fun _ ↦ hlive
  obtain ⟨text, entry, htext, -, hset⟩ := consume_ok h.nonce
  have hpair : NonceBook.consume f.tokenState.nonces env.later TOKEN_NONCE_PURPOSE (.str tokenId)
      body.nonce = (.ok, f.tokenState.nonces.set body.nonce { entry with used := true }) :=
    Prod.ext h.nonce hset
  unfold tokensAccess
  rw [h.signature, if_neg (by simp), h.token_id, h.did_eq]
  simp only [h.live, withNonces, hpair]
  have hlast := hlive' (f.tokenState.nonces.set body.nonce { entry with used := true })
  simp only [withNonces] at hlast
  simp only [hlast]

theorem isDeviceRevoked_iff : isDeviceRevoked fog.devices did = true ↔ Revoked fog did := by
  unfold isDeviceRevoked DeviceStore.get Revoked
  cases fog.devices.get? did <;> simp

/-- A device that is not revoked later on was not revoked before. -/
theorem accessRevoked_earlier (hinv : Inv node fog) (hl : second <+: l) {tokenId : String}
    (hlisted : (fogAt node calls fog second).tokenState.isRevoked tokenId = false)
    (hlive : ¬ Revoked (fogAt node calls fog l) did) :
    accessRevoked (fogAt node calls fog second) tokenId (.str did) = .ok false := by
  have hbefore : isDeviceRevoked (fogAt node calls fog second).devices did = false := by
    rw [← Bool.not_eq_true, isDeviceRevoked_iff]
    exact fun hrev ↦ hlive ((keeps_of_earlier hinv hl).revoked hrev)
  simp only [accessRevoked, hlisted, Bool.false_eq_true, if_false, hbefore]

theorem evidence_access (hinv : Inv node fog) {body : TokenAccessRequest} {phase : AccessPhase}
    (h : Evidence node calls fog i l (.access body phase)) :
    Evidence node calls fog i (l ++ [.thread i])
      (accessStep P body phase (fogAt node calls fog l)) := by
  have hsnoc := h.snoc hinv (.thread i)
  obtain ⟨hcall, first, tokenId, j, hstepped, htakes, hpassed, hpoint⟩ := h
  have hanswers : ∀ second, Stepped i second first → Stepped i l second →
      accessRevoked (fogAt node calls fog second) tokenId j = .ok false →
      Evidence node calls fog i (l ++ [.thread i])
        (.answered (respond (accessDecision P body))) := by
    intro second hbegan hended hlive _
    refine ⟨first, second, hbegan, hended.snoc _, htakes, ?_⟩
    rw [hcall]
    exact hpassed.answers hlive
  cases phase with
  | accepted tokenId' j' =>
    obtain ⟨rfl, rfl⟩ := hpoint
    rw [accessStep]
    split_ifs with hlisted
    · exact evidence_refused (not_allows_tokenDeny _ _)
    · rw [Bool.not_eq_true] at hlisted
      exact ⟨hcall, first, tokenId', j', hstepped.snoc _, htakes, hpassed, rfl, l, hstepped,
        .now i l, hlisted⟩
  | unlisted j' =>
    obtain ⟨rfl, second, hbegan, hended, hlisted⟩ := hpoint
    have hother : accessRevoked (fogAt node calls fog second) tokenId j' = .ok false →
        Evidence node calls fog i (l ++ [.thread i])
          (.answered (respond (accessDecision P body))) := hanswers second hbegan hended
    cases j' with
    | str did =>
      simp only [accessStep]
      cases hrec : DeviceStore.get (fogAt node calls fog l).devices did with
      | none =>
        apply hother
        refine accessRevoked_earlier hinv hended.isPrefix hlisted ?_
        rintro ⟨rec, hget, -⟩
        rw [DeviceStore.get, hget] at hrec
        cases hrec
      | some rec =>
        exact ⟨hcall, first, tokenId, _, hstepped.snoc _, htakes, hpassed, rfl, second, hbegan,
          hended.snoc _, hlisted⟩
    | arr items => exact evidence_refused (not_allows_serverError _)
    | obj fields => exact evidence_refused (not_allows_serverError _)
    | _ => exact hother (by simp only [accessRevoked, hlisted, Bool.false_eq_true, if_false])
  | known did =>
    obtain ⟨rfl, second, hbegan, hended, hlisted⟩ := hpoint
    rw [accessStep]
    split_ifs with hrevoked
    · exact evidence_refused (not_allows_tokenDeny _ _)
    · rw [isDeviceRevoked_iff] at hrevoked
      exact hanswers second hbegan hended
        (accessRevoked_earlier hinv hended.isPrefix hlisted hrevoked)

theorem authorize_allowed {devices : DeviceStore} {rec : DeviceRecord} {body : VerifyRequest}
    (hrec : devices.get? did = some rec) (hstatus : rec.status = .registered)
    (hvalid : roleValidForType rec.deviceType rec.role = true)
    (hpolicy : checkPolicy body.resource body.operation (rec.role.getD "") = true)
    (epochId : Json) : authorize devices did epochId body =
      .ok [("decision", .str "ALLOW"), ("reason", .str "ok"), ("identity_verified", .bool true),
        ("epoch_id", epochId), ("role", textOrNull rec.role)] := by
  simp only [authorize, DeviceStore.get, hrec, hstatus, hvalid, hpolicy, reduceCtorEq, if_false,
    ne_eq, not_true_eq_false, Bool.true_eq_false]

theorem withRecord_cases (body : VerifyRequest) (did : String) (fog : Fog)
    (read : DeviceRecord → CallPhase) :
    (∃ rec, fog.devices.get? did = some rec ∧ withRecord body did fog read = read rec) ∨
      ∃ r, withRecord body did fog read = .answered r ∧ ¬ r.Allows := by
  unfold withRecord DeviceStore.get
  cases fog.devices.get? did with
  | none => exact .inr ⟨_, rfl, not_allows_verifyDeny _ _ _ _⟩
  | some rec => exact .inl ⟨rec, rfl, rfl⟩

/-- A step that reads the device's record is judged by what it does with a record found. -/
theorem evidence_read {body : VerifyRequest} {did : String} {l' : List (PoolMove Event)}
    {read : DeviceRecord → CallPhase}
    (hread : ∀ rec, (fogAt node calls fog l).devices.get? did = some rec →
      Evidence node calls fog i l' (read rec)) :
    Evidence node calls fog i l' (withRecord body did (fogAt node calls fog l) read) := by
  rcases withRecord_cases body did (fogAt node calls fog l) read with
    ⟨rec, hrec, hstep⟩ | ⟨r, hstep, hrefused⟩
  · rw [hstep]
    exact hread rec hrec
  · rw [hstep]
    exact evidence_refused hrefused

theorem evidence_verify (hinv : Inv node fog) {body : VerifyRequest} {phase : VerifyPhase}
    (h : Evidence node calls fog i l (.verify body phase)) :
    Evidence node calls fog i (l ++ [.thread i])
      (verifyStep node body phase (fogAt node calls fog l)) := by
  obtain ⟨hcall, first, hstepped, htakes, hnonce, hpoint⟩ := h
  have hlater := hpoint.snoc hinv (.thread i)
  have hnext : ∀ phase', VerifyPoint node calls fog i (l ++ [.thread i]) first body phase' →
      Evidence node calls fog i (l ++ [.thread i]) (.verify body phase') :=
    fun phase' hp ↦ ⟨hcall, first, hstepped.snoc _, htakes, hnonce, hp⟩
  cases phase with
  | accepted =>
    rcases proveStep_cases node body (fogAt node calls fog l) with
      ⟨pkg, hproved, hstep⟩ | ⟨r, hstep, hrefused⟩
    · rw [verifyStep, hstep]
      exact hnext _ ⟨pkg, hproved.kept (keeps_race hinv l _), rfl⟩
    · rw [verifyStep, hstep]
      exact evidence_refused hrefused
  | proved did => exact evidence_read fun rec hrec ↦ hnext (.known did) hlater
  | known did =>
    refine evidence_read fun rec hrec ↦ ?_
    split_ifs with hrevoked
    · exact evidence_refused (not_allows_verifyDeny _ _ _ _)
    · exact hnext (.live did) hlater
  | live did =>
    refine evidence_read fun rec hrec ↦ ?_
    split_ifs with hstatus
    · exact evidence_refused (not_allows_verifyDeny _ _ _ _)
    · rw [not_not] at hstatus
      exact hnext (.registered did) ⟨l, rec, hstepped, .now i l, hpoint, hrec, hstatus⟩
  | registered did =>
    refine evidence_read fun rec' hrec' ↦ ?_
    obtain ⟨second, rec, hbegan, hended, hat⟩ := hpoint
    obtain ⟨htype, -⟩ := hat.profile hinv hended.isPrefix hrec'
    exact hnext (.typed did _) ⟨second, rec, hbegan, hended.snoc _, hat, htype⟩
  | typed did deviceType =>
    refine evidence_read fun rec' hrec' ↦ ?_
    obtain ⟨second, rec, hbegan, hended, hat, rfl⟩ := hpoint
    obtain ⟨-, hrole⟩ := hat.profile hinv hended.isPrefix hrec'
    split_ifs with hvalid
    · exact evidence_refused (not_allows_verifyDeny _ _ _ _)
    · rw [Bool.not_eq_false, hrole] at hvalid
      exact hnext (.fitting did) ⟨second, rec, hbegan, hended.snoc _, hat, hvalid⟩
  | fitting did =>
    refine evidence_read fun rec' hrec' ↦ ?_
    obtain ⟨second, rec, hbegan, hended, hat, hvalid⟩ := hpoint
    obtain ⟨-, hrole⟩ := hat.profile hinv hended.isPrefix hrec'
    split_ifs with hpolicy
    · exact evidence_refused (not_allows_verifyDeny _ _ _ _)
    · rw [Bool.not_eq_false, hrole] at hpolicy
      exact hnext (.permitted did) ⟨second, rec, hbegan, hended.snoc _, hat, hvalid, hpolicy⟩
  | permitted did =>
    refine evidence_read fun rec' hrec' _ ↦ ?_
    obtain ⟨second, rec, hbegan, hended, hat, hvalid, hpolicy⟩ := hpoint
    obtain ⟨-, hrole⟩ := hat.profile hinv hended.isPrefix hrec'
    obtain ⟨pkg, hproved, rfl⟩ := hat.proved
    refine ⟨first, second, hbegan, hended.snoc _, htakes, ?_⟩
    have hanswer : (verifyAndAuthorize node (calls i).env body (withNonces
        (fogAt node calls fog second) (fogAt node calls fog first).tokenState.nonces)).1 = _ :=
      verify_authorizes hnonce hproved.parsed hproved.accepted hproved.signature
    rw [hcall, hrole]
    exact hanswer.trans (authorize_allowed hat.get hat.status_eq hvalid hpolicy _)

theorem evidence_after (hinv : Inv node fog) (i : ℕ) (l : List (PoolMove Event)) :
    Evidence node calls fog i l ((raceFrom node calls fog l).phases i) := by
  refine phase_history (Evidence node calls fog i) ?_ (fun l h ↦ ?_)
    (fun l m p _ h ↦ h.snoc hinv m) l
  · exact (rfl : (calls i).call = (calls i).call)
  cases hphase : (raceFrom node calls fog l).phases i with
  | start call =>
    rw [hphase] at h
    obtain rfl : call = (calls i).call := h
    exact evidence_start hphase
  | access body phase =>
    rw [hphase] at h
    exact evidence_access hinv h
  | verify body phase =>
    rw [hphase] at h
    exact evidence_verify hinv h
  | answered r =>
    rw [hphase] at h
    exact h.snoc hinv _

end own

section once

variable {pool : Pool Fog CallPhase} {j : ℕ} {first' : List (PoolMove Event)}

/-- The nonce that is handed out at a move. -/
def moveIssued (node : Node P) (pool : Pool Fog CallPhase) : PoolMove Event → Option String
  | .thread _ => none
  | .world e => issuedNonce node pool.shared e

/-- The nonces handed out along the moves. -/
abbrev handedOut (node : Node P) (calls : ℕ → CallEvent) (fog : Fog) (l : List (PoolMove Event)) :
    List String :=
  outputs (raceStep node calls) (moveIssued node) ⟨fog, fun i ↦ .start (calls i).call⟩ l

/-- No nonce is handed out twice along the moves, nor one that is already held. -/
def NoneTwice (node : Node P) (calls : ℕ → CallEvent) (fog : Fog) (l : List (PoolMove Event)) :
    Prop :=
  (handedOut node calls fog l).Nodup ∧
    ∀ n ∈ handedOut node calls fog l, fog.tokenState.nonces.get? n = none

/-- The threads hand out no nonces. -/
theorem handedOut_threads {fog : Fog} (h : ∀ m ∈ l, ∃ i, m = .thread i) :
    handedOut node calls fog l = [] := by
  unfold handedOut
  generalize (⟨fog, fun i ↦ .start (calls i).call⟩ : Pool Fog CallPhase) = pool
  induction l generalizing pool with
  | nil => rfl
  | cons m l ih =>
    obtain ⟨i, rfl⟩ := h m List.mem_cons_self
    exact ih (fun m hm ↦ h m (List.mem_cons_of_mem _ hm)) _

theorem unspent_handed (hbefore : ¬ Unspent n pool.shared)
    (h : Unspent n (run (raceStep node calls) pool l).shared) :
    n ∈ outputs (raceStep node calls) (moveIssued node) pool l := by
  obtain ⟨l₁, m, l₂, rfl, hnot, entry, hget, hunused⟩ :=
    exists_first (p := fun q : Pool Fog CallPhase ↦ Unspent n q.shared) hbefore h
  cases m with
  | thread i =>
    obtain ⟨nonces, hwrites, hspent⟩ := callStep_writes node (calls i).env
      ((run (raceStep node calls) pool l₁).phases i) (run (raceStep node calls) pool l₁).shared
    have hshared : (raceStep node calls (run (raceStep node calls) pool l₁) (.thread i)).shared =
        withNonces (run (raceStep node calls) pool l₁).shared nonces := hwrites
    rw [hshared] at hget
    exact absurd (hspent.unspent ⟨entry, hget, hunused⟩) hnot
  | world e =>
    have hget' : (step node (run (raceStep node calls) pool l₁).shared e).tokenState.nonces.get? n =
        some entry := hget
    cases (step_effect node _ e).nonce hget' with
    | kept hold => exact absurd ⟨entry, hold, hunused⟩ hnot
    | spent hold => cases hunused
    | issued hask hr => exact mem_outputs ((issuedNonce_eq hask).trans hr) l₂

/-- A nonce that one call took is not taken by another one later. -/
theorem not_taken_again (htwice : NoneTwice node calls fog l) (hij : Stepped i first' first)
    (hl : first' <+: l) (hi : TakesAt node calls fog i first)
    (hj : TakesAt node calls fog j first') : (calls i).call.nonce ≠ (calls j).call.nonce := by
  intro hsame
  obtain ⟨c, rfl⟩ := hij
  obtain ⟨rest, rfl⟩ := hl
  obtain ⟨hbefore, hafter⟩ := hi
  obtain ⟨hagain, -⟩ := hj
  rw [← hsame] at hagain
  rw [List.append_cons, fogAt, raceFrom, run_append] at hagain
  have hlater := unspent_handed hafter hagain
  obtain ⟨hnodup, hheld⟩ := htwice
  rw [List.append_assoc, List.cons_append, List.append_cons] at hnodup hheld
  by_cases hstart : Unspent (calls i).call.nonce fog
  · obtain ⟨entry, hget, -⟩ := hstart
    rw [hheld] at hget
    · cases hget
    · rw [handedOut, outputs_append]
      refine List.mem_append_right _ ?_
      rw [outputs_append]
      exact List.mem_append_left _ hlater
  · have hearlier : (calls i).call.nonce ∈ handedOut node calls fog (first ++ [.thread i]) := by
      rw [handedOut, outputs_append]
      exact List.mem_append_left _ (unspent_handed hstart hbefore)
    refine not_again hnodup hearlier ?_
    rw [outputs_append]
    exact List.mem_append_left _ hlater

end once

/-- The device of a call that is allowed was not revoked up to the moment that decides. -/
theorem Atomic.never_revoked {r : Response} (h : Atomic node calls fog i l first second r)
    (hinv : Inv node fog) (hallows : r.Allows) (hdid : (calls i).call.did = some did)
    {earlier : List (PoolMove Event)} (hearlier : earlier <+: second) :
    ¬ Revoked (fogAt node calls fog earlier) did := by
  intro hrevoked
  obtain ⟨rec, hrec, hstatus⟩ := (keeps_of_earlier hinv hearlier).revoked hrevoked
  have hallowed := h.answer_eq ▸ hallows
  cases hcall : (calls i).call with
  | access body =>
    rw [hcall] at hallowed hdid
    obtain ⟨tokenId, j, ownType, role, hadmitted⟩ := access_allows hallowed
    have hfield := strField_bind hdid
    rw [hadmitted.did_eq] at hfield
    cases hfield
    exact (access_live hadmitted.live).2 rec hrec hstatus
  | verify body =>
    rw [hcall] at hallowed hdid
    obtain ⟨pkg, rec', hverified⟩ := verify_allows hallowed
    obtain ⟨hparsed, -, -⟩ := parse_ok hverified.parsed
    have hfield := strField_bind hdid
    rw [hparsed] at hfield
    cases hfield
    have hget := hverified.get
    change (fogAt node calls fog second).devices.get? pkg.did = some rec' at hget
    rw [hrec] at hget
    cases hget
    rw [hverified.status_eq] at hstatus
    cases hstatus

/-- However the calls of `/tokens/access` and `/verify` interleave with each other and with
other requests, an ALLOW is the answer of a handler that runs alone at a moment of the call,
up to which the device was not revoked, and no nonce serves two calls. -/
theorem access_interleaved (node : Node P) (calls : ℕ → CallEvent) (actions : List Action)
    (l : List (PoolMove Event)) :
    (∀ i r, (raceFrom node calls (afterActions node Fog.init actions) l).phases i = .answered r →
      r.Allows → ∃ first second,
        Atomic node calls (afterActions node Fog.init actions) i l first second r ∧
        ∀ did, (calls i).call.did = some did → ∀ earlier, earlier <+: second →
          ¬ Revoked (fogAt node calls (afterActions node Fog.init actions) earlier) did) ∧
    (NoneTwice node calls (afterActions node Fog.init actions) l → ∀ i j r r', i ≠ j →
      (raceFrom node calls (afterActions node Fog.init actions) l).phases i = .answered r →
      (raceFrom node calls (afterActions node Fog.init actions) l).phases j = .answered r' →
      r.Allows → r'.Allows → (calls i).call.nonce ≠ (calls j).call.nonce) := by
  have hinv : Inv node (afterActions node Fog.init actions) := inv_afterActions actions
  generalize afterActions node Fog.init actions = fog at *
  have hatomic : ∀ i r, (raceFrom node calls fog l).phases i = .answered r → r.Allows →
      ∃ first second, Atomic node calls fog i l first second r := by
    intro i r hphase hallows
    have hevidence : Evidence node calls fog i l _ := evidence_after hinv i l
    rw [hphase] at hevidence
    exact hevidence hallows
  refine ⟨fun i r hphase hallows ↦ ?_, fun htwice i j r r' hne hi hj hr hr' ↦ ?_⟩
  · obtain ⟨first, second, h⟩ := hatomic i r hphase hallows
    exact ⟨first, second, h, fun did hdid earlier hearlier ↦
      h.never_revoked hinv hallows hdid hearlier⟩
  · obtain ⟨first, second, h⟩ := hatomic i r hi hr
    obtain ⟨first', second', h'⟩ := hatomic j r' hj hr'
    have hbegan : Stepped i l first := h.began.trans h.ended
    have hbegan' : Stepped j l first' := h'.began.trans h'.ended
    rcases hbegan.cases hbegan' hne with hbefore | hbefore
    · exact not_taken_again htwice hbefore hbegan'.isPrefix h.takes h'.takes
    · exact (not_taken_again htwice hbefore hbegan.isPrefix h'.takes h.takes).symm

/-- The same request twice. -/
def replayCalls (i : ℕ) : CallEvent := ⟨plainEnv (3 + i) 0 none, .verify memberRequest⟩

def replayMoves : List (PoolMove Event) :=
  List.replicate 9 (.thread 0) ++ List.replicate 9 (.thread 1)

theorem access_interleaved_replay : ∃ r first second,
    Atomic plainNode replayCalls (afterActions plainNode Fog.init (memberRun.map .request)) 0
      replayMoves first second r ∧ r.Allows ∧
    ∀ r', (raceFrom plainNode replayCalls
      (afterActions plainNode Fog.init (memberRun.map .request)) replayMoves).phases 1 =
        .answered r' → ¬ r'.Allows := by
  have hnone : handedOut plainNode replayCalls
      (afterActions plainNode Fog.init (memberRun.map .request)) replayMoves = [] := by
    refine handedOut_threads fun m hm ↦ ?_
    rcases List.mem_append.mp hm with hm | hm
    · exact ⟨0, List.eq_of_mem_replicate hm⟩
    · exact ⟨1, List.eq_of_mem_replicate hm⟩
  obtain ⟨hatomic, htwice⟩ :=
    access_interleaved plainNode replayCalls (memberRun.map .request) replayMoves
  have honce := htwice ⟨hnone ▸ List.nodup_nil, fun n hn ↦ absurd (hnone ▸ hn) List.not_mem_nil⟩
  obtain ⟨pkg, hheld, hbody, hdid, hepoch, hkey⟩ := memberPackage_held
  obtain ⟨rec, hverified⟩ := memberRequest_verified hheld hbody hdid hepoch hkey
  have hallows : (answer plainNode (after plainNode Fog.init memberRun)
      ⟨(replayCalls 0).env, (replayCalls 0).call.request⟩).Allows := by
    rw [answer_verify rfl]
    exact hverified.allows
  rw [← afterActions_requests] at hallows
  generalize afterActions plainNode Fog.init (memberRun.map .request) = fog at *
  have hstart : (raceFrom plainNode replayCalls fog []).phases 0 =
      .start (replayCalls 0).call := rfl
  have hfirst := (race_alone hstart).1
  have hother : ∀ m ∈ List.replicate 9 (PoolMove.thread 1 : PoolMove Event), m ≠ .thread 0 := by
    intro m hm
    rw [List.eq_of_mem_replicate hm]
    simp
  rw [raceFrom, ← phases_others hother, ← run_append] at hfirst
  obtain ⟨first, second, h, -⟩ := hatomic 0 _ hfirst hallows
  exact ⟨_, first, second, h, hallows, fun r' hr' hallows' ↦
    honce 0 1 _ r' zero_ne_one hfirst hr' hallows hallows' rfl⟩

end race

end FogNode.Proofs
