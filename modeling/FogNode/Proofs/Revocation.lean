import FogNode.Proofs.Decisions
import FogNode.Proofs.Identities
import FogNode.Proofs.Instance
import FogNode.Proofs.Steps

namespace FogNode.Proofs

open FogNode.Library FogNode.Source

variable {P : Platform} {node : Node P} {env : Env} {fog fog' : Fog} {did : String}

/-- No path through the fog serves the device. -/
structure ShutOut (node : Node P) (fog : Fog) (did : String) : Prop where
  status : ∃ rec, fog.devices.get? did = some rec ∧ rec.status = .revoked
  access : ∀ env (body : TokenAccessRequest), Json.field "did" body.token = some (.str did) ∨
      (∃ tokenId, Json.field "token_id" body.token = some (.str tokenId) ∧
        fog.tokenState.issued.get? tokenId = some did) →
    ¬ (tokensAccess node env body fog).1.Allows
  verify : ∀ env (body : VerifyRequest),
    Json.field "did" body.proofPackage = some (.str did) →
    ¬ (verifyAndAuthorize node env body fog).1.Allows
  issue : ∀ env sessionId token, (tokensIssue node env sessionId fog).1 = .ok token →
    Json.field "did" token ≠ some (.str did)
  tokens : ∀ tokenId, fog.tokenState.issued.get? tokenId = some did →
    tokenId ∈ fog.tokenState.revokedTokenIds
  proof : ∀ epochId body, getProof did epochId fog ≠ .ok body

theorem field_token (tokenId did publicKeyHex : String) (deviceType role : Option String)
    (key : P.PrivateKey) (coins : ℕ) (epochId ttl : ℤ) (now : ℚ) :
    Json.field "did" (issueToken P tokenId did publicKeyHex deviceType role key coins epochId ttl
      now).1 = some (.str did) := by
  simp [issueToken, tokenFields, Json.field]

theorem isDeviceRevoked_of (h : Revoked fog did) : isDeviceRevoked fog.devices did = true := by
  obtain ⟨rec, hrec, hs⟩ := h
  simp [isDeviceRevoked, DeviceStore.get, hrec, hs]

/-- Every path honours the one status. -/
theorem Inv.shutOut (h : Inv node fog) (hr : Revoked fog did) : ShutOut node fog did := by
  obtain ⟨rec, hrec, hs⟩ := hr
  have htokens : ∀ tokenId, fog.tokenState.issued.get? tokenId = some did →
      tokenId ∈ fog.tokenState.revokedTokenIds := by
    intro tokenId hissued
    obtain ⟨rec', hrec', -, hrev⟩ := h.tokens tokenId did hissued
    rw [hrec] at hrec'
    cases hrec'
    exact hrev hs
  refine ⟨⟨rec, hrec, hs⟩, ?_, ?_, ?_, htokens, ?_⟩
  · intro env body hbody hallow
    obtain ⟨tokenId, tdid, ownType, role, had⟩ := access_allows hallow
    have hlive := had.live
    unfold accessRevoked at hlive
    split_ifs at hlive with hrevoked
    · cases hlive
    rcases hbody with hdid | ⟨t, ht, hissued⟩
    · rw [had.did_eq] at hdid
      cases hdid
      dsimp only at hlive
      rw [isDeviceRevoked_of ⟨rec, hrec, hs⟩] at hlive
      cases hlive
    · rw [had.token_id] at ht
      cases ht
      exact hrevoked (by simpa [TokenState.isRevoked] using htokens tokenId hissued)
  · intro env body hbody hallow
    obtain ⟨pkg, rec', hv⟩ := verify_allows hallow
    have hdid := (parse_ok hv.parsed).1
    rw [hbody] at hdid
    cases hdid
    have hget := hv.get
    rw [hrec] at hget
    cases hget
    have hstatus := hv.status_eq
    rw [hs] at hstatus
    cases hstatus
  · intro env sessionId token hok hdid
    have heffect := tokensIssue_effect node env fog sessionId
    rw [hok] at heffect
    generalize (tokensIssue node env sessionId fog).2 = fog₂ at heffect
    cases heffect with
    | read hread => exact hread
    | refused hrefused => exact hrefused token rfl
    | issued _ _ _ hrec' hrev =>
      rw [field_token] at hdid
      cases hdid
      rw [hrec] at hrec'
      cases hrec'
      exact hrev hs
    | challenged hask => exact hask
    | presented hp => exact hp
  · intro epochId body hproof
    simp [getProof, DeviceStore.get, hrec, hs, Response.error] at hproof

/-- A successful `/revocation/revoke` of a whole device leaves it revoked. -/
theorem revoked_of_effect {body : RevokeRequest} {adminKey : Option String}
    {fields : List (String × Json)} (hbody : body.tokenOnly = false)
    (he : Effect node env fog (.revoke body adminKey) (.ok fields) fog') :
    Revoked fog' body.did := by
  cases he with
  | read hread => exact hread.elim
  | refused hrefused => exact absurd rfl (hrefused fields)
  | challenged hask => exact hask.elim
  | presented hp => exact hp.elim
  | tokenRevoked hbody' => rw [hbody] at hbody'; cases hbody'
  | @deviceRevoked _ _ _ rec _ _ hrec =>
    refine ⟨{ rec with status := .revoked }, ?_, rfl⟩
    exact (get?_setStatus _ _ _ _).trans (by rw [if_pos rfl, hrec]; rfl)

/-- An epoch finalized by a step has members that are on record and not revoked. -/
theorem Inv.new_epoch (h : Inv node fog) {request : Request} {r : Response}
    (he : Effect node env fog request r fog') {epochId : ℤ} {pkgs : PackageSet}
    (hp : fog'.epochs.packages.get? epochId = some pkgs) :
    fog.epochs.packages.get? epochId = some pkgs ∨
      (fog.epochs.packages.get? epochId = none ∧
        ∀ pkg ∈ pkgs.values, ∃ rec, fog.devices.get? pkg.did = some rec ∧
          rec.status ≠ .revoked) := by
  cases he with
  | finalizing hf hout hr =>
    cases hf with
    | @closed members new carried tree pkgs' result hm hne ht hroot hd hof hresult =>
      change (fog.epochs.packages.set fog.epochs.currentEpochId pkgs').get? epochId = _ at hp
      rw [Dict.get?_set] at hp
      split at hp
      case isTrue he =>
        cases hp
        refine .inr ⟨?_, fun pkg hpkg ↦ ?_⟩
        · cases hget : fog.epochs.packages.get? epochId with
          | none => rfl
          | some old => exact absurd (he ▸ (h.epochs.finalized _ _ hget).1) (lt_irrefl _)
        · obtain ⟨rec, hrec, -, hlive⟩ := h.packaged_records hm hof pkg hpkg
          exact ⟨rec, hrec, hlive⟩
      case isFalse => exact .inl hp
    | _ => exact .inl hp
  | _ => exact .inl hp

theorem Keeps.revoked (h : Keeps fog fog') (hr : Revoked fog did) : Revoked fog' did :=
  h.devices.settled (fun _ _ hs ha ↦ ha.revoked hs) hr

/-- Every epoch that `fog` does not have is without the device. -/
def NoneAdded (fog : Fog) (did : String) (fog' : Fog) : Prop :=
  ∀ epochId pkgs, fog'.epochs.packages.get? epochId = some pkgs →
    fog.epochs.packages.get? epochId = some pkgs ∨
      (fog.epochs.packages.get? epochId = none ∧ ∀ pkg ∈ pkgs.values, pkg.did ≠ did)

/-- Epochs finalized while a device is revoked do not have it as a member. -/
theorem later_epochs (h : Inv node fog) (hr : Revoked fog did) (later : List Event) :
    NoneAdded fog did (after node fog later) := by
  have hstep : ∀ g e, (Inv node g ∧ Revoked g did ∧ Keeps fog g ∧ NoneAdded fog did g) →
      Inv node (step node g e) ∧ Revoked (step node g e) did ∧ Keeps fog (step node g e) ∧
        NoneAdded fog did (step node g e) := by
    rintro g e ⟨hg, hrg, hkg, hadded⟩
    have he := step_effect node g e
    obtain ⟨hinv, hkeeps⟩ := hg.effect he
    refine ⟨hinv, hkeeps.revoked hrg, hkg.trans _ _ _ hkeeps, fun epochId pkgs hp ↦ ?_⟩
    rcases hg.new_epoch he hp with hold | ⟨hnone, hmembers⟩
    · exact hadded epochId pkgs hold
    · right
      constructor
      · cases hget : fog.epochs.packages.get? epochId with
        | none => rfl
        | some old =>
          rw [hkg.packages.eq_some hget] at hnone
          cases hnone
      · rintro pkg hpkg rfl
        obtain ⟨rec, hrec, hlive⟩ := hmembers pkg hpkg
        obtain ⟨rec', hrec', hs⟩ := hrg
        rw [hrec] at hrec'
        cases hrec'
        exact hlive hs
  exact (run_invariant hstep ⟨h, hr, .refl fog, fun _ _ hp ↦ .inl hp⟩ later).2.2.2

/-- Finalized epochs stay as they are, and later ones are without the device. -/
structure EpochsWithout (node : Node P) (did : String) (fog fog' : Fog) : Prop where
  packages_kept : ∀ epochId pkgs, fog.epochs.packages.get? epochId = some pkgs →
    fog'.epochs.packages.get? epochId = some pkgs
  roots_kept : ∀ epochId root, fog.ledger.getRoot epochId = some root →
    fog'.ledger.getRoot epochId = some root
  later : ∀ epochId pkgs, fog'.epochs.packages.get? epochId = some pkgs →
    fog.epochs.packages.get? epochId = none →
    pkgs.get? did = none ∧ ∃ tree, EpochOf node epochId pkgs tree ∧
      fog'.ledger.getRoot epochId = some tree.rootHex ∧
      ∀ pk leaf, leafHash P did pk = .ok leaf → leaf ∈ tree.leaves →
        ∃ pkg ∈ pkgs.values, idInput (identityOf pkg) ≠ leafInput did pk ∧
          P.sha256 (idInput (identityOf pkg)) = P.sha256 (leafInput did pk)

theorem Inv.epochsWithout (h : Inv node fog) (hr : Revoked fog did) (later : List Event) :
    EpochsWithout node did fog (after node fog later) := by
  have hkeeps := keeps_after h later
  refine ⟨fun _ _ ↦ hkeeps.packages.eq_some, fun _ _ ↦ hkeeps.roots.eq_some,
    fun epochId pkgs hp hnone ↦ ?_⟩
  rcases later_epochs h hr later epochId pkgs hp with hold | ⟨-, hmembers⟩
  · rw [hnone] at hold
    cases hold
  obtain ⟨-, tree, hof, hroot⟩ := (inv_continues h later).epochs.finalized epochId pkgs hp
  refine ⟨?_, tree, hof, hroot, fun pk leaf hleaf hmem ↦ ?_⟩
  · cases hget : pkgs.get? did with
    | none => rfl
    | some pkg =>
      exact absurd (Table.key_of_get? hget) (hmembers pkg (Table.mem_values.mpr
        (Table.get?_key hget)))
  · obtain ⟨pkg, hpkg, hdid | hcollision⟩ := hof.leaf_of_member hleaf hmem
    · exact absurd hdid (hmembers pkg hpkg)
    · exact ⟨pkg, hpkg, hcollision⟩

/-- Once `/revocation/revoke` has accepted the revocation of a device, the device is
shut out in every continuation of the run, and in no later epoch. -/
theorem revocation_is_final (node : Node P) (earlier later : List Event) (revocation : Event)
    {body : RevokeRequest} {adminKey : Option String}
    (hreq : revocation.request = .revoke body adminKey) (hbody : body.tokenOnly = false)
    (hok : succeeds (answer node (after node Fog.init earlier) revocation) = true) :
    ShutOut node (after node Fog.init (earlier ++ revocation :: later)) body.did ∧
      EpochsWithout node body.did (after node Fog.init (earlier ++ [revocation]))
        (after node Fog.init (earlier ++ revocation :: later)) := by
  have hsplit : after node Fog.init (earlier ++ revocation :: later) =
      after node (after node Fog.init (earlier ++ [revocation])) later := by
    rw [List.append_cons, after, run_append]
  have hinv : Inv node (after node Fog.init (earlier ++ [revocation])) := inv_after _
  have hrevoked : Revoked (after node Fog.init (earlier ++ [revocation])) body.did := by
    rw [after, run_snoc]
    have he := step_effect node (after node Fog.init earlier) revocation
    obtain ⟨fields, hfields⟩ := exists_of_succeeds hok
    rw [hfields, hreq] at he
    exact revoked_of_effect hbody he
  rw [hsplit]
  exact ⟨(inv_continues hinv later).shutOut ((keeps_after hinv later).revoked hrevoked),
    hinv.epochsWithout hrevoked later⟩

/-- A registered device is revoked while it waits for its epoch, which then closes
with another device. -/
theorem revocation_is_final_plain :
    ShutOut plainNode (after plainNode Fog.init ((registration (plainKey 7) 0 7 ++
        registration (plainKey 8) 0 8) ++
        plainEvent 1 3 (.revoke ⟨plainDid 7, none, false⟩ (some "admin")) ::
          [plainEvent 2 3 (.epochClose [] (some "admin"))])) (plainDid 7) ∧
      EpochsWithout plainNode (plainDid 7)
        (after plainNode Fog.init ((registration (plainKey 7) 0 7 ++
          registration (plainKey 8) 0 8) ++
          [plainEvent 1 3 (.revoke ⟨plainDid 7, none, false⟩ (some "admin"))]))
        (after plainNode Fog.init ((registration (plainKey 7) 0 7 ++
          registration (plainKey 8) 0 8) ++
          plainEvent 1 3 (.revoke ⟨plainDid 7, none, false⟩ (some "admin")) ::
            [plainEvent 2 3 (.epochClose [] (some "admin"))])) :=
  revocation_is_final plainNode _ _
    (plainEvent 1 3 (.revoke ⟨plainDid 7, none, false⟩ (some "admin"))) rfl rfl
    (by decide +kernel)

end FogNode.Proofs
