import FogNode.Proofs.EpochAtomicity

namespace FogNode.Proofs

open FogNode.Library FogNode.Source

variable {P : Platform} {node : Node P} {env : Env} {fog fog' : Fog} {did : String}

/-- `/register/metadata` was accepted for the device at some point of the run. -/
def MetadataAccepted (node : Node P) (events : List Event) (did : String) : Prop :=
  ∃ earlier e later, events = earlier ++ e :: later ∧ (∃ body, e.request = .registerMetadata body) ∧
    (answer node (after node Fog.init earlier) e).text "did" = some did

/-- The device waits for the open epoch, or is registered or revoked. -/
def Settled (fog : Fog) (did : String) : Prop :=
  (fog.epochs.pending.get? did).isSome ∨ ∃ rec, fog.devices.get? did = some rec ∧
    (rec.status = .registered ∨ rec.status = .revoked)

/-- The device is registered or revoked. -/
def Decided (fog : Fog) (did : String) : Prop :=
  ∃ rec, fog.devices.get? did = some rec ∧ (rec.status = .registered ∨ rec.status = .revoked)

def HasLeaf (devices : DeviceStore) (did : String) : Prop :=
  ∃ key leaf, enrolled devices did = some (key, some leaf)

theorem hasLeaf_iff {devices : DeviceStore} :
    HasLeaf devices did ↔ ∃ rec, devices.get? did = some rec ∧ rec.leaf ≠ none := by
  constructor
  · rintro ⟨key, leaf, h⟩
    obtain ⟨rec, hrec, he⟩ := exists_of_enrolled h
    have hleaf : rec.leaf = some leaf := congrArg Prod.snd he
    exact ⟨rec, hrec, by simp [hleaf]⟩
  · rintro ⟨rec, hrec, hleaf⟩
    obtain ⟨leaf, hl⟩ := Option.ne_none_iff_exists'.mp hleaf
    exact ⟨rec.publicKey, leaf, by rw [enrolled_of_get? hrec, hl]⟩

theorem metadataAccepted_snoc {events : List Event} {e : Event} :
    MetadataAccepted node (events ++ [e]) did ↔ MetadataAccepted node events did ∨
      ((∃ body, e.request = .registerMetadata body) ∧
        (answer node (after node Fog.init events) e).text "did" = some did) := by
  constructor
  · rintro ⟨earlier, e', later, hsplit, hreq, hans⟩
    rcases List.eq_nil_or_concat later with rfl | ⟨later, last, rfl⟩
    · obtain ⟨rfl, he⟩ := List.append_inj' hsplit rfl
      cases he
      exact .inr ⟨hreq, hans⟩
    · rw [List.concat_eq_append, ← List.cons_append, ← List.append_assoc] at hsplit
      obtain ⟨rfl, -⟩ := List.append_inj' hsplit rfl
      exact .inl ⟨earlier, e', later, rfl, hreq, hans⟩
  · rintro (⟨earlier, e', later, rfl, hreq, hans⟩ | ⟨hreq, hans⟩)
    · exact ⟨earlier, e', later ++ [e], by simp, hreq, hans⟩
    · exact ⟨events, e, [], rfl, hreq, hans⟩

theorem Refused.text {r : Response} (h : Refused r) (k : String) : r.text k = none := by
  cases r with
  | ok body => exact absurd rfl (h body)
  | httpError status detail => rfl
  | serverError e => rfl

theorem Inv.hasLeaf_effect (h : Inv node fog) {request : Request} {r : Response}
    (he : Effect node env fog request r fog') :
    HasLeaf fog'.devices did ↔ HasLeaf fog.devices did ∨
      ((∃ body, request = .registerMetadata body) ∧ r.text "did" = some did) := by
  have hsame : enrolled fog'.devices = enrolled fog.devices →
      (∀ body, request = .registerMetadata body → r.text "did" = none) →
      (HasLeaf fog'.devices did ↔ HasLeaf fog.devices did ∨
        ((∃ body, request = .registerMetadata body) ∧ r.text "did" = some did)) := by
    intro hview hnone
    simp only [HasLeaf, hview, iff_self_or, and_imp]
    rintro ⟨body, hreq⟩ htext
    rw [hnone body hreq] at htext
    cases htext
  have hother : enrolled fog'.devices = enrolled fog.devices →
      (∀ body, request ≠ .registerMetadata body) →
      (HasLeaf fog'.devices did ↔ HasLeaf fog.devices did ∨
        ((∃ body, request = .registerMetadata body) ∧ r.text "did" = some did)) :=
    fun hview hne ↦ hsame hview fun body hreq ↦ absurd hreq (hne body)
  cases he with
  | read hread => exact hsame rfl fun body hreq ↦ by rw [hreq] at hread; exact hread.elim
  | refused hr => exact hsame rfl fun _ _ ↦ hr.text "did"
  | challenged hask => exact hsame rfl fun body hreq ↦ by rw [hreq] at hask; exact hask.elim
  | presented hp => exact hsame rfl fun body hreq ↦ by rw [hreq] at hp; exact hp.elim
  | started => exact hother rfl (by simp)
  | submitted => exact hother rfl (by simp)
  | popFailed => exact hother rfl (by simp)
  | @popPassed body r s s' d key pk challenge signature hs hstate hid hsdid hskey =>
    obtain ⟨key', pk, hb⟩ := h.bound hs (by simp [hstate]) hsdid
    have hnew := hb.submitted hstate
    simp only [HasLeaf, enrolled_upsert, reduceCtorEq, exists_false, false_and, or_false]
    split
    case isTrue hd => subst hd; simp [hnew]
    case isFalse => rfl
  | unqueued hs hstate hdid hrec hr =>
    exact hsame (enrolled_setMetadata _ _ _) fun _ _ ↦ hr.text "did"
  | @queued body s s' d key rec pk leaf fields hs hstate hdid hrec _ _ _ _ _ _ _ _ _ hr =>
    have htext : (Response.ok fields).text "did" = some d := by
      simp [Response.text, Response.field, hr, strField]
    simp only [HasLeaf, enrolled_setLeaf, enrolled_setMetadata, htext, enrolled_of_get? hrec]
    by_cases hd : did = d
    · simp [hd]
    · simp [hd, Ne.symm hd]
  | issued => exact hother (enrolled_setStatus _ _ _) (by simp)
  | tokenRevoked => exact hother rfl (by simp)
  | deviceRevoked => exact hother (enrolled_setStatus _ _ _) (by simp)
  | finalizing hf =>
    refine hother ?_ (by simp)
    cases hf with
    | closed hm _ _ _ _ hp =>
      exact commitDevices_enrolled (Table.nodup_keys _) (h.packaged_records hm hp)
    | _ => rfl

/-- The devices whose metadata were accepted are those with a leaf on record. -/
theorem metadataAccepted_iff (events : List Event) :
    MetadataAccepted node events did ↔ HasLeaf (after node Fog.init events).devices did := by
  refine run_history (fun events (fog : Fog) ↦ MetadataAccepted node events did ↔
    HasLeaf fog.devices did) ?_ ?_ events
  · constructor
    · rintro ⟨earlier, e, later, hnil, -⟩
      simp at hnil
    · rintro ⟨key, leaf, h⟩
      simp [Fog.init, Fog.create, enrolled] at h
  · intro l e ih
    rw [metadataAccepted_snoc, ih,
      (inv_after l).hasLeaf_effect (step_effect node (after node Fog.init l) e)]

/-- The request closes an epoch and excludes a queued device that is not revoked. -/
def Strands (node : Node P) (fog : Fog) (e : Event) : Prop :=
  ∃ excludeDids did rec, e.request = .epochClose excludeDids (some node.adminKey) ∧
    e.env.disk = none ∧ ReachesFile node excludeDids fog ∧ did ∈ excludeDids ∧
    (fog.epochs.pending.get? did).isSome ∧ fog.devices.get? did = some rec ∧
    rec.status ≠ .revoked

def AllSettled (fog : Fog) : Prop := ∀ did, HasLeaf fog.devices did → Settled fog did

theorem Decided.advance (h : Decided fog did) (hadv : Advance fog.devices fog'.devices) :
    Decided fog' did := by
  obtain ⟨rec, hrec, hs⟩ := h
  obtain ⟨rec', hrec', ha⟩ := hadv did rec hrec
  have hle := ha.status_le
  refine ⟨rec', hrec', ?_⟩
  rcases hs with hs | hs <;> rw [hs] at hle <;> cases hs' : rec'.status <;>
    simp [hs', rank] at hle ⊢

theorem Settled.advance (h : Settled fog did) (hadv : Advance fog.devices fog'.devices)
    (hp : (fog.epochs.pending.get? did).isSome → (fog'.epochs.pending.get? did).isSome) :
    Settled fog' did :=
  h.imp hp fun hdecided ↦ Decided.advance hdecided hadv

/-- A close decides every device that was queued, unless it excludes it. -/
theorem Inv.decided_close (h : Inv node fog) {excludeDids : List String} {members : Batch}
    {new carried : ℕ} {tree : MerkleTree} {pkgs : PackageSet}
    (hm : collectMembers node fog (blockedDids fog.devices excludeDids) =
      .ok (members, new, carried))
    (hp : PackagesOf node fog.epochs.currentEpochId members tree pkgs)
    (hfree : ∀ rec, did ∈ excludeDids → (fog.epochs.pending.get? did).isSome →
      fog.devices.get? did = some rec → rec.status = .revoked)
    (hs : Settled fog did) : Decided (Proofs.finalized node env fog tree pkgs) did := by
  have hadv := commitDevices_advance (Table.nodup_keys pkgs) (h.packaged_records hm hp)
    fog.epochs.currentEpochId
  by_cases hpending : (fog.epochs.pending.get? did).isSome
  · obtain ⟨e, he⟩ := Option.isSome_iff_exists.mp hpending
    obtain ⟨rec, hrec, -⟩ := h.queue did e he
    rw [Table.key_of_get? he] at hrec
    by_cases hblocked : did ∈ blockedDids fog.devices excludeDids
    · have hrev : rec.status = .revoked := by
        rcases mem_blockedDids.mp hblocked with hx | ⟨rec', hrec', hs'⟩
        · exact hfree rec hx hpending hrec
        · rw [hrec] at hrec'
          cases hrec'
          exact hs'
      obtain ⟨rec', hrec', ha⟩ := hadv did rec hrec
      exact ⟨rec', hrec', .inr (ha.revoked hrev)⟩
    · -- the device is a member, so that the close registers it
      have hmember := pending_mem_members hm he hblocked
      obtain ⟨pkg, hpkg, hof⟩ := hp.complete e (Table.mem_values.mpr (Table.get?_key hmember))
      have hget := get?_commitDevices (Table.nodup_keys pkgs) fog.epochs.currentEpochId
        fog.devices hpkg
      rw [hof.did_eq, Table.key_of_get? he, hrec] at hget
      exact ⟨_, hget, .inl rfl⟩
  · exact Decided.advance (hs.resolve_left hpending) hadv

theorem Inv.decided_closed (h : Inv node fog) {excludeDids : List String} {result : EpochResult}
    (hf : Finalizing node env excludeDids fog (.ok result) fog') (hfree : did ∉ excludeDids)
    (hs : Settled fog did) : Decided fog' did := by
  cases hf with
  | closed hm he ht hr hd hp => exact h.decided_close hm hp (fun _ hx ↦ absurd hx hfree) hs

theorem epochClose_finalizes (node : Node P) (env : Env) (excludeDids : List String) (fog : Fog) :
    (epochClose node env excludeDids (some node.adminKey) fog).2 =
      (finalizeEpoch node env excludeDids fog).2 := by
  unfold epochClose
  rw [if_neg (not_not.mpr rfl)]
  split <;> simp_all

/-- A step that strands no device leaves all settled. -/
theorem Inv.allSettled_step (h : Inv node fog) (hall : AllSettled fog) {e : Event}
    (hno : ¬ Strands node fog e) : AllSettled (step node fog e) := by
  intro did hleaf
  have he := step_effect node fog e
  have hadv := (h.effect he).2.devices
  obtain ⟨env, request⟩ := e
  generalize answer node fog ⟨env, request⟩ = r at he
  generalize step node fog ⟨env, request⟩ = fog' at he hleaf hadv ⊢
  dsimp only at he
  rcases (h.hasLeaf_effect he).mp hleaf with hold | ⟨⟨body, rfl⟩, htext⟩
  · have hs := hall did hold
    cases he with
    | queued => exact hs.advance hadv fun hp ↦ by rw [Table.get?_add]; split <;> simp [hp]
    | @finalizing excludeDids _ _ _ _ hf _ _ hadmin =>
      cases hf with
      | closed hm he ht hr hd hp =>
        refine .inr (h.decided_close hm hp (fun rec hx hpending hrec ↦ ?_) hs)
        by_contra hlive
        exact hno ⟨excludeDids, did, rec, by rw [hadmin], hd, h.reaches_file hm he ht hr, hx,
          hpending, hrec, hlive⟩
      | _ => exact hs.advance hadv id
    | _ => exact hs.advance hadv id
  · cases he with
    | read hread => exact hread.elim
    | refused hr => rw [hr.text] at htext; cases htext
    | challenged hask => exact hask.elim
    | presented hp => exact hp.elim
    | unqueued _ _ _ _ hr => rw [hr.text] at htext; cases htext
    | queued _ _ _ _ _ _ _ _ _ _ _ _ _ hr =>
      simp only [Response.text, Response.field, hr, Option.bind_some, strField,
        Option.some.injEq] at htext
      subst htext
      exact .inl (by simp)

/-- A device that a close strands has a leaf and is not settled any more. -/
theorem Inv.stranded (h : Inv node fog) {e : Event} (hs : Strands node fog e) :
    ¬ AllSettled (step node fog e) := by
  obtain ⟨excludeDids, did, rec, hreq, hdisk, hfar, hx, hpending, hrec, hlive⟩ := hs
  have hstep : step node fog e = (finalizeEpoch node e.env excludeDids fog).2 := by
    rw [step, hreq]
    exact epochClose_finalizes node e.env excludeDids fog
  obtain ⟨out, fog', hout, hf⟩ := finalizeEpoch_cases node e.env excludeDids fog
  rw [hstep, hout]
  intro hall
  cases out with
  | error err =>
    rcases h.raises_cases hf with ⟨-, hnot⟩ | ⟨-, hbad, -⟩
    · exact hnot hfar
    · exact hbad hdisk
  | ok result =>
    cases hf with
    | @closed members new carried tree pkgs _ hm he ht hr hd hp =>
      obtain ⟨q, hq⟩ := Option.isSome_iff_exists.mp hpending
      obtain ⟨rec', hrec', hleaf, -, hunreg⟩ := h.queue did q hq
      rw [Table.key_of_get? hq, hrec] at hrec'
      cases hrec'
      have hget : (commitDevices fog.epochs.currentEpochId pkgs.values fog.devices).get? did =
          some rec := by
        rw [get?_commitDevices_of_not_mem, hrec]
        rintro hmem
        obtain ⟨pkg, hpkg, hdid⟩ := List.mem_map.mp hmem
        obtain ⟨e', r, hok, hof⟩ := h.package_ok hm hp hpkg
        rw [← hdid, hof.did_eq] at hx
        exact hok.free hx
      have hsettled := hall did (hasLeaf_iff.mpr ⟨rec, hget, by simp [hleaf]⟩)
      rcases hsettled with hp' | ⟨r, hr', hs⟩
      · simp [Proofs.finalized, nextManager] at hp'
      · change (commitDevices _ _ _).get? did = _ at hr'
        rw [hget] at hr'
        cases hr'
        exact hs.elim hunreg hlive

/-- Every device whose metadata were accepted is settled, and a token is only issued
for a device of the open batch, which the token names. -/
structure NoneStranded (node : Node P) (events : List Event) : Prop where
  settled : ∀ did, MetadataAccepted node events did → Settled (after node Fog.init events) did
  tokens : ∀ env sessionId token fog' did,
    tokensIssue node env sessionId (after node Fog.init events) = (.ok token, fog') →
    (Response.ok token).text "did" = some did →
    (Response.ok token).integer "queued_for_epoch" = some fog'.epochs.currentEpochId ∧
      (fog'.epochs.pending.get? did).isSome

theorem fields_of_token (tokenId did publicKeyHex : String) (deviceType role : Option String)
    (key : P.PrivateKey) (coins : ℕ) (epochId ttl : ℤ) (now : ℚ) :
    (Response.ok (issueToken P tokenId did publicKeyHex deviceType role key coins epochId ttl
        now).1).text "did" = some did ∧
      (Response.ok (issueToken P tokenId did publicKeyHex deviceType role key coins epochId ttl
        now).1).integer "queued_for_epoch" = some epochId := by
  simp [issueToken, tokenFields, Json.field, Response.text, Response.integer, Response.field,
    strField]

theorem noneStranded_iff {events : List Event} :
    NoneStranded node events ↔ AllSettled (after node Fog.init events) := by
  constructor
  · exact fun h did hleaf ↦ h.settled did ((metadataAccepted_iff events).mpr hleaf)
  · intro h
    refine ⟨fun did hm ↦ h did ((metadataAccepted_iff events).mp hm), ?_⟩
    intro env sessionId token fog' did hissue hdid
    have heffect := tokensIssue_effect node env (after node Fog.init events) sessionId
    rw [hissue] at heffect
    have hinv : Inv node (after node Fog.init events) := inv_after events
    generalize after node Fog.init events = fog at *
    cases heffect with
    | read hread => exact hread.elim
    | refused hr => exact absurd rfl (hr token)
    | challenged hask => exact hask.elim
    | presented hp => exact hp.elim
    | issued hs hstate hsdid hrec hrev hreg =>
      obtain ⟨hd, hepoch⟩ := fields_of_token (P := P) _ _ _ _ _ _ _ _ _ _
      rw [hd, Option.some.injEq] at hdid
      subst hdid
      refine ⟨hepoch, ?_⟩
      have hleaf := (hinv.accepted hs hstate hsdid hrec).2
      rcases h _ (hasLeaf_iff.mpr ⟨_, hrec, hleaf⟩) with hpending | ⟨rec', hrec', hs'⟩
      · exact hpending
      · rw [hrec] at hrec'
        cases hrec'
        exact absurd hs' (by simp [hrev, hreg])

/-- No accepted device is stranded in a run exactly when no close of the run excludes a
queued device that is not revoked. -/
theorem none_stranded_iff (node : Node P) (events : List Event) :
    (∀ earlier, earlier <+: events → NoneStranded node earlier) ↔
      Admissible (step node) (fun fog e ↦ ¬ Strands node fog e) Fog.init events := by
  refine admissible_iff inv_step inv_init ?_ (fun l e hinv hgood ↦ ?_) events
  · refine noneStranded_iff.mpr fun did ⟨key, leaf, h⟩ ↦ ?_
    simp [Fog.init, Fog.create, enrolled] at h
  · rw [noneStranded_iff, after, run_snoc]
    exact ⟨fun hall hs ↦ hinv.stranded hs hall, hinv.allSettled_step (noneStranded_iff.mp hgood)⟩

/-- Two devices are queued, and the epoch closes without the first. -/
def strandedRun : List Event :=
  registration (plainKey 7) 0 7 ++ registration (plainKey 8) 0 8 ++
    [plainEvent 1 3 (.epochClose [plainDid 7] (some "admin"))]

/-- The answer of `/tokens/issue` in the session of the first device after that. -/
def strandedIssue : Response × Fog :=
  tokensIssue plainNode (plainEnv 2 9 none) (toHex (List.replicate 16 7))
    (after plainNode Fog.init strandedRun)

/-- The excluded device is in no batch and not registered, and still gets a token that
names the open epoch. -/
theorem queued_device_stranded :
    MetadataAccepted plainNode strandedRun (plainDid 7) ∧
      ¬ Settled (after plainNode Fog.init strandedRun) (plainDid 7) ∧
      strandedIssue.1.text "did" = some (plainDid 7) ∧
      strandedIssue.1.integer "queued_for_epoch" = some strandedIssue.2.epochs.currentEpochId ∧
      (strandedIssue.2.epochs.pending.get? (plainDid 7)).isSome = false := by
  have hrun : ((after plainNode Fog.init strandedRun).epochs.pending.get? (plainDid 7)).isSome =
        false ∧
      ((after plainNode Fog.init strandedRun).devices.get? (plainDid 7)).map DeviceRecord.status =
        some .pending ∧
      strandedIssue.1.text "did" = some (plainDid 7) ∧
      strandedIssue.1.integer "queued_for_epoch" = some strandedIssue.2.epochs.currentEpochId ∧
      (strandedIssue.2.epochs.pending.get? (plainDid 7)).isSome = false := by
    decide +kernel
  obtain ⟨hpending, hstatus, hissue⟩ := hrun
  refine ⟨⟨(registration (plainKey 7) 0 7).take 3, _, _, rfl, ⟨_, rfl⟩, by decide +kernel⟩, ?_,
    hissue⟩
  rintro (h | ⟨rec, hrec, hs⟩)
  · rw [hpending] at h
    cases h
  · rw [hrec, Option.map_some, Option.some.injEq] at hstatus
    rw [hstatus] at hs
    simp at hs

end FogNode.Proofs
