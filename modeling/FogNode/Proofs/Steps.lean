import FogNode.Proofs.Reachable

namespace FogNode.Proofs

open FogNode.Library FogNode.Source

variable {P : Platform} {node : Node P} {env : Env} {fog fog' : Fog}

/-- Nothing on record is taken back: records only advance, finalized epochs and
anchored roots are immutable, and revoked tokens stay revoked. -/
structure Keeps (fog fog' : Fog) : Prop where
  devices : Advance fog.devices fog'.devices
  packages : Grows (· = ·) fog.epochs.packages.get? fog'.epochs.packages.get?
  roots : Grows (· = ·) fog.ledger.getRoot fog'.ledger.getRoot
  revokedTokens : ∀ t ∈ fog.tokenState.revokedTokenIds, t ∈ fog'.tokenState.revokedTokenIds

theorem Keeps.refl (fog : Fog) : Keeps fog fog :=
  ⟨.refl Advances.refl _, .refl (fun _ ↦ rfl) _, .refl (fun _ ↦ rfl) _, fun _ h ↦ h⟩

theorem Keeps.trans (f g k : Fog) (h : Keeps f g) (h' : Keeps g k) : Keeps f k where
  devices := h.devices.trans Advances.trans h'.devices
  packages := h.packages.trans (fun _ _ _ ↦ Eq.trans) h'.packages
  roots := h.roots.trans (fun _ _ _ ↦ Eq.trans) h'.roots
  revokedTokens t ht := h'.revokedTokens t (h.revokedTokens t ht)

/-- A step that writes at most the sessions and the records. -/
theorem Keeps.of_devices (h : Advance fog.devices fog'.devices) (he : fog'.epochs.packages =
    fog.epochs.packages) (hl : fog'.ledger = fog.ledger)
    (ht : ∀ t ∈ fog.tokenState.revokedTokenIds, t ∈ fog'.tokenState.revokedTokenIds) :
    Keeps fog fog' :=
  ⟨h, he ▸ .refl (fun _ ↦ rfl) _, hl ▸ .refl (fun _ ↦ rfl) _, ht⟩

/-- The parts of the invariant that only depend on how the records advance. -/
theorem Inv.advance (h : Inv node fog) {sessions : SessionStore} {devices : DeviceStore}
    (hs : SessionsOk P sessions (enrolled devices)) (hr : RecordsOk P devices)
    (hadv : Advance fog.devices devices) (hreg : NoneNew .registered fog.devices devices)
    (hrev : NoneNew .revoked fog.devices devices) :
    Inv node { fog with sessions := sessions, devices := devices } where
  sessions := hs
  records := hr
  queue := h.queue.advance hadv hreg
  tokens := h.tokens.advance hadv hrev
  epochs := h.epochs.advance hadv
  ledger := h.ledger

section sessions

variable {id : String} {s s' : Session} {did : String}

theorem Inv.bound (h : Inv node fog) (hs : fog.sessions.get? id = some s)
    (hstate : s.state ≠ .authenticated) (hdid : s.did = some did) :
    ∃ key pk, BoundTo P (enrolled fog.devices) s did key pk := by
  obtain ⟨did', key, pk, hb⟩ := h.sessions.bound id s hs hstate
  obtain rfl : did' = did := by
    have he := hb.did_eq.symm.trans hdid
    exact Option.some.inj he
  exact ⟨key, pk, hb⟩

/-- The record behind a session whose proof of possession passed. -/
theorem Inv.proved (h : Inv node fog) (hs : fog.sessions.get? id = some s)
    (hstate : s.state = .popVerified) (hdid : s.did = some did) {rec : DeviceRecord}
    (hrec : fog.devices.get? did = some rec) :
    s.publicKey = some rec.publicKey ∧ rec.leaf = none := by
  obtain ⟨key, pk, hb⟩ := h.bound hs (by simp [hstate]) hdid
  have hview := hb.proved hstate
  rw [enrolled_of_get? hrec] at hview
  simp only [Option.some.injEq, Prod.mk.injEq] at hview
  exact ⟨hview.1 ▸ hb.key_eq, hview.2⟩

theorem Inv.accepted (h : Inv node fog) (hs : fog.sessions.get? id = some s)
    (hstate : s.state = .metadataAccepted) (hdid : s.did = some did) {rec : DeviceRecord}
    (hrec : fog.devices.get? did = some rec) :
    s.publicKey = some rec.publicKey ∧ rec.leaf ≠ none := by
  obtain ⟨key, pk, hb⟩ := h.bound hs (by simp [hstate]) hdid
  obtain ⟨leaf, hview⟩ := hb.accepted hstate
  rw [enrolled_of_get? hrec] at hview
  simp only [Option.some.injEq, Prod.mk.injEq] at hview
  exact ⟨hview.1 ▸ hb.key_eq, by simp [hview.2]⟩

/-- A session may move on within its DID when the enrolment moves with it. -/
theorem Inv.rebind (h : Inv node fog) (hs : fog.sessions.get? id = some s)
    (hstate : s.state ≠ .authenticated) (hdid : s.did = some did)
    (hid : s'.sessionId = s.sessionId) (hdid' : s'.did = s.did)
    (hkey : s'.publicKey = s.publicKey) {view' : String → Option Enrolment}
    (hview : ∀ j, j ≠ did → view' j = enrolled fog.devices j)
    (hstage : ∀ key, s.publicKey = some key →
      (s'.state = .keySubmitted → view' did = none) ∧
      (s'.state = .popVerified → view' did = some (key, none)) ∧
      (s'.state = .metadataAccepted → ∃ leaf, view' did = some (key, some leaf))) :
    SessionsOk P (fog.sessions.add s') view' := by
  obtain ⟨key, pk, hb⟩ := h.bound hs hstate hdid
  obtain ⟨h₁, h₂, h₃⟩ := hstage key hb.key_eq
  exact h.sessions.bind ⟨hdid'.trans hdid, hkey.trans hb.key_eq, hb.hex, hb.length_eq,
    hb.derived, h₁, h₂, h₃⟩ (h.sessions.alone hs hstate hdid hid) hview

end sessions

theorem TokensOk.record (h : TokensOk fog.tokenState fog.devices) {did tokenId : String}
    {rec : DeviceRecord} (hrec : fog.devices.get? did = some rec) (hleaf : rec.leaf ≠ none)
    (hlive : rec.status ≠ .revoked) :
    TokensOk (fog.tokenState.recordIssued tokenId did) fog.devices := by
  intro t j ht
  simp only [TokenState.recordIssued, Dict.get?_set] at ht
  split at ht
  case isTrue => cases ht; exact ⟨rec, hrec, hleaf, fun hs ↦ absurd hs hlive⟩
  case isFalse => exact h t j ht

theorem TokensOk.revokes {devices : DeviceStore} {state state' : TokenState} {l : List String}
    (h : TokensOk state devices) (hr : Revokes l state state') : TokensOk state' devices := by
  intro t j ht
  rw [hr.issued_eq] at ht
  obtain ⟨rec, hrec, hleaf, hrev⟩ := h t j ht
  exact ⟨rec, hrec, hleaf, fun hs ↦ hr.keeps t (hrev hs)⟩

theorem mem_tokensOf {state : TokenState} {did tokenId : String} :
    tokenId ∈ state.tokensOf did ↔ state.issued.get? tokenId = some did := by
  simp only [TokenState.tokensOf, List.mem_map, List.mem_filter, decide_eq_true_eq,
    Dict.get?_eq_some]
  constructor
  · rintro ⟨⟨t, j⟩, ⟨hmem, rfl⟩, rfl⟩; exact hmem
  · exact fun hmem ↦ ⟨(tokenId, did), ⟨hmem, rfl⟩, rfl⟩

theorem TokensOk.revokeDevice {devices : DeviceStore} {state state' : TokenState} {did : String}
    (h : TokensOk state devices) (hr : Revokes (state.tokensOf did) state state') :
    TokensOk state' (DeviceStore.setStatus devices did .revoked) := by
  intro t j ht
  rw [hr.issued_eq] at ht
  obtain ⟨rec, hrec, hleaf, hrev⟩ := h t j ht
  rw [get?_setStatus]
  split
  case isTrue hj =>
    subst hj
    exact ⟨{ rec with status := .revoked }, by rw [hrec]; rfl, hleaf,
      fun _ ↦ hr.reaches t (mem_tokensOf.mpr ht)⟩
  case isFalse => exact ⟨rec, hrec, hleaf, fun hs ↦ hr.keeps t (hrev hs)⟩

section handlers

variable {s s' : Session} {did publicKey : String}

theorem Inv.submitted (h : Inv node fog) {body : PublicKeyRequest} {pk : Bytes}
    (hpk : fromhex body.publicKey = .ok pk) (hlen : pk.length = COMPRESSED_PK_LEN)
    (hdid : body.did = deriveDid P pk) (hnew : fog.devices.get? body.did = none)
    (huse : SessionStore.didInUse fog.sessions body.did s.sessionId = false) :
    SessionsOk P (fog.sessions.add (submitted node env s body)) (enrolled fog.devices) := by
  have hstate : (Proofs.submitted node env s body).state = .keySubmitted := rfl
  refine h.sessions.bind ⟨rfl, rfl, hpk, hlen, hdid, fun _ ↦ enrolled_eq_none.mpr hnew, ?_, ?_⟩
    (not_in_use huse) fun _ _ ↦ rfl
  · rw [hstate]
    exact fun he ↦ by cases he
  · rw [hstate]
    exact fun he ↦ by cases he

/-- A passed proof of possession enters a pending record for a DID that had none. -/
theorem Inv.popPassed (h : Inv node fog) {id : String} (hs : fog.sessions.get? id = some s)
    (hstate : s.state = .keySubmitted) (hid : s'.sessionId = s.sessionId)
    (hsdid : s.did = some did) (hskey : s.publicKey = some publicKey) (hdid : s'.did = s.did)
    (hkey : s'.publicKey = s.publicKey) (hstate' : s'.state = .popVerified) :
    Inv node { fog with
        sessions := fog.sessions.add s'
        devices := DeviceStore.upsert fog.devices (.new did publicKey .pending) } ∧
      Advance fog.devices (DeviceStore.upsert fog.devices (.new did publicKey .pending)) := by
  obtain ⟨key, pk, hb⟩ := h.bound hs (by simp [hstate]) hsdid
  obtain rfl : key = publicKey := Option.some.inj (hb.key_eq.symm.trans hskey)
  have hnew := enrolled_eq_none.mp (hb.submitted hstate)
  refine ⟨h.advance ?_ (upsert_records h.records hb.hex hb.length_eq hb.derived)
    (upsert_advance hnew) (upsert_noneNew (by decide)) (upsert_noneNew (by decide)),
    upsert_advance hnew⟩
  refine h.rebind hs (by simp [hstate]) hsdid hid hdid hkey (fun j hj ↦ ?_) fun key' hkey' ↦ ?_
  · rw [enrolled_upsert, if_neg hj]
  · obtain rfl : key = key' := Option.some.inj (hskey.symm.trans hkey')
    refine ⟨by simp [hstate'], fun _ ↦ ?_, by simp [hstate']⟩
    rw [enrolled_upsert, if_pos rfl]

theorem Inv.described (h : Inv node fog) {id : String} (body : MetadataRequest)
    {rec : DeviceRecord} (hs : fog.sessions.get? id = some s) (hstate : s.state = .popVerified)
    (hdid : s.did = some did) (hrec : fog.devices.get? did = some rec) :
    Inv node { fog with devices := DeviceStore.setMetadata fog.devices did body } ∧
      Advance fog.devices (DeviceStore.setMetadata fog.devices did body) := by
  have hadv := setMetadata_advance body hrec (h.proved hs hstate hdid hrec).2
  exact ⟨h.advance (by rw [enrolled_setMetadata]; exact h.sessions) (setMetadata_records h.records)
    hadv setMetadata_noneNew setMetadata_noneNew, hadv⟩

/-- Accepted metadata queue the leaf of a device that had none. -/
theorem Inv.queued (h : Inv node fog) {body : MetadataRequest} {id : String}
    {rec : DeviceRecord} {pk leaf : Bytes} (hs : fog.sessions.get? id = some s)
    (hstate : s.state = .popVerified) (hdid : s.did = some did)
    (hrec : fog.devices.get? did = some rec) (hkey : s.publicKey = some publicKey)
    (hpk : fromhex publicKey = .ok pk) (hleaf : leafHash P did pk = .ok leaf)
    (hid : s'.sessionId = s.sessionId) (hdid' : s'.did = s.did)
    (hkey' : s'.publicKey = s.publicKey) (hstate' : s'.state = .metadataAccepted) :
    Inv node { fog with
        sessions := fog.sessions.add s'
        devices := DeviceStore.setLeaf (DeviceStore.setMetadata fog.devices did body) did
          (toHex leaf)
        epochs := { fog.epochs with
          pending := fog.epochs.pending.add ⟨did, toHex pk, leaf⟩ } } ∧
      Advance fog.devices (DeviceStore.setLeaf (DeviceStore.setMetadata fog.devices did body) did
        (toHex leaf)) := by
  obtain ⟨hinv, hadv⟩ := h.described body hs hstate hdid hrec
  obtain ⟨hskey, hnone⟩ := h.proved hs hstate hdid hrec
  obtain rfl : publicKey = rec.publicKey := Option.some.inj (hkey.symm.trans hskey)
  obtain ⟨rec₁, hrec₁, hkey₁, hleaf₁, hstatus₁⟩ : ∃ rec₁,
      (DeviceStore.setMetadata fog.devices did body).get? did = some rec₁ ∧
      rec₁.publicKey = rec.publicKey ∧ rec₁.leaf = none ∧ rec₁.status = rec.status := by
    rw [get?_setMetadata, if_pos rfl, hrec]
    exact ⟨_, rfl, rfl, hnone, rfl⟩
  have hadv' := setLeaf_advance (toHex leaf) hrec₁ hleaf₁
  have hview : SessionsOk P (fog.sessions.add s') (enrolled (DeviceStore.setLeaf
      (DeviceStore.setMetadata fog.devices did body) did (toHex leaf))) := by
    refine h.rebind hs (by simp [hstate]) hdid hid hdid' hkey' (fun j hj ↦ ?_) fun key hk ↦ ?_
    · rw [enrolled_setLeaf, if_neg hj, enrolled_setMetadata]
    · obtain rfl : key = rec.publicKey := Option.some.inj (hk.symm.trans hskey)
      refine ⟨by simp [hstate'], by simp [hstate'], fun _ ↦ ⟨toHex leaf, ?_⟩⟩
      rw [enrolled_setLeaf, if_pos rfl, enrolled_setMetadata, enrolled_of_get? hrec]
      rfl
  have hinv' := hinv.advance hview
    (setLeaf_records hinv.records hrec₁ (by rw [hkey₁]; exact hpk) hleaf) hadv' setLeaf_noneNew
    setLeaf_noneNew
  refine ⟨{ hinv' with
    queue := hinv'.queue.insert (Table.get?_add fog.epochs.pending ⟨did, toHex pk, leaf⟩) ?_
    epochs := ⟨hinv'.epochs.finalized, hinv'.epochs.committed⟩ },
    hadv.trans Advances.trans hadv'⟩
  refine ⟨{ rec₁ with leaf := some (toHex leaf) }, ?_, rfl, ?_, fun hs ↦ ?_⟩
  · exact (get?_setLeaf _ _ _ _).trans (by rw [if_pos rfl, hrec₁]; rfl)
  · exact (fromhex_toHex pk).trans (hkey₁ ▸ hpk.symm)
  · exact (h.records did rec hrec).committed (.inr (hstatus₁ ▸ hs)) hnone

theorem Inv.issued (h : Inv node fog) {id tokenId : String} {rec : DeviceRecord}
    (hs : fog.sessions.get? id = some s) (hstate : s.state = .metadataAccepted)
    (hdid : s.did = some did) (hrec : fog.devices.get? did = some rec)
    (hrev : rec.status ≠ .revoked) (hreg : rec.status ≠ .registered) :
    Inv node { fog with
        tokenState := fog.tokenState.recordIssued tokenId did
        devices := DeviceStore.setStatus fog.devices did .tokenized } ∧
      Advance fog.devices (DeviceStore.setStatus fog.devices did .tokenized) := by
  have hleaf := (h.accepted hs hstate hdid hrec).2
  have hadv : Advance fog.devices (DeviceStore.setStatus fog.devices did .tokenized) := by
    refine setStatus_advance fun r hr ↦ ?_
    rw [hrec] at hr
    cases hr
    cases hstatus : rec.status <;> simp [rank, hstatus] at hrev hreg ⊢
  have hinv := h.advance (by rw [enrolled_setStatus]; exact h.sessions)
    (setStatus_records h.records (.inr fun r hr ↦ by rw [hrec] at hr; cases hr; exact hleaf)) hadv
    (setStatus_noneNew (by decide)) (setStatus_noneNew (by decide))
  exact ⟨{ hinv with
    tokens := (h.tokens.record hrec hleaf hrev).advance hadv (setStatus_noneNew (by decide)) },
    hadv⟩

theorem Inv.deviceRevoked (h : Inv node fog) {state : TokenState}
    (hr : Revokes (fog.tokenState.tokensOf did) fog.tokenState state) :
    Inv node { fog with
        devices := DeviceStore.setStatus fog.devices did .revoked
        tokenState := state } ∧
      Advance fog.devices (DeviceStore.setStatus fog.devices did .revoked) := by
  have hadv : Advance fog.devices (DeviceStore.setStatus fog.devices did .revoked) :=
    setStatus_advance fun r _ ↦ by cases r.status <;> simp [rank]
  exact ⟨{
    sessions := by rw [enrolled_setStatus]; exact h.sessions
    records := setStatus_records h.records (.inl rfl)
    queue := h.queue.advance hadv (setStatus_noneNew (by decide))
    tokens := h.tokens.revokeDevice hr
    epochs := h.epochs.advance hadv
    ledger := h.ledger }, hadv⟩

end handlers

theorem roots_grow {ledger : Ledger} {block : Block} (hr : ledger.getRoot block.epochId = none) :
    Grows (· = ·) ledger.getRoot (appended ledger block).getRoot :=
  .insert (fun _ ↦ rfl) (getRoot_appended block) hr

theorem Inv.finalizing (h : Inv node fog) {excludeDids : List String}
    {out : Except PyError EpochResult} (hf : Finalizing node env excludeDids fog out fog') :
    Inv node fog' ∧ Keeps fog fog' := by
  cases hf with
  | unreadable hm => exact ⟨h, .refl fog⟩
  | empty hm he => exact ⟨h, .refl fog⟩
  | badLeaves hm he ht => exact ⟨h, .refl fog⟩
  | anchored hm he ht hr => exact ⟨h, .refl fog⟩
  | unsaved hm he ht hr hd =>
    exact ⟨h.unsaved hr, .refl Advances.refl _, .refl (fun _ ↦ rfl) _, roots_grow hr,
      fun _ ht ↦ ht⟩
  | closed hm he ht hr hd hp hresult =>
    refine ⟨h.finalized hm hr hp, commitDevices_advance (Table.nodup_keys _)
      (h.packaged_records hm hp) _, .insert (fun _ ↦ rfl) (Dict.get?_set _ _ · _) ?_,
      roots_grow hr, fun _ ht ↦ ht⟩
    cases hget : fog.epochs.packages.get? fog.epochs.currentEpochId with
    | none => rfl
    | some pkgs => exact absurd (h.epochs.finalized _ _ hget).1 (lt_irrefl _)

/-- Every step keeps the invariant, and takes nothing back. -/
theorem Inv.effect (h : Inv node fog) {request : Request} {r : Response}
    (he : Effect node env fog request r fog') : Inv node fog' ∧ Keeps fog fog' := by
  cases he with
  | read => exact ⟨h, .refl fog⟩
  | refused hr hs =>
    exact ⟨{ h with sessions := h.sessions.lapse hs }, .of_devices (.refl Advances.refl _) rfl rfl
      fun _ ht ↦ ht⟩
  | started =>
    exact ⟨{ h with sessions := h.sessions.reset rfl }, .of_devices (.refl Advances.refl _) rfl rfl
      fun _ ht ↦ ht⟩
  | submitted hs hstate hpk hlen hdid hnew huse =>
    exact ⟨{ h with sessions := h.submitted hpk hlen hdid hnew huse },
      .of_devices (.refl Advances.refl _) rfl rfl fun _ ht ↦ ht⟩
  | @popFailed body r s s' hs hstate hr hid hdid hkey hstate' =>
    refine ⟨{ h with sessions := ?_ }, .of_devices (.refl Advances.refl _) rfl rfl fun _ ht ↦ ht⟩
    rcases hstate' with hstate' | hstate'
    · exact h.sessions.reset hstate'
    · obtain ⟨did, key, pk, hb⟩ := h.sessions.bound _ s hs (by simp [hstate])
      exact h.rebind hs (by simp [hstate]) hb.did_eq hid hdid hkey (fun _ _ ↦ rfl) fun _ _ ↦
        ⟨fun _ ↦ hb.submitted hstate, by simp [hstate'], by simp [hstate']⟩
  | popPassed hs hstate hid hsdid hskey hdid hkey hstate' =>
    obtain ⟨hinv, hadv⟩ := h.popPassed hs hstate hid hsdid hskey hdid hkey hstate'
    exact ⟨hinv, .of_devices hadv rfl rfl fun _ ht ↦ ht⟩
  | unqueued hs hstate hdid hrec hr hadd =>
    obtain ⟨hinv, hadv⟩ := h.described _ hs hstate hdid hrec
    exact ⟨hinv, .of_devices hadv rfl rfl fun _ ht ↦ ht⟩
  | queued hs hstate hdid hrec hvalid hkey hpk hnew hleaf hid hdid' hkey' hstate' hr =>
    obtain ⟨hinv, hadv⟩ :=
      h.queued hs hstate hdid hrec hkey hpk hleaf hid hdid' hkey' hstate'
    exact ⟨hinv, .of_devices hadv rfl rfl fun _ ht ↦ ht⟩
  | issued hs hstate hdid hrec hrev hreg hrole =>
    obtain ⟨hinv, hadv⟩ := h.issued hs hstate hdid hrec hrev hreg
    exact ⟨{ hinv with }, .of_devices hadv rfl rfl fun _ ht ↦ ht⟩
  | challenged hask hr =>
    exact ⟨{ h with tokens := h.tokens }, .of_devices (.refl Advances.refl _) rfl rfl
      fun _ ht ↦ ht⟩
  | presented hp hn =>
    exact ⟨{ h with tokens := h.tokens }, .of_devices (.refl Advances.refl _) rfl rfl
      fun _ ht ↦ ht⟩
  | tokenRevoked hbody hr =>
    exact ⟨{ h with tokens := h.tokens.revokes hr }, .of_devices (.refl Advances.refl _) rfl rfl
      hr.keeps⟩
  | deviceRevoked hbody hrec hr =>
    obtain ⟨hinv, hadv⟩ := h.deviceRevoked hr
    exact ⟨hinv, .of_devices hadv rfl rfl hr.keeps⟩
  | finalizing hf hout hr => exact h.finalizing hf

theorem signed_keeps (node : Node P) (fog : Fog) (e : Event) {m : Bytes} (hm : m ∈ fog.signed) :
    m ∈ (step node fog e).signed := by
  have he := step_effect node fog e
  generalize step node fog e = fog' at he
  generalize answer node fog e = r at he
  generalize e.request = request at he
  cases he with
  | issued => exact List.mem_append_left _ hm
  | finalizing hf =>
    cases hf with
    | unsaved => exact List.mem_append_left _ hm
    | closed => exact List.mem_append_left _ (List.mem_append_left _ hm)
    | _ => exact hm
  | _ => exact hm

theorem inv_step (fog : Fog) (e : Event) (h : Inv node fog) : Inv node (step node fog e) :=
  (h.effect (step_effect node fog e)).1

theorem inv_after (events : List Event) : Inv node (after node Fog.init events) :=
  run_invariant inv_step inv_init events

theorem inv_continues (h : Inv node fog) (events : List Event) : Inv node (after node fog events) :=
  run_invariant inv_step h events

theorem inv_act (fog : Fog) (a : Action) (h : Inv node fog) : Inv node (act node fog a) := by
  cases a with
  | request e => exact inv_step fog e h
  | restart => exact inv_create fog.signed h.ledger.load

theorem inv_afterActions (actions : List Action) : Inv node (afterActions node Fog.init actions) :=
  run_invariant inv_act inv_init actions

/-- What a fog starts with, and what every request and every restart keeps beside the
invariant, holds after every run. -/
theorem afterActions_invariant {I : Fog → Prop} (hinit : I Fog.init)
    (hstep : ∀ fog e, Inv node fog → I fog → I (step node fog e))
    (hrestart : ∀ fog, Inv node fog → I fog → I (act node fog .restart))
    (actions : List Action) : I (afterActions node Fog.init actions) := by
  have hact : ∀ fog a, Inv node fog ∧ I fog → Inv node (act node fog a) ∧ I (act node fog a) := by
    intro fog a ⟨hinv, h⟩
    refine ⟨inv_act fog a hinv, ?_⟩
    cases a with
    | request e => exact hstep fog e hinv h
    | restart => exact hrestart fog hinv h
  exact (run_invariant hact ⟨inv_init, hinit⟩ actions).2

theorem afterActions_requests (fog : Fog) (events : List Event) :
    afterActions node fog (events.map .request) = after node fog events := by
  simp only [afterActions, after, run, List.foldl_map]
  rfl

theorem keeps_after (h : Inv node fog) (events : List Event) :
    Keeps fog (after node fog events) :=
  run_relates inv_step Keeps.refl Keeps.trans
    (fun fog e h ↦ (h.effect (step_effect node fog e)).2) h events

end FogNode.Proofs
