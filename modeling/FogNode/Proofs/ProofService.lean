import FogNode.Proofs.CarriedEntries
import FogNode.Proofs.LedgerRuns
import FogNode.Proofs.VerifyAccess

namespace FogNode.Proofs

open FogNode.Library FogNode.Source

variable {P : Platform} {node : Node P} {env : Env} {fog fog' : Fog} {did : String}
  {q : ProofPackage}

/-- The device's package of the last epoch that includes it. -/
structure Newest (fog : Fog) (did : String) (q : ProofPackage) : Prop where
  held : packageIn fog did q.epochId = some q
  newest : ∀ epochId p, packageIn fog did epochId = some p → epochId ≤ q.epochId

theorem Newest.congr (hn : Newest fog did q) (h : packageIn fog' did = packageIn fog did) :
    Newest fog' did q := by
  constructor
  · rw [h]
    exact hn.held
  · rw [h]
    exact hn.newest

theorem Newest.unique {p : ProofPackage} (h : Newest fog did p) (h' : Newest fog did q) :
    p = q := by
  have hepoch : p.epochId = q.epochId :=
    le_antisymm (h'.newest _ _ h.held) (h.newest _ _ h'.held)
  have hheld := h.held
  rw [hepoch, h'.held] at hheld
  exact (Option.some.inj hheld).symm

theorem Inv.package_epoch (h : Inv node fog) {epochId : ℤ}
    (hp : packageIn fog did epochId = some q) : q.epochId = epochId := by
  obtain ⟨pkgs, hpkgs, hget⟩ := packageIn_eq_some.mp hp
  obtain rfl : q.did = did := Table.key_of_get? hget
  obtain ⟨-, tree, hof, -⟩ := h.epochs.finalized epochId pkgs hpkgs
  obtain ⟨e, -, hpkg⟩ := hof.member q (Table.mem_values.mpr hget)
  exact hpkg.epoch_eq

theorem Inv.packageIn_current (h : Inv node fog) (did : String) :
    packageIn fog did fog.epochs.currentEpochId = none := by
  cases hp : packageIn fog did fog.epochs.currentEpochId with
  | none => rfl
  | some p => exact absurd (h.package_committed hp).2.1 (lt_irrefl _)

/-- The epoch that the record of a device names. -/
def lastEpoch (devices : DeviceStore) (did : String) : Option ℤ :=
  (devices.get? did).bind DeviceRecord.epochId

section records

variable (devices : DeviceStore) (did : String)

theorem lastEpoch_setStatus (status : DeviceStatus) :
    lastEpoch (DeviceStore.setStatus devices did status) = lastEpoch devices := by
  funext j
  rw [lastEpoch, lastEpoch, get?_setStatus]
  split
  case isTrue h => subst h; cases devices.get? j <;> rfl
  case isFalse => rfl

theorem lastEpoch_setMetadata (body : MetadataRequest) :
    lastEpoch (DeviceStore.setMetadata devices did body) = lastEpoch devices := by
  funext j
  rw [lastEpoch, lastEpoch, get?_setMetadata]
  split
  case isTrue h => subst h; cases devices.get? j <;> rfl
  case isFalse => rfl

theorem lastEpoch_setLeaf (leaf : String) :
    lastEpoch (DeviceStore.setLeaf devices did leaf) = lastEpoch devices := by
  funext j
  rw [lastEpoch, lastEpoch, get?_setLeaf]
  split
  case isTrue h => subst h; cases devices.get? j <;> rfl
  case isFalse => rfl

theorem lastEpoch_upsert {devices : DeviceStore} {did : String} (hnew : devices.get? did = none)
    (publicKey : String) (status : DeviceStatus) :
    lastEpoch (DeviceStore.upsert devices (.new did publicKey status)) = lastEpoch devices := by
  funext j
  rw [lastEpoch, lastEpoch, get?_upsert]
  split
  case isTrue h => rw [h, hnew]; rfl
  case isFalse => rfl

end records

/-- What the manager and the records remember of the last epochs agrees with the
packages of all epochs. -/
structure IndexOk (fog : Fog) : Prop where
  latest : ∀ did q, fog.epochs.latestPackage.get? did = some q → Newest fog did q
  unissued : ∀ did, fog.epochs.latestPackage.get? did = none →
    ∀ epochId, packageIn fog did epochId = none
  recorded : ∀ did, lastEpoch fog.devices did =
    (fog.epochs.latestPackage.get? did).map ProofPackage.epochId
  active : ∀ did, did ∈ fog.epochs.activeDids ↔
    (packageIn fog did (fog.epochs.currentEpochId - 1)).isSome

theorem IndexOk.latest_iff (h : IndexOk fog) :
    fog.epochs.latestPackage.get? did = some q ↔ Newest fog did q := by
  refine ⟨h.latest did q, fun hn ↦ ?_⟩
  cases hp : fog.epochs.latestPackage.get? did with
  | none =>
    have hheld := hn.held
    rw [h.unissued did hp] at hheld
    cases hheld
  | some p => rw [(h.latest did p hp).unique hn]

/-- A step that closes no epoch and takes none off a record. -/
theorem IndexOk.keep (h : IndexOk fog) (hlatest : fog'.epochs.latestPackage =
    fog.epochs.latestPackage) (hpackages : fog'.epochs.packages = fog.epochs.packages)
    (hactive : fog'.epochs.activeDids = fog.epochs.activeDids)
    (hcurrent : fog'.epochs.currentEpochId = fog.epochs.currentEpochId)
    (hdevices : lastEpoch fog'.devices = lastEpoch fog.devices) : IndexOk fog' := by
  have hsame : packageIn fog' = packageIn fog := by
    funext did epochId
    simp only [packageIn, EpochManager.getPackage, hpackages]
  constructor
  · intro did q hq
    rw [hlatest] at hq
    exact (h.latest did q hq).congr (congrFun hsame did)
  · intro did
    rw [hlatest, hsame]
    exact h.unissued did
  · intro did
    rw [hdevices, hlatest]
    exact h.recorded did
  · intro did
    rw [hactive, hsame, hcurrent]
    exact h.active did

section closed

variable {excludeDids : List String} {members : Batch} {new carried : ℕ} {tree : MerkleTree}
  {pkgs : PackageSet}

theorem newest_included (h : Inv node fog)
    (hp : PackagesOf node fog.epochs.currentEpochId members tree pkgs)
    (hq : pkgs.get? did = some q) : Newest (finalized node env fog tree pkgs) did q := by
  have hepoch : q.epochId = fog.epochs.currentEpochId := by
    obtain rfl : q.did = did := Table.key_of_get? hq
    obtain ⟨e, -, hof⟩ := hp.sound q (Table.mem_values.mpr hq)
    exact hof.epoch_eq
  refine ⟨?_, fun epochId p hp ↦ ?_⟩
  · rw [packageIn_finalized, if_pos hepoch]
    exact hq
  · rw [packageIn_finalized] at hp
    split at hp
    case isTrue hcurrent => exact le_of_eq (hcurrent.trans hepoch.symm)
    case isFalse =>
      rw [hepoch]
      exact le_of_lt (h.package_committed hp).2.1

theorem packages_left_out (h : Inv node fog) (hnone : pkgs.get? did = none) :
    packageIn (finalized node env fog tree pkgs) did = packageIn fog did := by
  funext epochId
  rw [packageIn_finalized]
  split
  case isTrue hcurrent => rw [hcurrent, h.packageIn_current, hnone]
  case isFalse => rfl

theorem IndexOk.finalized (hinv : Inv node fog) (h : IndexOk fog)
    (hm : collectMembers node fog (blockedDids fog.devices excludeDids) =
      .ok (members, new, carried))
    (hp : PackagesOf node fog.epochs.currentEpochId members tree pkgs) :
    IndexOk (Proofs.finalized node env fog tree pkgs) := by
  have hnd := Table.nodup_keys pkgs
  have hlatest : ∀ did, (Proofs.finalized node env fog tree pkgs).epochs.latestPackage.get? did =
      (pkgs.get? did).or (fog.epochs.latestPackage.get? did) := by
    intro did
    cases hq : pkgs.get? did with
    | some q =>
      obtain rfl : q.did = did := Table.key_of_get? hq
      exact Table.get?_addAll_mem hnd _ (Table.mem_values.mpr hq)
    | none =>
      exact Table.get?_addAll_of_not_mem fun hmem ↦ by
        obtain ⟨q, hq', hdid⟩ := List.mem_map.mp hmem
        rw [Table.mem_values, hdid, hq] at hq'
        cases hq'
  constructor
  · intro did q hlast
    rw [hlatest] at hlast
    cases hq : pkgs.get? did with
    | some p =>
      rw [hq, Option.some_or] at hlast
      cases hlast
      exact newest_included hinv hp hq
    | none =>
      rw [hq, Option.none_or] at hlast
      exact (h.latest did q hlast).congr (packages_left_out hinv hq)
  · intro did hnone
    rw [hlatest, Option.or_eq_none_iff] at hnone
    rw [packages_left_out hinv hnone.1]
    exact h.unissued did hnone.2
  · intro did
    rw [hlatest]
    rcases commitDevices_cases hnd fog.devices did with ⟨hget, hnot⟩ | ⟨p, hp', rfl, hget⟩
    · have hnone : pkgs.get? did = none := by
        rw [← Table.keys_eq_map, Table.mem_keys, not_exists] at hnot
        exact Option.eq_none_iff_forall_ne_some.mpr hnot
      rw [hnone, Option.none_or, ← h.recorded, lastEpoch, lastEpoch]
      exact congrArg (Option.bind · DeviceRecord.epochId) hget
    · obtain ⟨rec, hrec, -⟩ := hinv.packaged_records hm hp p hp'
      obtain ⟨e, -, hof⟩ := hp.sound p hp'
      rw [Table.mem_values.mp hp', Option.some_or, Option.map_some, hof.epoch_eq, lastEpoch]
      rw [hrec] at hget
      exact congrArg (Option.bind · DeviceRecord.epochId) hget
  · intro did
    have hcurrent : (Proofs.finalized node env fog tree pkgs).epochs.currentEpochId - 1 =
        fog.epochs.currentEpochId := by
      simp [Proofs.finalized, nextManager]
    rw [hcurrent, packageIn_finalized, if_pos rfl, Option.isSome_iff_exists]
    exact Table.mem_keys

end closed

theorem IndexOk.effect (hinv : Inv node fog) (h : IndexOk fog) {request : Request}
    {r : Response} (he : Effect node env fog request r fog') : IndexOk fog' := by
  cases he with
  | popPassed hs hstate hid hsdid =>
    obtain ⟨key, pk, hb⟩ := hinv.bound hs (by simp [hstate]) hsdid
    have hnew := enrolled_eq_none.mp (hb.submitted hstate)
    exact h.keep rfl rfl rfl rfl (lastEpoch_upsert hnew _ _)
  | unqueued => exact h.keep rfl rfl rfl rfl (lastEpoch_setMetadata _ _ _)
  | queued =>
    exact h.keep rfl rfl rfl rfl ((lastEpoch_setLeaf _ _ _).trans (lastEpoch_setMetadata _ _ _))
  | issued => exact h.keep rfl rfl rfl rfl (lastEpoch_setStatus _ _ _)
  | deviceRevoked => exact h.keep rfl rfl rfl rfl (lastEpoch_setStatus _ _ _)
  | finalizing hf =>
    cases hf with
    | closed hm he ht hr hd hp => exact h.finalized hinv hm hp
    | _ => exact h.keep rfl rfl rfl rfl rfl
  | _ => exact h.keep rfl rfl rfl rfl rfl

theorem indexOk_create (file : Option (List Block)) (signed : List Bytes) :
    IndexOk (Fog.create file signed) where
  latest did q hq := by simp [Fog.create, EpochManager.init] at hq
  unissued did _ epochId := by
    simp [Fog.create, EpochManager.init, packageIn, EpochManager.getPackage]
  recorded did := by simp [lastEpoch, Fog.create, EpochManager.init]
  active did := by
    simp [Fog.create, EpochManager.init, packageIn, EpochManager.getPackage]

theorem index_after (node : Node P) (actions : List Action) :
    IndexOk (afterActions node Fog.init actions) :=
  afterActions_invariant (indexOk_create none [])
    (fun fog e hinv h ↦ h.effect hinv (step_effect node fog e))
    (fun fog _ _ ↦ indexOk_create fog.ledger.file fog.signed) actions

/-- The record of the device says REGISTERED. -/
def IsRegistered (fog : Fog) (did : String) : Prop :=
  ∃ rec, fog.devices.get? did = some rec ∧ rec.status = .registered

theorem getProof_ok_iff {epochId : Option ℤ} {fields : List (String × Json)} :
    getProof did epochId fog = .ok fields ↔
      ∃ rec, fog.devices.get? did = some rec ∧ rec.status ≠ .revoked ∧
        ∃ q, fog.epochs.getPackage did epochId = some q ∧ fields = q.modelDump := by
  unfold getProof
  rw [DeviceStore.get]
  cases hrec : fog.devices.get? did with
  | none => simp [Response.error]
  | some rec =>
    by_cases hstatus : rec.status = .revoked
    · simp [hstatus, Response.error]
    · cases hq : fog.epochs.getPackage did epochId with
      | none => simp [hstatus, Response.error]
      | some q =>
        have hsame : q.modelDump = fields ↔ fields = q.modelDump := eq_comm
        simpa [hstatus] using hsame

/-- A device that is not revoked has packages exactly while it is registered. -/
theorem Inv.registered_of_package (h : Inv node fog) {epochId : ℤ}
    (hp : packageIn fog did epochId = some q) {rec : DeviceRecord}
    (hrec : fog.devices.get? did = some rec) (hstatus : rec.status ≠ .revoked) :
    rec.status = .registered := by
  obtain ⟨hdid, -, rec', hrec', -, -, hrank⟩ := h.package_committed hp
  rw [hdid, hrec] at hrec'
  cases hrec'
  cases hs : rec.status with
  | registered => rfl
  | revoked => exact absurd hs hstatus
  | _ => simp [hs, rank] at hrank

theorem Inv.served_iff (h : Inv node fog) {epochId : Option ℤ}
    (hpackages : ∀ q, fog.epochs.getPackage did epochId = some q →
      ∃ e, packageIn fog did e = some q) {fields : List (String × Json)} :
    getProof did epochId fog = .ok fields ↔ IsRegistered fog did ∧
      ∃ q, fog.epochs.getPackage did epochId = some q ∧ fields = q.modelDump := by
  rw [getProof_ok_iff]
  constructor
  · rintro ⟨rec, hrec, hstatus, q, hq, hfields⟩
    obtain ⟨e, hp⟩ := hpackages q hq
    exact ⟨⟨rec, hrec, h.registered_of_package hp hrec hstatus⟩, q, hq, hfields⟩
  · rintro ⟨⟨rec, hrec, hstatus⟩, q, hq, hfields⟩
    exact ⟨rec, hrec, by simp [hstatus], q, hq, hfields⟩

/-- The root of a package that is held is in a block of the ledger. -/
theorem LedgerOk.find_block {ledger : Ledger} {current epochId : ℤ} {root : String}
    (h : LedgerOk ledger current) (hroot : ledger.getRoot epochId = some root) :
    ∃ block, ledger.blocks.find? (fun b ↦ decide (b.epochId = epochId)) = some block ∧
      block.root = root := by
  rw [h.cache, anchors, ← find_root] at hroot
  exact Option.map_eq_some_iff.mp hroot

/-- What the endpoints tell about the proofs of a device: `/proof` serves it while it is
registered, from its newest epoch or the one asked for, what is served is accepted against
the root that `/registry/root` answers, and `/revocation/status` names that epoch. -/
structure ServesProofs (node : Node P) (fog : Fog) (did : String) : Prop where
  latest : ∀ fields, getProof did none fog = .ok fields ↔
    IsRegistered fog did ∧ ∃ q, Newest fog did q ∧ fields = q.modelDump
  served : (∃ fields, getProof did none fog = .ok fields) ↔ IsRegistered fog did
  ofEpoch : ∀ epochId fields, getProof did (some epochId) fog = .ok fields ↔
    IsRegistered fog did ∧ ∃ q, packageIn fog did epochId = some q ∧ fields = q.modelDump
  verifies : ∀ epochId fields, getProof did epochId fog = .ok fields →
    ∃ (q : ProofPackage) (block : Block), ProofPackage.parse P fields = some q ∧ q.did = did ∧
      (∀ e, epochId = some e → q.epochId = e) ∧
      Accepted P q (fog.ledger.getRoot q.epochId) (publicKeyBytes P node.signingKey) ∧
      block.root = q.root ∧
      registryRoot q.epochId fog = .ok [("epoch_id", .int q.epochId), ("root", .str q.root),
        ("block", .obj block.modelDump)]
  status : ∀ fields, revocationStatus did fog = .ok fields →
    (∀ e, (Response.ok fields).integer "last_epoch" = some e ↔
      ∃ q, Newest fog did q ∧ q.epochId = e) ∧
    ((Response.ok fields).field "in_latest_active_set" = some (.bool true) ↔
      (packageIn fog did (fog.epochs.currentEpochId - 1)).isSome)

theorem IndexOk.package_held (h : IndexOk fog) (hinv : Inv node fog) {epochId : Option ℤ}
    (hq : fog.epochs.getPackage did epochId = some q) :
    packageIn fog did q.epochId = some q ∧ ∀ e, epochId = some e → q.epochId = e := by
  cases epochId with
  | none => exact ⟨(h.latest did q hq).held, fun e he ↦ by cases he⟩
  | some e =>
    have hepoch := hinv.package_epoch hq
    rw [hepoch]
    exact ⟨hq, fun e' he ↦ Option.some.inj he⟩

theorem status_fields {fields : List (String × Json)} (h : revocationStatus did fog = .ok fields) :
    (Response.ok fields).integer "last_epoch" = lastEpoch fog.devices did ∧
      (Response.ok fields).field "in_latest_active_set" =
        some (.bool (fog.epochs.activeDids.contains did)) := by
  rw [revocationStatus, DeviceStore.get] at h
  cases hrec : fog.devices.get? did with
  | none => simp [hrec, Response.error] at h
  | some rec =>
    rw [hrec] at h
    cases h
    cases hepoch : rec.epochId <;>
      simp [Response.integer, Response.field, Json.field, lastEpoch, hrec, hepoch]

/-- After every run, restarts included, the endpoints agree about the proofs of a device. -/
theorem proofs_served (hkey : SignsCorrectly P node.signingKey) (actions : List Action)
    (did : String) : ServesProofs node (afterActions node Fog.init actions) did := by
  have hinv : Inv node (afterActions node Fog.init actions) := inv_afterActions actions
  have hindex := index_after node actions
  have hentries := entries_after node actions
  have hissued : ∀ q, Held (afterActions node Fog.init actions) q → Issued node actions q :=
    fun q hq ↦ ⟨actions, List.prefix_refl _, hq⟩
  have hof : ∀ q, Issued node actions q → Accepted P q
      ((afterActions node Fog.init actions).ledger.getRoot q.epochId)
      (publicKeyBytes P node.signingKey) ∧
      (afterActions node Fog.init actions).ledger.getRoot q.epochId = some q.root := by
    intro q hq
    obtain ⟨-, pkgs, tree, -, -, hmem, hof, hroot⟩ := issued_epoch hq
    rw [hroot]
    exact ⟨hof.accepts hmem ⟨⟨rfl, rfl, rfl, rfl, rfl⟩, rfl, rfl⟩ (hof.signed hmem hkey), rfl⟩
  generalize afterActions node Fog.init actions = fog at *
  have hpackages : ∀ epochId q, fog.epochs.getPackage did epochId = some q →
      ∃ e, packageIn fog did e = some q :=
    fun epochId q hq ↦ ⟨_, (hindex.package_held hinv hq).1⟩
  have hlatest : ∀ fields, getProof did none fog = .ok fields ↔
      IsRegistered fog did ∧ ∃ q, Newest fog did q ∧ fields = q.modelDump := by
    intro fields
    simp only [hinv.served_iff (hpackages none), EpochManager.getPackage, hindex.latest_iff]
  refine ⟨hlatest, ?_, fun epochId fields ↦ hinv.served_iff (hpackages (some epochId)), ?_, ?_⟩
  · constructor
    · rintro ⟨fields, hserved⟩
      exact ((hlatest fields).mp hserved).1
    · intro hreg
      obtain ⟨rec, hrec, hstatus⟩ := hreg
      obtain ⟨epochId, p, hp⟩ := hentries.registered did rec hrec hstatus
      cases hq : fog.epochs.latestPackage.get? did with
      | none =>
        rw [hindex.unissued did hq] at hp
        cases hp
      | some q =>
        exact ⟨_, (hlatest _).mpr ⟨⟨rec, hrec, hstatus⟩, q, hindex.latest did q hq, rfl⟩⟩
  · intro epochId fields hserved
    obtain ⟨-, q, hq, rfl⟩ := (hinv.served_iff (hpackages epochId)).mp hserved
    obtain ⟨hheld, hepoch⟩ := hindex.package_held hinv hq
    obtain ⟨pkgs, hpkgs, hget⟩ := packageIn_eq_some.mp hheld
    have hdid : q.did = did := Table.key_of_get? hget
    have hmem : q ∈ pkgs.values := Table.mem_values.mpr (hdid ▸ hget)
    obtain ⟨haccepted, hroot⟩ := hof q (hissued q ⟨pkgs, hpkgs, hmem⟩)
    obtain ⟨block, hfind, hblock⟩ := hinv.ledger.find_block hroot
    refine ⟨q, block, parse_modelDump q, hdid, hepoch, haccepted, hblock, ?_⟩
    rw [registryRoot, hfind, ← hblock]
  · intro fields hfields
    obtain ⟨hepoch, hactive⟩ := status_fields hfields
    rw [hepoch, hactive, hindex.recorded]
    constructor
    · intro e
      simp only [Option.map_eq_some_iff, hindex.latest_iff]
    · rw [← hindex.active]
      simp

theorem proofs_served_member :
    ServesProofs plainNode (afterActions plainNode Fog.init (memberRun.map .request))
      (plainDid 7) :=
  proofs_served (plain_signsCorrectly (plainKey 1)) (memberRun.map .request) (plainDid 7)

end FogNode.Proofs
