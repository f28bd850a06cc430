import FogNode.Proofs.Sessions

namespace FogNode.Proofs

open FogNode.Library FogNode.Source

variable {P : Platform} {node : Node P}

/-- A record whose DID is the fingerprint of its key, whose leaf is the leaf of that
identity, and which has a leaf once a token was issued or an epoch finalized for it. -/
structure RecordOk (P : Platform) (rec : DeviceRecord) : Prop where
  identity : ∃ pk, fromhex rec.publicKey = .ok pk ∧ pk.length = COMPRESSED_PK_LEN ∧
    rec.did = deriveDid P pk
  leaf : ∀ text, rec.leaf = some text → ∃ pk leaf, fromhex rec.publicKey = .ok pk ∧
    leafHash P rec.did pk = .ok leaf ∧ text = toHex leaf
  committed : rec.status = .tokenized ∨ rec.status = .registered → rec.leaf ≠ none

abbrev RecordsOk (P : Platform) (devices : DeviceStore) : Prop :=
  Everywhere (RecordOk P) devices.get?

/-- An entry of the batch agrees with a record that is not yet registered. -/
def Queued (devices : DeviceStore) (e : PendingEntry) : Prop :=
  ∃ rec, devices.get? e.did = some rec ∧ rec.leaf = some (toHex e.leaf) ∧
    fromhex e.publicKey = fromhex rec.publicKey ∧ rec.status ≠ .registered

abbrev QueueOk (pending : Batch) (devices : DeviceStore) : Prop :=
  Everywhere (Queued devices) pending.get?

/-- Tokens belong to queued devices, and those of revoked devices are revoked. -/
def TokensOk (state : TokenState) (devices : DeviceStore) : Prop :=
  ∀ tokenId did, state.issued.get? tokenId = some did →
    ∃ rec, devices.get? did = some rec ∧ rec.leaf ≠ none ∧
      (rec.status = .revoked → tokenId ∈ state.revokedTokenIds)

/-- An identity and its leaf. -/
def EntryOk (P : Platform) (e : PendingEntry) : Prop :=
  ∃ pk, fromhex e.publicKey = .ok pk ∧ leafHash P e.did pk = .ok e.leaf

/-- A finalized epoch: one package for each leaf of one tree. -/
structure EpochOf (node : Node P) (epochId : ℤ) (pkgs : PackageSet) (tree : MerkleTree) :
    Prop where
  tree_eq : MerkleTree.init (nodeHash P) (pkgs.values.map leafOf) false = .ok tree
  leaves_eq : tree.leaves = pkgs.values.map leafOf
  member : ∀ pkg ∈ pkgs.values, ∃ e, EntryOk P e ∧ PackageOf node epochId tree e pkg

/-- The record of a device that was a member of an epoch. -/
def Committed (devices : DeviceStore) (pkg : ProofPackage) : Prop :=
  ∃ rec, devices.get? pkg.did = some rec ∧ rec.leaf = some pkg.leaf ∧
    fromhex pkg.publicKey = fromhex rec.publicKey ∧ rank .registered ≤ rank rec.status

structure EpochsOk (node : Node P) (epochs : EpochManager) (ledger : Ledger)
    (devices : DeviceStore) : Prop where
  finalized : ∀ epochId pkgs, epochs.packages.get? epochId = some pkgs →
    epochId < epochs.currentEpochId ∧ ∃ tree, EpochOf node epochId pkgs tree ∧
      ledger.getRoot epochId = some tree.rootHex
  committed : ∀ epochId pkgs, epochs.packages.get? epochId = some pkgs →
    ∀ pkg ∈ pkgs.values, Committed devices pkg

def anchors (blocks : List Block) : List (ℤ × String) := blocks.map fun b ↦ (b.epochId, b.root)

/-- The ledger in memory is the one in the file, except for at most one block of the
current epoch that could not be saved. -/
structure LedgerOk (ledger : Ledger) (current : ℤ) : Prop where
  sorted : (ledger.blocks.map Block.epochId).Pairwise (· < ·)
  cache : ∀ epochId, ledger.getRoot epochId = Dict.lookup epochId (anchors ledger.blocks)
  inFile : ∃ tail, ledger.blocks = ledger.file.getD [] ++ tail ∧
    (∀ b ∈ ledger.file.getD [], b.epochId < current) ∧ (∀ b ∈ tail, b.epochId = current)

structure Inv (node : Node P) (fog : Fog) : Prop where
  sessions : SessionsOk P fog.sessions (enrolled fog.devices)
  records : RecordsOk P fog.devices
  queue : QueueOk fog.epochs.pending fog.devices
  tokens : TokensOk fog.tokenState fog.devices
  epochs : EpochsOk node fog.epochs fog.ledger fog.devices
  ledger : LedgerOk fog.ledger fog.epochs.currentEpochId

section

variable {devices devices' : DeviceStore} {did : String}

abbrev Advance (devices devices' : DeviceStore) : Prop :=
  Grows Advances devices.get? devices'.get?

/-- No device newly has the status. -/
def NoneNew (status : DeviceStatus) (devices devices' : DeviceStore) : Prop :=
  ∀ did rec', devices'.get? did = some rec' → rec'.status = status →
    ∃ rec, devices.get? did = some rec ∧ rec.status = status

theorem NoneNew.insert {status : DeviceStatus} {rec : DeviceRecord}
    (hg : ∀ j, devices'.get? j = if j = did then some rec else devices.get? j)
    (hrec : rec.status ≠ status) :
    NoneNew status devices devices' := by
  intro j rec' h hs
  rw [hg] at h
  split at h
  case isTrue => cases h; exact absurd hs hrec
  case isFalse => exact ⟨rec', h, hs⟩

theorem NoneNew.modify {status : DeviceStatus} {t : DeviceRecord → DeviceRecord}
    (hg : ∀ j, devices'.get? j = if j = did then (devices.get? did).map t else devices.get? j)
    (ht : ∀ rec, (t rec).status = status → rec.status = status) :
    NoneNew status devices devices' := by
  intro j rec' h hs
  rw [hg] at h
  split at h
  case isTrue hj =>
    obtain ⟨rec, hrec, rfl⟩ := Option.map_eq_some_iff.mp h
    exact ⟨rec, hj ▸ hrec, ht rec hs⟩
  case isFalse => exact ⟨rec', h, hs⟩

theorem QueueOk.advance {pending : Batch} (h : QueueOk pending devices)
    (hadv : Advance devices devices') (hreg : NoneNew .registered devices devices') :
    QueueOk pending devices' := by
  intro did e he
  obtain ⟨rec, hrec, hleaf, hkey, hstatus⟩ := h did e he
  obtain ⟨rec', hrec', ha⟩ := hadv _ rec hrec
  refine ⟨rec', hrec', ha.leaf_eq _ hleaf, by rw [hkey, ha.key_eq], fun hs ↦ ?_⟩
  obtain ⟨r, hr, hrs⟩ := hreg _ rec' hrec' hs
  rw [hrec] at hr
  cases hr
  exact hstatus hrs

theorem TokensOk.advance {state : TokenState} (h : TokensOk state devices)
    (hadv : Advance devices devices') (hrev : NoneNew .revoked devices devices') :
    TokensOk state devices' := by
  intro tokenId did hissued
  obtain ⟨rec, hrec, hleaf, hrevoked⟩ := h tokenId did hissued
  obtain ⟨rec', hrec', ha⟩ := hadv _ rec hrec
  obtain ⟨leaf, hl⟩ := Option.ne_none_iff_exists'.mp hleaf
  refine ⟨rec', hrec', by simp [ha.leaf_eq leaf hl], fun hs ↦ ?_⟩
  obtain ⟨r, hr, hrs⟩ := hrev _ rec' hrec' hs
  rw [hrec] at hr
  cases hr
  exact hrevoked hrs

theorem EpochsOk.advance {epochs : EpochManager} {ledger : Ledger}
    (h : EpochsOk node epochs ledger devices) (hadv : Advance devices devices') :
    EpochsOk node epochs ledger devices' where
  finalized := h.finalized
  committed epochId pkgs hp pkg hpkg := by
    obtain ⟨rec, hrec, hleaf, hkey, hstatus⟩ := h.committed epochId pkgs hp pkg hpkg
    obtain ⟨rec', hrec', ha⟩ := hadv _ rec hrec
    exact ⟨rec', hrec', ha.leaf_eq _ hleaf, by rw [hkey, ha.key_eq],
      hstatus.trans ha.status_le⟩

theorem RecordOk.congr {rec rec' : DeviceRecord} (h : RecordOk P rec) (hdid : rec'.did = rec.did)
    (hkey : rec'.publicKey = rec.publicKey) (hleaf : rec'.leaf = rec.leaf)
    (hstatus : rec'.status = .tokenized ∨ rec'.status = .registered → rec.leaf ≠ none) :
    RecordOk P rec' where
  identity := by rw [hkey, hdid]; exact h.identity
  leaf := by rw [hleaf, hkey, hdid]; exact h.leaf
  committed := by rw [hleaf]; exact hstatus

section upsert

variable {key : String} (hnew : devices.get? did = none)

include hnew in
theorem upsert_advance :
    Advance devices (DeviceStore.upsert devices (.new did key .pending)) :=
  .insert Advances.refl (get?_upsert devices did key .pending) hnew

theorem upsert_records (h : RecordsOk P devices) {pk : Bytes} (hpk : fromhex key = .ok pk)
    (hlen : pk.length = COMPRESSED_PK_LEN) (hdid : did = deriveDid P pk) :
    RecordsOk P (DeviceStore.upsert devices (.new did key .pending)) := by
  refine h.insert (get?_upsert devices did key .pending) ⟨⟨pk, hpk, hlen, hdid⟩, ?_, ?_⟩
  · intro text ht
    cases ht
  · rintro (hs | hs) <;> cases hs

theorem upsert_noneNew {status : DeviceStatus} (hs : status ≠ .pending) :
    NoneNew status devices (DeviceStore.upsert devices (.new did key .pending)) :=
  .insert (get?_upsert devices did key .pending) hs.symm

end upsert

section setMetadata

variable {body : MetadataRequest}

theorem setMetadata_advance (body : MetadataRequest) {rec : DeviceRecord}
    (hrec : devices.get? did = some rec) (hleaf : rec.leaf = none) :
    Advance devices (DeviceStore.setMetadata devices did body) := by
  refine .modify Advances.refl (get?_setMetadata devices did body) fun r hr ↦ ?_
  rw [hrec] at hr
  cases hr
  exact ⟨rfl, le_refl _, fun _ hl ↦ hl, fun hl ↦ absurd hleaf hl⟩

theorem setMetadata_records (h : RecordsOk P devices) :
    RecordsOk P (DeviceStore.setMetadata devices did body) :=
  h.modify (get?_setMetadata devices did body) fun _ _ hr ↦ hr.congr rfl rfl rfl hr.committed

theorem setMetadata_noneNew {status : DeviceStatus} :
    NoneNew status devices (DeviceStore.setMetadata devices did body) :=
  .modify (get?_setMetadata devices did body) fun _ hs ↦ hs

end setMetadata

section setLeaf

variable {text : String}

theorem setLeaf_advance (text : String) {rec : DeviceRecord} (hrec : devices.get? did = some rec)
    (hleaf : rec.leaf = none) : Advance devices (DeviceStore.setLeaf devices did text) := by
  refine .modify Advances.refl (get?_setLeaf devices did text) fun r hr ↦ ?_
  rw [hrec] at hr
  cases hr
  exact ⟨rfl, le_refl _, fun _ hl ↦ by simp [hleaf] at hl, fun hl ↦ absurd hleaf hl⟩

theorem setLeaf_records (h : RecordsOk P devices) {rec : DeviceRecord} {pk leaf : Bytes}
    (hrec : devices.get? did = some rec) (hpk : fromhex rec.publicKey = .ok pk)
    (hleaf : leafHash P did pk = .ok leaf) :
    RecordsOk P (DeviceStore.setLeaf devices did (toHex leaf)) := by
  refine h.modify (get?_setLeaf devices did (toHex leaf)) fun r hr hok ↦
    ⟨hok.identity, ?_, fun _ ↦ by simp⟩
  rintro text ht
  cases ht
  rw [hrec] at hr
  cases hr
  obtain rfl := Table.key_of_get? hrec
  exact ⟨pk, leaf, hpk, hleaf, rfl⟩

theorem setLeaf_noneNew {status : DeviceStatus} :
    NoneNew status devices (DeviceStore.setLeaf devices did text) :=
  .modify (get?_setLeaf devices did text) fun _ hs ↦ hs

end setLeaf

section setStatus

variable {status : DeviceStatus}

theorem setStatus_advance
    (hrec : ∀ rec, devices.get? did = some rec → rank rec.status ≤ rank status) :
    Advance devices (DeviceStore.setStatus devices did status) :=
  .modify Advances.refl (get?_setStatus devices did status) fun r hr ↦
    ⟨rfl, hrec r hr, fun _ hl ↦ hl, fun _ ↦ ⟨rfl, rfl, rfl, rfl, rfl⟩⟩

theorem setStatus_records (h : RecordsOk P devices)
    (hleaf : status = .revoked ∨ ∀ rec, devices.get? did = some rec → rec.leaf ≠ none) :
    RecordsOk P (DeviceStore.setStatus devices did status) := by
  refine h.modify (get?_setStatus devices did status) fun r hr hok ↦
    hok.congr rfl rfl rfl fun hs ↦ ?_
  rcases hleaf with rfl | hleaf
  · simp at hs
  · exact hleaf r hr

theorem setStatus_noneNew {status' : DeviceStatus} (hs : status' ≠ status) :
    NoneNew status' devices (DeviceStore.setStatus devices did status) :=
  .modify (get?_setStatus devices did status) fun _ h ↦ absurd h.symm hs

end setStatus

section commitDevices

variable {epochId : ℤ} {pkgs : List ProofPackage}
  (hnd : (pkgs.map ProofPackage.did).Nodup)
  (hmem : ∀ pkg ∈ pkgs, ∃ rec, devices.get? pkg.did = some rec ∧ rec.leaf = some pkg.leaf ∧
    rec.status ≠ .revoked)

theorem commitDevices_cases (hnd : (pkgs.map ProofPackage.did).Nodup) (devices : DeviceStore)
    (did : String) :
    ((commitDevices epochId pkgs devices).get? did = devices.get? did ∧
      did ∉ pkgs.map ProofPackage.did) ∨
    ∃ pkg ∈ pkgs, pkg.did = did ∧
      (commitDevices epochId pkgs devices).get? did = (devices.get? did).map fun r ↦
        { r with status := .registered, leaf := some pkg.leaf, epochId := some epochId } := by
  by_cases h : did ∈ pkgs.map ProofPackage.did
  · obtain ⟨pkg, hpkg, rfl⟩ := List.mem_map.mp h
    exact .inr ⟨pkg, hpkg, rfl, get?_commitDevices hnd epochId devices hpkg⟩
  · exact .inl ⟨get?_commitDevices_of_not_mem devices h, h⟩

include hnd hmem

theorem commitDevices_advance (epochId : ℤ) :
    Advance devices (commitDevices epochId pkgs devices) := by
  intro did rec hrec
  rcases commitDevices_cases hnd devices did with ⟨h, -⟩ | ⟨pkg, hpkg, rfl, h⟩
  · exact ⟨rec, h.trans hrec, Advances.refl rec⟩
  · obtain ⟨r, hr, hleaf, hstatus⟩ := hmem pkg hpkg
    rw [hrec] at hr
    cases hr
    rw [hrec] at h
    refine ⟨_, h, ⟨rfl, ?_, fun l hl ↦ ?_, fun _ ↦ ⟨rfl, rfl, rfl, rfl, rfl⟩⟩⟩
    · cases hs : rec.status <;> simp [rank, hs] at hstatus ⊢
    · exact hleaf.symm.trans hl

theorem commitDevices_enrolled :
    enrolled (commitDevices epochId pkgs devices) = enrolled devices := by
  funext did
  rcases commitDevices_cases hnd devices did with ⟨h, -⟩ | ⟨pkg, hpkg, rfl, h⟩
  · rw [enrolled, h, enrolled]
  · obtain ⟨r, hr, hleaf, -⟩ := hmem pkg hpkg
    rw [enrolled, h, enrolled, hr]
    simp [hleaf]

theorem commitDevices_records (hok : RecordsOk P devices) :
    RecordsOk P (commitDevices epochId pkgs devices) := by
  intro did rec hrec
  rcases commitDevices_cases hnd devices did with ⟨h, -⟩ | ⟨pkg, hpkg, rfl, h⟩
  · exact hok did rec (h ▸ hrec)
  · obtain ⟨r, hr, hleaf, -⟩ := hmem pkg hpkg
    rw [h, hr] at hrec
    cases hrec
    exact (hok _ r hr).congr rfl rfl hleaf.symm fun _ ↦ by simp [hleaf]

omit hmem in
theorem commitDevices_noneNew {status : DeviceStatus} (hs : status ≠ .registered) :
    NoneNew status devices (commitDevices epochId pkgs devices) := by
  intro did rec' hrec' hs'
  rcases commitDevices_cases hnd devices did with ⟨h, -⟩ | ⟨pkg, hpkg, rfl, h⟩
  · exact ⟨rec', h ▸ hrec', hs'⟩
  · rw [h] at hrec'
    obtain ⟨r, -, rfl⟩ := Option.map_eq_some_iff.mp hrec'
    exact absurd hs'.symm hs

end commitDevices

end

end FogNode.Proofs
