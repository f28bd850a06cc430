import FogNode.Library.Growth
import FogNode.Source.EpochManager

namespace FogNode.Proofs

open FogNode.Library FogNode.Source

/-- The key and the leaf on record for a device. -/
abbrev Enrolment := String × Option String

def enrolled (devices : DeviceStore) (did : String) : Option Enrolment :=
  (devices.get? did).map fun r ↦ (r.publicKey, r.leaf)

def rank : DeviceStatus → ℕ
  | .pending => 0
  | .tokenized => 1
  | .registered => 2
  | .revoked => 3

/-- How the record of a device may change: its key stays, its status moves forward
only, and once its leaf is queued its leaf and its metadata stay too. -/
structure Advances (r r' : DeviceRecord) : Prop where
  key_eq : r'.publicKey = r.publicKey
  status_le : rank r.status ≤ rank r'.status
  leaf_eq : ∀ leaf, r.leaf = some leaf → r'.leaf = some leaf
  profile_eq : r.leaf ≠ none → r'.deviceName = r.deviceName ∧ r'.deviceType = r.deviceType ∧
    r'.zone = r.zone ∧ r'.vendor = r.vendor ∧ r'.role = r.role

theorem Advances.refl (r : DeviceRecord) : Advances r r :=
  ⟨rfl, le_refl _, fun _ h ↦ h, fun _ ↦ ⟨rfl, rfl, rfl, rfl, rfl⟩⟩

theorem Advances.trans (r s t : DeviceRecord) (h : Advances r s) (h' : Advances s t) :
    Advances r t where
  key_eq := h'.key_eq.trans h.key_eq
  status_le := h.status_le.trans h'.status_le
  leaf_eq leaf hl := h'.leaf_eq leaf (h.leaf_eq leaf hl)
  profile_eq hl := by
    obtain ⟨leaf, hleaf⟩ := Option.ne_none_iff_exists'.mp hl
    obtain ⟨a, b, c, d, e⟩ := h.profile_eq hl
    obtain ⟨a', b', c', d', e'⟩ := h'.profile_eq (by simp [h.leaf_eq leaf hleaf])
    exact ⟨a'.trans a, b'.trans b, c'.trans c, d'.trans d, e'.trans e⟩

/-- Revocation is the end of the life of a record. -/
theorem Advances.revoked {r r' : DeviceRecord} (h : Advances r r') (hr : r.status = .revoked) :
    r'.status = .revoked := by
  have hle := h.status_le
  rw [hr] at hle
  cases hs : r'.status <;> simp [hs, rank] at hle ⊢

def Revoked (fog : Fog) (did : String) : Prop :=
  ∃ rec, fog.devices.get? did = some rec ∧ rec.status = .revoked

instance (fog : Fog) (did : String) : Decidable (Revoked fog did) :=
  decidable_of_iff ((fog.devices.get? did).any fun rec ↦ decide (rec.status = .revoked))
    (by simp [Revoked, Option.any_eq_true])

section

variable (devices : DeviceStore) (did : String)

theorem get?_upsert (publicKey : String) (status : DeviceStatus) (j : String) :
    (DeviceStore.upsert devices (.new did publicKey status)).get? j =
      if j = did then some (.new did publicKey status) else devices.get? j :=
  Table.get?_add _ _ _

theorem get?_setStatus (status : DeviceStatus) (j : String) :
    (DeviceStore.setStatus devices did status).get? j =
      if j = did then (devices.get? did).map (fun r ↦ { r with status := status })
      else devices.get? j := Table.get?_modify _ _ _ _ _

theorem get?_setMetadata (body : MetadataRequest) (j : String) :
    (DeviceStore.setMetadata devices did body).get? j =
      if j = did then (devices.get? did).map (fun r ↦
        { r with
          deviceName := some body.deviceName
          deviceType := some body.deviceType
          zone := some body.zone
          vendor := some body.vendor
          role := some body.role })
      else devices.get? j := Table.get?_modify _ _ _ _ _

theorem get?_setLeaf (leaf : String) (j : String) :
    (DeviceStore.setLeaf devices did leaf).get? j =
      if j = did then (devices.get? did).map (fun r ↦ { r with leaf := some leaf })
      else devices.get? j := Table.get?_modify _ _ _ _ _

theorem get?_commit (leaf : String) (epochId : ℤ) (j : String) :
    (DeviceStore.commit devices did leaf epochId).get? j =
      if j = did then (devices.get? did).map (fun r ↦
        { r with status := .registered, leaf := some leaf, epochId := some epochId })
      else devices.get? j := Table.get?_modify _ _ _ _ _

@[simp] theorem enrolled_setStatus (status : DeviceStatus) :
    enrolled (DeviceStore.setStatus devices did status) = enrolled devices := by
  funext j
  rw [enrolled, enrolled, get?_setStatus]
  split
  case isTrue h => subst h; cases devices.get? j <;> rfl
  case isFalse => rfl

@[simp] theorem enrolled_setMetadata (body : MetadataRequest) :
    enrolled (DeviceStore.setMetadata devices did body) = enrolled devices := by
  funext j
  rw [enrolled, enrolled, get?_setMetadata]
  split
  case isTrue h => subst h; cases devices.get? j <;> rfl
  case isFalse => rfl

theorem enrolled_setLeaf (leaf j : String) :
    enrolled (DeviceStore.setLeaf devices did leaf) j =
      if j = did then (enrolled devices did).map (fun e ↦ (e.1, some leaf))
      else enrolled devices j := by
  rw [enrolled, get?_setLeaf]
  split
  case isTrue h => subst h; simp [enrolled, Function.comp_def]
  case isFalse => rfl

theorem enrolled_upsert (publicKey : String) (j : String) :
    enrolled (DeviceStore.upsert devices (.new did publicKey .pending)) j =
      if j = did then some (publicKey, none) else enrolled devices j := by
  rw [enrolled, get?_upsert]
  split <;> rfl

end

theorem enrolled_eq_none {devices : DeviceStore} {did : String} :
    enrolled devices did = none ↔ devices.get? did = none := by simp [enrolled]

theorem enrolled_of_get? {devices : DeviceStore} {did : String} {rec : DeviceRecord}
    (h : devices.get? did = some rec) : enrolled devices did = some (rec.publicKey, rec.leaf) := by
  simp [enrolled, h]

theorem exists_of_enrolled {devices : DeviceStore} {did : String} {e : Enrolment}
    (h : enrolled devices did = some e) :
    ∃ rec, devices.get? did = some rec ∧ (rec.publicKey, rec.leaf) = e := by
  simpa [enrolled] using h

theorem get?_commitDevices_of_not_mem {epochId : ℤ} {pkgs : List ProofPackage}
    (devices : DeviceStore) {did : String} (h : did ∉ pkgs.map ProofPackage.did) :
    (commitDevices epochId pkgs devices).get? did = devices.get? did := by
  induction pkgs generalizing devices with
  | nil => rfl
  | cons pkg pkgs ih =>
    simp only [List.map_cons, List.mem_cons, not_or] at h
    have hcons : commitDevices epochId (pkg :: pkgs) devices =
        commitDevices epochId pkgs (DeviceStore.commit devices pkg.did pkg.leaf epochId) := rfl
    rw [hcons, ih _ h.2, get?_commit, if_neg h.1]

theorem get?_commitDevices {pkgs : List ProofPackage}
    (hnd : (pkgs.map ProofPackage.did).Nodup) (epochId : ℤ) (devices : DeviceStore)
    {pkg : ProofPackage} (h : pkg ∈ pkgs) :
    (commitDevices epochId pkgs devices).get? pkg.did = (devices.get? pkg.did).map fun r ↦
      { r with status := .registered, leaf := some pkg.leaf, epochId := some epochId } := by
  induction pkgs generalizing devices with
  | nil => simp at h
  | cons p pkgs ih =>
    simp only [List.map_cons, List.nodup_cons] at hnd
    have hcons : commitDevices epochId (p :: pkgs) devices =
        commitDevices epochId pkgs (DeviceStore.commit devices p.did p.leaf epochId) := rfl
    rw [hcons]
    rcases List.mem_cons.mp h with rfl | h
    · rw [get?_commitDevices_of_not_mem _ hnd.1, get?_commit, if_pos rfl]
    · have hne : pkg.did ≠ p.did := fun he ↦ hnd.1 (he ▸ List.mem_map_of_mem h)
      rw [ih hnd.2 _ h, get?_commit, if_neg hne]

end FogNode.Proofs
