import FogNode.Proofs.Steps

namespace FogNode.Proofs

open FogNode.Library FogNode.Source

variable {P : Platform} {node : Node P} {env : Env} {fog fog' : Fog}

/-- The record describes the device as the metadata do. -/
structure DescribedBy (rec : DeviceRecord) (body : MetadataRequest) : Prop where
  name_eq : rec.deviceName = some body.deviceName
  type_eq : rec.deviceType = some body.deviceType
  zone_eq : rec.zone = some body.zone
  vendor_eq : rec.vendor = some body.vendor
  role_eq : rec.role = some body.role

/-- The two records are about the same device, described in the same way. -/
structure SameProfile (rec rec' : DeviceRecord) : Prop where
  key_eq : rec'.publicKey = rec.publicKey
  leaf_eq : rec'.leaf = rec.leaf
  name_eq : rec'.deviceName = rec.deviceName
  type_eq : rec'.deviceType = rec.deviceType
  zone_eq : rec'.zone = rec.zone
  vendor_eq : rec'.vendor = rec.vendor
  role_eq : rec'.role = rec.role

theorem Advances.same_profile {rec rec' : DeviceRecord} (h : Advances rec rec')
    (hleaf : rec.leaf ≠ none) : SameProfile rec rec' := by
  obtain ⟨leaf, hl⟩ := Option.ne_none_iff_exists'.mp hleaf
  obtain ⟨hname, htype, hzone, hvendor, hrole⟩ := h.profile_eq hleaf
  exact ⟨h.key_eq, (h.leaf_eq leaf hl).trans hl.symm, hname, htype, hzone, hvendor, hrole⟩

/-- `/register/pop` leaves every record that exists as it is. -/
theorem Inv.pop_keeps (h : Inv node fog) {body : PopRequest} {r : Response}
    (he : Effect node env fog (.registerPop body) r fog') {did : String} {rec : DeviceRecord}
    (hrec : fog.devices.get? did = some rec) : fog'.devices.get? did = some rec := by
  cases he with
  | read hread => exact hread.elim
  | refused => exact hrec
  | popFailed => exact hrec
  | popPassed hs hstate hid hsdid =>
    obtain ⟨key, pk, hb⟩ := h.bound hs (by simp [hstate]) hsdid
    have hnew := enrolled_eq_none.mp (hb.submitted hstate)
    rw [get?_upsert]
    split
    case isTrue hd =>
      subst hd
      rw [hnew] at hrec
      cases hrec
    case isFalse => exact hrec
  | challenged hask => exact hask.elim
  | presented hp => exact hp.elim

/-- Once metadata are accepted the record has a leaf and says what they say. -/
theorem Effect.described {body : MetadataRequest} {fields : List (String × Json)}
    (he : Effect node env fog (.registerMetadata body) (.ok fields) fog') :
    ∃ did rec, Json.field "did" fields = some (.str did) ∧ fog'.devices.get? did = some rec ∧
      rec.leaf ≠ none ∧ DescribedBy rec body := by
  cases he with
  | read hread => exact hread.elim
  | refused hr => exact absurd rfl (hr fields)
  | unqueued _ _ _ _ hr => exact absurd rfl (hr fields)
  | @queued _ _ _ did publicKey record pk leaf _ hs hstate hdid hrec hvalid hkey hpk hnew hleaf
      hid hdid' hkey' hstate' hr =>
    have hget : (DeviceStore.setLeaf (DeviceStore.setMetadata fog.devices did body) did
        (toHex leaf)).get? did = some { record with
          deviceName := some body.deviceName
          deviceType := some body.deviceType
          zone := some body.zone
          vendor := some body.vendor
          role := some body.role
          leaf := some (toHex leaf) } := by
      rw [get?_setLeaf, if_pos rfl, get?_setMetadata, if_pos rfl, hrec]
      rfl
    exact ⟨did, _, hr, hget, Option.some_ne_none _, ⟨rfl, rfl, rfl, rfl, rfl⟩⟩
  | challenged hask => exact hask.elim
  | presented hp => exact hp.elim

/-- What is true of sessions and records after the listed requests. -/
structure OnboardedOnce (node : Node P) (events : List Event) (fog : Fog) : Prop where
  one_session : ∀ id id' (s s' : Session) did, fog.sessions.get? id = some s →
    fog.sessions.get? id' = some s' → s.state ≠ .authenticated → s'.state ≠ .authenticated →
    s.did = some did → s'.did = some did → id = id'
  not_on_record : ∀ id (s : Session) did, fog.sessions.get? id = some s →
    s.state = .keySubmitted → s.did = some did → fog.devices.get? did = none
  pop_keeps : ∀ e body did (rec : DeviceRecord), e.request = .registerPop body →
    fog.devices.get? did = some rec → (step node fog e).devices.get? did = some rec
  accepted : ∀ e body fields, e.request = .registerMetadata body →
    answer node fog e = .ok fields → ∃ did rec, Json.field "did" fields = some (.str did) ∧
      (step node fog e).devices.get? did = some rec ∧ rec.leaf ≠ none ∧ DescribedBy rec body
  leaf_eq : ∀ did (rec : DeviceRecord) text, fog.devices.get? did = some rec →
    rec.leaf = some text → ∃ pk leaf, fromhex rec.publicKey = .ok pk ∧
      leafHash P did pk = .ok leaf ∧ text = toHex leaf
  onward : ∀ later did (rec : DeviceRecord), fog.devices.get? did = some rec →
    ∃ rec', (after node Fog.init (events ++ later)).devices.get? did = some rec' ∧
      rank rec.status ≤ rank rec'.status ∧ (rec.leaf ≠ none → SameProfile rec rec')

/-- One onboarding for each DID, and records that only move forward. -/
theorem onboarded_once (node : Node P) (events : List Event) :
    OnboardedOnce node events (after node Fog.init events) := by
  have hinv : Inv node (after node Fog.init events) := inv_after events
  refine ⟨hinv.sessions.unique, fun id s did hs hstate hdid ↦ ?_, fun e body did rec hreq hrec ↦ ?_,
    fun e body fields hreq hok ↦ ?_, fun did rec text hrec hleaf ↦ ?_,
    fun later did rec hrec ↦ ?_⟩
  · obtain ⟨key, pk, hb⟩ := hinv.bound hs (by simp [hstate]) hdid
    exact enrolled_eq_none.mp (hb.submitted hstate)
  · have he := step_effect node (after node Fog.init events) e
    rw [hreq] at he
    exact hinv.pop_keeps he hrec
  · have he := step_effect node (after node Fog.init events) e
    rw [hreq, hok] at he
    exact he.described
  · obtain ⟨pk, leaf, hpk, hhash, htext⟩ := (hinv.records did rec hrec).leaf text hleaf
    rw [Table.key_of_get? hrec] at hhash
    exact ⟨pk, leaf, hpk, hhash, htext⟩
  · obtain ⟨rec', hrec', hadv⟩ := (keeps_after hinv later).devices did rec hrec
    rw [after, run_append]
    exact ⟨rec', hrec', hadv.status_le, hadv.same_profile⟩

end FogNode.Proofs
