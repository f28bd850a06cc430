import FogNode.Source.EpochManager

namespace FogNode.Proofs

open FogNode.Library FogNode.Source

variable {P : Platform} {node : Node P} {blocked : List String} {pending : Batch}

/-- The entry that a registered device is carried forward with. -/
structure CarriedEntry (blocked : List String) (pending : Batch) (rec : DeviceRecord)
    (e : PendingEntry) : Prop where
  did_eq : e.did = rec.did
  key_eq : e.publicKey = rec.publicKey
  free : rec.did ∉ blocked
  absent : pending.get? rec.did = none
  leaf : ∃ text, rec.leaf = some text ∧ fromhex text = .ok e.leaf

theorem carryForward_cons {rec : DeviceRecord} {recs : List DeviceRecord} {members : Batch}
    {n : ℕ} {out : Batch × ℕ}
    (h : carryForward blocked pending (rec :: recs) members n = .ok out) :
    (¬ (rec.did ∉ blocked ∧ pending.get? rec.did = none) ∧
      carryForward blocked pending recs members n = .ok out) ∨
    ∃ e, CarriedEntry blocked pending rec e ∧
      carryForward blocked pending recs (members.add e) (n + 1) = .ok out := by
  simp only [carryForward] at h
  split at h
  case isFalse hcond => exact .inl ⟨hcond, h⟩
  case isTrue hcond =>
    cases hleaf : rec.leaf with
    | none => simp [hleaf] at h
    | some text =>
      cases hhex : fromhex text with
      | error err => simp [hleaf, hhex] at h
      | ok leaf =>
        simp only [hleaf, hhex] at h
        exact .inr ⟨_, ⟨rfl, rfl, hcond.1, hcond.2, text, hleaf, hhex⟩, h⟩

theorem carryForward_mem {recs : List DeviceRecord} {members members' : Batch} {n n' : ℕ}
    (h : carryForward blocked pending recs members n = .ok (members', n')) {did : String}
    {e : PendingEntry} (he : members'.get? did = some e) :
    members.get? did = some e ∨ ∃ rec ∈ recs, CarriedEntry blocked pending rec e := by
  induction recs generalizing members n with
  | nil =>
    simp only [carryForward, Except.ok.injEq, Prod.mk.injEq] at h
    exact .inl (h.1 ▸ he)
  | cons rec recs ih =>
    have hrest : (∃ r ∈ recs, CarriedEntry blocked pending r e) →
        ∃ r ∈ rec :: recs, CarriedEntry blocked pending r e :=
      fun ⟨r, hr, hc⟩ ↦ ⟨r, List.mem_cons_of_mem _ hr, hc⟩
    rcases carryForward_cons h with ⟨-, h⟩ | ⟨c, hc, h⟩
    · exact (ih h).imp_right hrest
    · rcases ih h with hm | hr
      · rw [Table.get?_add] at hm
        split at hm
        case isTrue => cases hm; exact .inr ⟨rec, List.mem_cons_self, hc⟩
        case isFalse => exact .inl hm
      · exact .inr (hrest hr)

theorem carryForward_keeps {recs : List DeviceRecord} {members members' : Batch} {n n' : ℕ}
    (h : carryForward blocked pending recs members n = .ok (members', n')) {did : String}
    (hd : (members.get? did).isSome) : (members'.get? did).isSome := by
  induction recs generalizing members n with
  | nil =>
    simp only [carryForward, Except.ok.injEq, Prod.mk.injEq] at h
    exact h.1 ▸ hd
  | cons rec recs ih =>
    rcases carryForward_cons h with ⟨-, h⟩ | ⟨c, -, h⟩
    · exact ih h hd
    · refine ih h ?_
      rw [Table.get?_add]
      split
      · rfl
      · exact hd

/-- Every registered device that is neither blocked nor queued is carried. -/
theorem carryForward_complete {recs : List DeviceRecord} {members members' : Batch} {n n' : ℕ}
    (h : carryForward blocked pending recs members n = .ok (members', n'))
    {rec : DeviceRecord} (hrec : rec ∈ recs) (hfree : rec.did ∉ blocked)
    (habsent : pending.get? rec.did = none) : (members'.get? rec.did).isSome := by
  induction recs generalizing members n with
  | nil => simp at hrec
  | cons r recs ih =>
    rcases carryForward_cons h with ⟨hcond, hr⟩ | ⟨c, hc, hr⟩
    · rcases List.mem_cons.mp hrec with rfl | hrec
      · exact absurd ⟨hfree, habsent⟩ hcond
      · exact ih hr hrec
    · rcases List.mem_cons.mp hrec with rfl | hrec
      · exact carryForward_keeps hr (by rw [← hc.did_eq, Table.get?_add_self]; rfl)
      · exact ih hr hrec

/-- The loop fails only on a registered device without a leaf that can be read. -/
theorem carryForward_total {recs : List DeviceRecord} (members : Batch) (n : ℕ)
    (h : ∀ rec ∈ recs, ∃ text leaf, rec.leaf = some text ∧ fromhex text = .ok leaf) :
    ∃ out, carryForward blocked pending recs members n = .ok out := by
  induction recs generalizing members n with
  | nil => exact ⟨_, rfl⟩
  | cons rec recs ih =>
    obtain ⟨text, leaf, hleaf, hhex⟩ := h rec List.mem_cons_self
    have hrecs : ∀ r ∈ recs, ∃ text leaf, r.leaf = some text ∧ fromhex text = .ok leaf :=
      fun r hr ↦ h r (List.mem_cons_of_mem _ hr)
    simp only [carryForward, hleaf, hhex]
    split
    · exact ih _ _ hrecs
    · exact ih _ _ hrecs

theorem mem_newEntries {e : PendingEntry} :
    e ∈ newEntries blocked pending ↔ pending.get? e.did = some e ∧ e.did ∉ blocked := by
  simp [newEntries, Table.mem_values]

theorem newEntries_nodup : ((newEntries blocked pending).map PendingEntry.did).Nodup :=
  pending.nodup_keys.sublist (List.filter_sublist.map _)

theorem mem_byStatus {devices : DeviceStore} {status : DeviceStatus} {rec : DeviceRecord} :
    rec ∈ DeviceStore.byStatus devices status ↔
      devices.get? rec.did = some rec ∧ rec.status = status := by
  simp [DeviceStore.byStatus, Table.mem_values]

theorem mem_blockedDids {devices : DeviceStore} {excludeDids : List String} {did : String} :
    did ∈ blockedDids devices excludeDids ↔
      did ∈ excludeDids ∨ ∃ rec, devices.get? did = some rec ∧ rec.status = .revoked := by
  simp only [blockedDids, List.mem_append, List.mem_map, mem_byStatus]
  refine or_congr_right ⟨?_, ?_⟩
  · rintro ⟨rec, h, rfl⟩; exact ⟨rec, h⟩
  · rintro ⟨rec, h, hs⟩
    exact ⟨rec, ⟨Table.get?_key h, hs⟩, Table.key_of_get? h⟩

/-- The entries an epoch can be finalized with. -/
def MemberEntry (node : Node P) (fog : Fog) (blocked : List String) (e : PendingEntry) : Prop :=
  (fog.epochs.pending.get? e.did = some e ∧ e.did ∉ blocked) ∨
  node.carryForward = true ∧ ∃ rec, fog.devices.get? rec.did = some rec ∧
    rec.status = .registered ∧ CarriedEntry blocked fog.epochs.pending rec e

variable {fog : Fog} {members : Batch} {new carried : ℕ}

theorem collectMembers_ok (h : collectMembers node fog blocked = .ok (members, new, carried)) :
    ∃ kept : Batch, members = kept.addAll (newEntries blocked fog.epochs.pending) ∧
      new = (newEntries blocked fog.epochs.pending).length ∧
      carryForward blocked fog.epochs.pending
        (if node.carryForward then fog.devices.byStatus .registered else []) ∅ 0 =
        .ok (kept, carried) := by
  unfold collectMembers at h
  cases hc : carryForward blocked fog.epochs.pending
      (if node.carryForward then fog.devices.byStatus .registered else []) ∅ 0 with
  | error err => simp [hc] at h
  | ok out =>
    obtain ⟨kept, n⟩ := out
    simp only [hc, Except.ok.injEq, Prod.mk.injEq] at h
    obtain ⟨rfl, rfl, rfl⟩ := h
    exact ⟨kept, rfl, rfl, rfl⟩

theorem member_of_collect (h : collectMembers node fog blocked = .ok (members, new, carried))
    {did : String} {e : PendingEntry} (he : members.get? did = some e) :
    MemberEntry node fog blocked e := by
  obtain ⟨kept, rfl, -, hc⟩ := collectMembers_ok h
  rcases Table.get?_addAll_some he with hnew | ⟨hkept, -⟩
  · exact .inl (mem_newEntries.mp hnew)
  · rcases carryForward_mem hc hkept with hnone | ⟨rec, hrec, hcarried⟩
    · simp at hnone
    · split at hrec
      case isTrue hforward =>
        obtain ⟨hget, hstatus⟩ := mem_byStatus.mp hrec
        exact .inr ⟨hforward, rec, hget, hstatus, hcarried⟩
      case isFalse => simp at hrec

theorem pending_mem_members (h : collectMembers node fog blocked = .ok (members, new, carried))
    {did : String} {e : PendingEntry} (he : fog.epochs.pending.get? did = some e)
    (hfree : did ∉ blocked) : members.get? did = some e := by
  obtain ⟨kept, rfl, -, -⟩ := collectMembers_ok h
  obtain rfl := Table.key_of_get? he
  exact Table.get?_addAll_mem newEntries_nodup _ (mem_newEntries.mpr ⟨he, hfree⟩)

theorem carryForward_size {recs : List DeviceRecord} {members members' : Batch} {n n' : ℕ}
    (h : carryForward blocked pending recs members n = .ok (members', n'))
    (hnd : (recs.map DeviceRecord.did).Nodup)
    (habsent : ∀ rec ∈ recs, members.get? rec.did = none) :
    members'.size + n = members.size + n' := by
  induction recs generalizing members n with
  | nil =>
    simp only [carryForward, Except.ok.injEq, Prod.mk.injEq] at h
    rw [h.1, h.2]
  | cons rec recs ih =>
    simp only [List.map_cons, List.nodup_cons] at hnd
    rcases carryForward_cons h with ⟨-, h⟩ | ⟨c, hc, h⟩
    · exact ih h hnd.2 fun r hr ↦ habsent r (List.mem_cons_of_mem _ hr)
    · have hsize : (members.add c).size = members.size + 1 := by
        refine Table.size_add ?_
        rw [hc.did_eq]
        exact habsent rec List.mem_cons_self
      have htail := ih h hnd.2 fun r hr ↦ ?_
      · omega
      · rw [Table.get?_add, if_neg, habsent r (List.mem_cons_of_mem _ hr)]
        rw [hc.did_eq]
        exact fun he ↦ hnd.1 (he ▸ List.mem_map_of_mem hr)

theorem collectMembers_size
    (h : collectMembers node fog blocked = .ok (members, new, carried)) :
    new + carried = members.size := by
  obtain ⟨kept, rfl, rfl, hc⟩ := collectMembers_ok h
  have hkept : kept.size = carried := by
    have hsize := carryForward_size hc ?_ fun _ _ ↦ rfl
    · simpa [Table.size_empty] using hsize
    · split
      · exact fog.devices.nodup_keys.sublist (List.filter_sublist.map _)
      · exact List.nodup_nil
  have hnew : ∀ e ∈ newEntries blocked fog.epochs.pending, kept.get? e.did = none := by
    intro e he
    cases hget : kept.get? e.did with
    | none => rfl
    | some c =>
      rcases carryForward_mem hc hget with hnone | ⟨rec, -, hcarried⟩
      · cases hnone
      · have hdid : rec.did = e.did := hcarried.did_eq.symm.trans (Table.key_of_get? hget)
        have habsent := hcarried.absent
        rw [hdid, (mem_newEntries.mp he).1] at habsent
        cases habsent
  rw [Table.size_addAll newEntries_nodup hnew, hkept, Nat.add_comm]

end FogNode.Proofs
