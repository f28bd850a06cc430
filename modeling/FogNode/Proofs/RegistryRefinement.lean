import FogNode.Library.BatchedRegistry
import FogNode.Proofs.EpochNumbering
import FogNode.Proofs.Membership
import FogNode.Proofs.ProofService
import FogNode.Proofs.Queue
import FogNode.Proofs.RevokeFrame

namespace FogNode.Proofs

open FogNode.Library FogNode.Source

variable {P : Platform} {node : Node P} {fog fog' : Fog} {registry : Registry String}

open Classical in
/-- What a request and its answer say about the batches of devices. A close is none where
leaves collide, which no tree is built over. -/
noncomputable def observed (node : Node P) (fog : Fog) (env : Env) (r : Response) :
    Request → RegistryCall String
  | .registerMetadata _ =>
    match r.text "did" with
    | some did => .enter did
    | none => .other
  | .revoke body _ =>
    if succeeds r = true ∧ body.tokenOnly = false then .ban body.did else .other
  | .epochClose excludeDids adminKey =>
    if adminKey = some node.adminKey ∧
        NoCollision P (idInput '' dueIdentities node excludeDids fog) then
      .close {did | did ∈ excludeDids} env.disk.isNone
    else .other
  | _ => .other

noncomputable def observe (node : Node P) (fog : Fog) : Action → RegistryCall String
  | .request e => observed node fog e.env (answer node fog e) e.request
  | .restart => .restart

/-- What is to be seen of a run. -/
noncomputable abbrev observations (node : Node P) (actions : List Action) :
    List (RegistryCall String) :=
  outputs (act node) (fun fog a ↦ some (observe node fog a)) Fog.init actions

noncomputable abbrev registryAfter (node : Node P) (actions : List Action) : Registry String :=
  run (Registry.call node.carryForward) Registry.empty (observations node actions)

/-- The block anchors the root over exactly the devices, each with a key that its DID is
derived from. -/
def CommitsTo (P : Platform) (b : Block) (dids : Set String) : Prop :=
  ∃ ids leaves, RootOf P ids b.root leaves ∧ Prod.fst '' ids = dids ∧
    (∀ id ∈ ids, id.1 = deriveDid P id.2) ∧ b.leafCount = dids.ncard

/-- The stores, the manager and the ledger of the fog are those of the registry. -/
structure Implements (node : Node P) (fog : Fog) (registry : Registry String) : Prop where
  waiting : ∀ did, did ∈ registry.waiting ↔ (fog.epochs.pending.get? did).isSome
  members : ∀ did, did ∈ registry.members ∧ did ∉ registry.banned ↔ IsRegistered fog did
  banned : ∀ did, did ∈ registry.banned ↔ Revoked fog did
  current : fog.epochs.currentEpochId = registry.epochs.length + 1
  numbered : Numbered (fog.ledger.file.getD [])
  written : List.Forall₂ (CommitsTo P) (fog.ledger.file.getD []) registry.epochs
  memory : ∃ tail, fog.ledger.blocks = fog.ledger.file.getD [] ++ tail ∧
    List.Forall₂ (CommitsTo P) tail registry.unsaved.toList

theorem implements_init (node : Node P) : Implements node Fog.init Registry.empty where
  waiting did := by simp [Registry.empty, Fog.init, Fog.create, EpochManager.init]
  members did := by simp [Registry.empty, IsRegistered, Fog.init, Fog.create]
  banned did := by simp [Registry.empty, Revoked, Fog.init, Fog.create]
  current := rfl
  numbered k b hb := by cases hb
  written := .nil
  memory := ⟨[], rfl, .nil⟩

section epoch

variable {env : Env} {excludeDids : List String} {members : Batch} {new carried : ℕ}
  {tree : MerkleTree}

theorem Implements.due_eq (h : Implements node fog registry) (excludeDids : List String) :
    registry.due node.carryForward {did | did ∈ excludeDids} = dueDids node excludeDids fog := by
  ext did
  have hlive : did ∉ registry.banned ↔
      ∀ rec, fog.devices.get? did = some rec → rec.status ≠ .revoked := by
    rw [h.banned did, Revoked, not_exists]
    exact forall_congr' fun rec ↦ not_and
  constructor
  · rintro ⟨hsource, hbanned, hfree⟩
    refine ⟨hfree, hlive.mp hbanned, ?_⟩
    rcases hsource with hwaiting | ⟨hcarry, hmember⟩
    · exact .inl ((h.waiting did).mp hwaiting)
    · exact .inr ⟨hcarry, (h.members did).mp ⟨hmember, hbanned⟩⟩
  · intro hdue
    refine ⟨?_, hlive.mpr hdue.live, hdue.free⟩
    rcases hdue.source with hpending | ⟨hcarry, hregistered⟩
    · exact .inl ((h.waiting did).mpr hpending)
    · exact .inr ⟨hcarry, ((h.members did).mpr hregistered).1⟩

theorem Inv.commitsTo_due (h : Inv node fog)
    (hm : collectMembers node fog (blockedDids fog.devices excludeDids) =
      .ok (members, new, carried))
    (ht : MerkleTree.init (nodeHash P) (sortedLeaves members) false = .ok tree) :
    CommitsTo P (anchorBlock node env fog tree) (dueDids node excludeDids fog) := by
  obtain ⟨-, -, hnd, hleaves, -⟩ := built_of_init (computes_nodeHash P) ht
  rw [if_neg Bool.false_ne_true] at hleaves
  refine ⟨dueIdentities node excludeDids fog, sortedLeaves members,
    ⟨⟨tree, ht, rfl⟩, strict_of_sorted (sortBytes_sorted _) hnd, fun leaf ↦ h.mem_leaves_iff hm⟩,
    ?_, ?_, ?_⟩
  · ext did
    constructor
    · rintro ⟨id, hid, rfl⟩
      exact hid.1
    · intro hdue
      obtain ⟨rec, hj, rfl⟩ := h.due_iff.mp hdue
      obtain ⟨pk, hpk, -⟩ := (h.records _ rec hj.get).identity
      exact ⟨(rec.did, pk), ⟨hdue, rec, hj.get, hpk⟩, rfl⟩
  · rintro ⟨did, pk⟩ ⟨-, rec, hrec, hpk⟩
    obtain ⟨pk', hpk', -, hdid⟩ := (h.records _ rec hrec).identity
    rw [hpk] at hpk'
    cases hpk'
    exact (Table.key_of_get? hrec).symm.trans hdid
  · have hcount : (anchorBlock node env fog tree).leafCount = tree.leaves.length := rfl
    rw [hcount, hleaves, (sortedLeaves_perm members).length_eq, List.length_map, h.ncard_due hm,
      Table.size_eq_length]

/-- The current epoch is open exactly where no block is left unsaved. -/
theorem Implements.open_iff (h : Implements node fog registry) (hinv : Inv node fog) :
    fog.ledger.getRoot fog.epochs.currentEpochId = none ↔ registry.unsaved = none := by
  obtain ⟨tail, hblocks, htail⟩ := h.memory
  constructor
  · intro hroot
    have hall := hinv.ledger.all_saved hroot
    rw [hblocks, List.append_right_eq_self] at hall
    rw [hall, List.forall₂_nil_left_iff] at htail
    exact Option.toList_eq_nil_iff.mp htail
  · intro hnone
    rw [hnone, Option.toList_none, List.forall₂_nil_right_iff] at htail
    exact hinv.ledger.unanchored (by rw [hblocks, htail, List.append_nil])

theorem Implements.length_eq (h : Implements node fog registry) :
    (fog.ledger.file.getD []).length = registry.epochs.length := h.written.length_eq

theorem Implements.closes (h : Implements node fog registry) (hinv : Inv node fog)
    (hm : collectMembers node fog (blockedDids fog.devices excludeDids) =
      .ok (members, new, carried))
    (he : members.values ≠ []) (hroot : fog.ledger.getRoot fog.epochs.currentEpochId = none) :
    registry.Closes node.carryForward {did | did ∈ excludeDids} := by
  refine ⟨?_, (h.open_iff hinv).mp hroot⟩
  rw [h.due_eq]
  obtain ⟨e, he⟩ := List.exists_mem_of_ne_nil _ he
  refine ⟨e.did, (hinv.mem_keys_iff hm).mp ?_⟩
  rw [Table.keys_eq_map]
  exact List.mem_map_of_mem he

/-- A block that cannot be saved stays in memory. -/
theorem Implements.unsaved (h : Implements node fog registry) (hinv : Inv node fog)
    (hm : collectMembers node fog (blockedDids fog.devices excludeDids) =
      .ok (members, new, carried))
    (ht : MerkleTree.init (nodeHash P) (sortedLeaves members) false = .ok tree)
    (hroot : fog.ledger.getRoot fog.epochs.currentEpochId = none) :
    Implements node (Proofs.unsaved node env fog tree)
      { registry with
        unsaved := some (registry.due node.carryForward {did | did ∈ excludeDids}) } where
  waiting := h.waiting
  members := h.members
  banned := h.banned
  current := h.current
  numbered := h.numbered
  written := h.written
  memory := by
    refine ⟨[anchorBlock node env fog tree], ?_, ?_⟩
    · change fog.ledger.blocks ++ [_] = fog.ledger.file.getD [] ++ [_]
      rw [hinv.ledger.all_saved hroot]
    · rw [h.due_eq]
      exact .cons (hinv.commitsTo_due hm ht) .nil

theorem ExactEpoch.registered_iff {result : EpochResult}
    (h : ExactEpoch node excludeDids fog result fog') (hinv : Inv node fog) (did : String) :
    IsRegistered fog' did ↔ Due node excludeDids fog did ∨ IsRegistered fog did := by
  by_cases hdue : Due node excludeDids fog did
  · obtain ⟨rec, hj, rfl⟩ := hinv.due_iff.mp hdue
    exact iff_of_true ⟨_, h.registered _ rec hdue hj.get, rfl⟩ (.inl hdue)
  · rw [or_iff_right hdue, IsRegistered, IsRegistered, h.others did hdue]

theorem ExactEpoch.revoked_iff {result : EpochResult}
    (h : ExactEpoch node excludeDids fog result fog') (hinv : Inv node fog) (did : String) :
    Revoked fog' did ↔ Revoked fog did := by
  by_cases hdue : Due node excludeDids fog did
  · obtain ⟨rec, hj, rfl⟩ := hinv.due_iff.mp hdue
    refine iff_of_false ?_ ?_
    · rintro ⟨rec', hrec', hstatus⟩
      rw [h.registered _ rec hdue hj.get] at hrec'
      cases hrec'
      cases hstatus
    · rintro ⟨rec', hrec', hstatus⟩
      exact hdue.live rec' hrec' hstatus
  · rw [Revoked, Revoked, h.others did hdue]

/-- An epoch that closes commits what is due. -/
theorem Implements.commit {pkgs : PackageSet} {result : EpochResult}
    (h : Implements node fog registry) (hinv : Inv node fog)
    (hm : collectMembers node fog (blockedDids fog.devices excludeDids) =
      .ok (members, new, carried))
    (ht : MerkleTree.init (nodeHash P) (sortedLeaves members) false = .ok tree)
    (hroot : fog.ledger.getRoot fog.epochs.currentEpochId = none)
    (hexact : ExactEpoch node excludeDids fog result (finalized node env fog tree pkgs)) :
    Implements node (finalized node env fog tree pkgs)
      (registry.commit (registry.due node.carryForward {did | did ∈ excludeDids})) := by
  have hblocks := hinv.ledger.all_saved hroot
  have hcommits : CommitsTo P (anchorBlock node env fog tree) (dueDids node excludeDids fog) :=
    hinv.commitsTo_due hm ht
  have hnone := (h.open_iff hinv).mp hroot
  refine ⟨fun did ↦ ?_, fun did ↦ ?_, fun did ↦ ?_, ?_, ?_, ?_, ⟨[], ?_, ?_⟩⟩
  · simp [Registry.commit, finalized, nextManager]
  · rw [hexact.registered_iff hinv, ← h.members did]
    simp only [Registry.commit, Set.mem_union, h.due_eq]
    constructor
    · rintro ⟨hmember | hdue, hbanned⟩
      · exact .inr ⟨hmember, hbanned⟩
      · exact .inl hdue
    · rintro (hdue | ⟨hmember, hbanned⟩)
      · refine ⟨.inr hdue, fun hban ↦ ?_⟩
        obtain ⟨rec, hrec, hstatus⟩ := (h.banned did).mp hban
        exact hdue.live rec hrec hstatus
      · exact ⟨.inl hmember, hbanned⟩
  · rw [hexact.revoked_iff hinv]
    exact h.banned did
  · have hcurrent := h.current
    simp only [finalized, nextManager, Registry.commit, List.length_append, List.length_singleton]
    omega
  · have hlen := congrArg List.length hblocks
    rw [h.length_eq] at hlen
    change Numbered (fog.ledger.blocks ++ [anchorBlock node env fog tree])
    refine (hblocks ▸ h.numbered).append ?_ rfl
    rw [hlen]
    exact h.current
  · change List.Forall₂ _ (fog.ledger.blocks ++ [_]) (registry.epochs ++ [_])
    rw [hblocks, h.due_eq]
    exact List.rel_append h.written (.cons hcommits .nil)
  · exact (List.append_nil _).symm
  · change List.Forall₂ _ [] registry.unsaved.toList
    rw [hnone]
    exact .nil

theorem Inv.member_of_identity (h : Inv node fog)
    (hm : collectMembers node fog (blockedDids fog.devices excludeDids) =
      .ok (members, new, carried)) {id : Identity}
    (hid : id ∈ dueIdentities node excludeDids fog) :
    ∃ e ∈ members.values, ∃ rec, fog.devices.get? e.did = some rec ∧ e.did = id.1 ∧
      fromhex rec.publicKey = .ok id.2 ∧ leafHash P id.1 id.2 = .ok e.leaf := by
  obtain ⟨did, pk⟩ := id
  obtain ⟨hdue, rec, hrec, hpk⟩ := hid
  have hkey := (h.mem_keys_iff hm).mpr hdue
  rw [Table.keys_eq_map] at hkey
  obtain ⟨e, he, rfl⟩ := List.mem_map.mp hkey
  obtain ⟨pk', ⟨-, rec', hrec', hpk'⟩, -, hhash⟩ := h.member_identity hm he
  rw [show fog.devices.get? e.did = some rec from hrec] at hrec'
  cases hrec'
  rw [show fromhex rec.publicKey = .ok pk from hpk] at hpk'
  cases hpk'
  exact ⟨e, he, rec, hrec, rfl, hpk, hhash⟩

/-- Where a tree is built the due identities do not collide. -/
theorem Inv.noCollision (h : Inv node fog)
    (hm : collectMembers node fog (blockedDids fog.devices excludeDids) =
      .ok (members, new, carried))
    (ht : MerkleTree.init (nodeHash P) (sortedLeaves members) false = .ok tree) :
    NoCollision P (idInput '' dueIdentities node excludeDids fog) := by
  obtain ⟨-, -, hnd, -⟩ := built_of_init (computes_nodeHash P) ht
  rw [(sortedLeaves_perm members).nodup_iff] at hnd
  rintro _ ⟨id, hid, rfl⟩ _ ⟨id', hid', rfl⟩ hsame
  obtain ⟨e, he, rec, hrec, hdid, hpk, hhash⟩ := h.member_of_identity hm hid
  obtain ⟨e', he', rec', hrec', hdid', hpk', hhash'⟩ := h.member_of_identity hm hid'
  have hleaf : e.leaf = e'.leaf :=
    (leafHash_ok.mp hhash).2.2.trans (hsame.trans (leafHash_ok.mp hhash').2.2.symm)
  obtain rfl := List.inj_on_of_nodup_map hnd he he' hleaf
  rw [hrec] at hrec'
  cases hrec'
  rw [hpk] at hpk'
  exact congrArg idInput (Prod.ext (hdid.symm.trans hdid') (Except.ok.inj hpk'))

/-- Where identities collide no epoch closes. -/
theorem Implements.colliding {out : Except PyError EpochResult}
    (h : Implements node fog registry) (hinv : Inv node fog)
    (hcol : ¬ NoCollision P (idInput '' dueIdentities node excludeDids fog))
    (hf : Finalizing node env excludeDids fog out fog') : Implements node fog' registry := by
  cases hf with
  | unreadable | empty | badLeaves | anchored => exact h
  | unsaved hm he ht => exact absurd (hinv.noCollision hm ht) hcol
  | closed hm he ht => exact absurd (hinv.noCollision hm ht) hcol

theorem Implements.finalizing {out : Except PyError EpochResult}
    (h : Implements node fog registry) (hinv : Inv node fog)
    (hcol : NoCollision P (idInput '' dueIdentities node excludeDids fog))
    (hf : Finalizing node env excludeDids fog out fog') :
    Implements node fog'
      (registry.close node.carryForward {did | did ∈ excludeDids} env.disk.isNone) := by
  cases hf with
  | unreadable hm =>
    obtain ⟨members, new, carried, hok⟩ := hinv.collect_total (blockedDids fog.devices excludeDids)
    rw [hm] at hok
    cases hok
  | empty hm he =>
    rw [Registry.close_refused]
    · exact h
    · rintro ⟨⟨did, hdid⟩, -⟩
      rw [h.due_eq] at hdid
      have hkey := (hinv.mem_keys_iff hm).mpr hdid
      rw [Table.keys_eq_map, he] at hkey
      cases hkey
  | badLeaves hm he ht =>
    obtain ⟨tree, hok⟩ := hinv.tree_of_members hm he hcol
    rw [ht] at hok
    cases hok
  | anchored hm he ht hr =>
    rw [Registry.close_refused]
    · exact h
    · rintro ⟨-, hnone⟩
      rw [(h.open_iff hinv).mpr hnone] at hr
      cases hr
  | unsaved hm he ht hr hd =>
    rw [hd, Option.isNone_some, Registry.close_unsaved (h.closes hinv hm he hr)]
    exact h.unsaved hinv hm ht hr
  | closed hm he ht hr hd hp hresult =>
    rw [hd, Option.isNone_none, Registry.close_saved (h.closes hinv hm he hr)]
    exact h.commit hinv hm ht hr (hinv.exact_epoch (.closed hm he ht hr hd hp hresult))

end epoch

section requests

variable {env : Env} {request : Request} {r : Response}

/-- The record of the device has the status. -/
def HasStatus (devices : DeviceStore) (status : DeviceStatus) (did : String) : Prop :=
  ∃ rec, devices.get? did = some rec ∧ rec.status = status

theorem hasStatus_modify {devices devices' : DeviceStore} {did : String}
    {t : DeviceRecord → DeviceRecord} {status : DeviceStatus}
    (hg : ∀ j, devices'.get? j = if j = did then (devices.get? did).map t else devices.get? j)
    (ht : ∀ rec, devices.get? did = some rec → ((t rec).status = status ↔ rec.status = status))
    (j : String) : HasStatus devices' status j ↔ HasStatus devices status j := by
  simp only [HasStatus, hg]
  by_cases hj : j = did
  · subst hj
    rw [if_pos rfl]
    cases hrec : devices.get? j with
    | none => simp
    | some rec => simpa using ht rec hrec
  · rw [if_neg hj]

theorem hasStatus_upsert {devices : DeviceStore} {did key : String} {status : DeviceStatus}
    (hnew : devices.get? did = none) (hstatus : status ≠ .pending) (j : String) :
    HasStatus (DeviceStore.upsert devices (.new did key .pending)) status j ↔
      HasStatus devices status j := by
  simp only [HasStatus, get?_upsert]
  by_cases hj : j = did
  · subst hj
    rw [if_pos rfl, hnew]
    refine iff_of_false ?_ (by simp)
    rintro ⟨rec, hrec, hs⟩
    cases hrec
    exact hstatus hs.symm
  · rw [if_neg hj]

/-- Batches, ledger and the standing of the devices are as before. -/
theorem Implements.frame (h : Implements node fog registry) (hepochs : fog'.epochs = fog.epochs)
    (hledger : fog'.ledger = fog.ledger)
    (hstatus : ∀ status, status = .registered ∨ status = .revoked → ∀ did,
      HasStatus fog'.devices status did ↔ HasStatus fog.devices status did) :
    Implements node fog' registry where
  waiting := by rw [hepochs]; exact h.waiting
  members did := (h.members did).trans (hstatus .registered (.inl rfl) did).symm
  banned did := (h.banned did).trans (hstatus .revoked (.inr rfl) did).symm
  current := by rw [hepochs]; exact h.current
  numbered := by rw [hledger]; exact h.numbered
  written := by rw [hledger]; exact h.written
  memory := by rw [hledger]; exact h.memory

theorem Implements.queued (h : Implements node fog registry) {did key : String} {leaf : Bytes}
    {fog' : Fog} (hepochs : fog'.epochs = { fog.epochs with
      pending := fog.epochs.pending.add ⟨did, key, leaf⟩ })
    (hledger : fog'.ledger = fog.ledger)
    (hstatus : ∀ status did,
      HasStatus fog'.devices status did ↔ HasStatus fog.devices status did) :
    Implements node fog' { registry with waiting := insert did registry.waiting } where
  waiting j := by
    rw [hepochs, Set.mem_insert_iff, h.waiting, Table.get?_add]
    by_cases hj : j = did
    · simp [hj]
    · simp [hj]
  members j := (h.members j).trans (hstatus .registered j).symm
  banned j := (h.banned j).trans (hstatus .revoked j).symm
  current := by rw [hepochs]; exact h.current
  numbered := by rw [hledger]; exact h.numbered
  written := by rw [hledger]; exact h.written
  memory := by rw [hledger]; exact h.memory

theorem Implements.device_revoked (h : Implements node fog registry) {did : String}
    (hknown : fog.devices.get? did ≠ none) (state : TokenState) :
    Implements node
      { fog with
        devices := DeviceStore.setStatus fog.devices did .revoked
        tokenState := state }
      { registry with banned := insert did registry.banned } := by
  obtain ⟨rec, hrec⟩ := Option.ne_none_iff_exists'.mp hknown
  have hsame : ∀ j, j ≠ did →
      (DeviceStore.setStatus fog.devices did .revoked).get? j = fog.devices.get? j :=
    fun j hj ↦ by rw [get?_setStatus, if_neg hj]
  have hself : (DeviceStore.setStatus fog.devices did .revoked).get? did =
      some { rec with status := .revoked } := by
    rw [get?_setStatus, if_pos rfl, hrec, Option.map_some]
  refine ⟨h.waiting, fun j ↦ ?_, fun j ↦ ?_, h.current, h.numbered, h.written, h.memory⟩
  · simp only [IsRegistered, Set.mem_insert_iff, not_or]
    by_cases hj : j = did
    · subst hj
      simp [hself]
    · rw [hsame j hj, and_iff_right hj]
      exact h.members j
  · simp only [Revoked, Set.mem_insert_iff]
    by_cases hj : j = did
    · subst hj
      simp [hself]
    · rw [hsame j hj, or_iff_right hj]
      exact h.banned j

theorem observed_refused (hr : Refused r) (hclose : ∀ excludeDids adminKey,
    request ≠ .epochClose excludeDids adminKey) : observed node fog env r request = .other := by
  cases request with
  | registerMetadata body => rw [observed, hr.text]
  | revoke body adminKey =>
    have hno : succeeds r = false := by
      cases r with
      | ok body => exact absurd rfl (hr body)
      | _ => rfl
    rw [observed, hno, if_neg (by simp)]
  | epochClose excludeDids adminKey => exact absurd rfl (hclose excludeDids adminKey)
  | _ => rfl

/-- A request that neither closes an epoch nor revokes. -/
theorem Implements.effect (h : Implements node fog registry) (hinv : Inv node fog)
    (he : Effect node env fog request r fog')
    (hclose : ∀ excludeDids adminKey, request ≠ .epochClose excludeDids adminKey)
    (hrevoke : ∀ body adminKey, request ≠ .revoke body adminKey) :
    Implements node fog' (registry.call node.carryForward (observed node fog env r request)) := by
  cases he with
  | read hread =>
    have hother : observed node fog env r request = .other := by
      cases request with
      | registerMetadata | revoke | epochClose => exact hread.elim
      | _ => rfl
    rw [hother]
    exact h
  | refused hr =>
    rw [observed_refused hr hclose]
    exact h.frame rfl rfl fun _ _ _ ↦ Iff.rfl
  | started => exact h.frame rfl rfl fun _ _ _ ↦ Iff.rfl
  | submitted => exact h.frame rfl rfl fun _ _ _ ↦ Iff.rfl
  | popFailed => exact h.frame rfl rfl fun _ _ _ ↦ Iff.rfl
  | popPassed hs hstate _ hsdid =>
    obtain ⟨key, pk, hb⟩ := hinv.bound hs (by simp [hstate]) hsdid
    refine h.frame rfl rfl fun status hstatus ↦
      hasStatus_upsert (enrolled_eq_none.mp (hb.submitted hstate)) ?_
    rcases hstatus with rfl | rfl <;> decide
  | unqueued _ _ _ _ hr =>
    rw [observed_refused hr hclose]
    exact h.frame rfl rfl fun _ _ ↦
      hasStatus_modify (get?_setMetadata _ _ _) fun _ _ ↦ Iff.rfl
  | @queued body _ _ did _ _ _ _ fields _ _ _ _ _ _ _ _ _ _ _ _ _ hr =>
    have htext : (Response.ok fields).text "did" = some did := by
      simp only [Response.text, Response.field, hr, Option.bind_some, strField]
    rw [observed, htext]
    refine h.queued rfl rfl fun status j ↦ ?_
    rw [hasStatus_modify (get?_setLeaf _ _ _) fun _ _ ↦ Iff.rfl]
    exact hasStatus_modify (get?_setMetadata _ _ _) (fun _ _ ↦ Iff.rfl) j
  | issued _ _ _ hrec hrev hreg =>
    refine h.frame rfl rfl fun status hstatus ↦
      hasStatus_modify (get?_setStatus _ _ _) fun rec' hrec' ↦ ?_
    rw [hrec] at hrec'
    cases hrec'
    rcases hstatus with rfl | rfl
    · exact iff_of_false (by simp) hreg
    · exact iff_of_false (by simp) hrev
  | challenged hask =>
    have hother : observed node fog env r request = .other := by
      cases request with
      | registerMetadata | revoke | epochClose => exact hask.elim
      | _ => rfl
    rw [hother]
    exact h.frame rfl rfl fun _ _ _ ↦ Iff.rfl
  | presented hp =>
    have hother : observed node fog env r request = .other := by
      cases request with
      | registerMetadata | revoke | epochClose => exact hp.elim
      | _ => rfl
    rw [hother]
    exact h.frame rfl rfl fun _ _ _ ↦ Iff.rfl
  | tokenRevoked => exact absurd rfl (hrevoke _ _)
  | deviceRevoked => exact absurd rfl (hrevoke _ _)
  | finalizing => exact absurd rfl (hclose _ _)

theorem Implements.revoking {body : RevokeRequest} {adminKey : Option String}
    (h : Implements node fog registry) (hr : Revoking node body adminKey fog r fog') :
    Implements node fog'
      (registry.call node.carryForward (observed node fog env r (.revoke body adminKey))) := by
  cases hr with
  | refused hr =>
    rw [observed, hr, if_neg (by simp)]
    exact h
  | token honly =>
    rw [observed, honly, if_neg (by simp)]
    exact h.frame rfl rfl fun _ _ _ ↦ Iff.rfl
  | device hdevice _ hknown hr =>
    rw [observed, if_pos ⟨hr, hdevice⟩]
    exact h.device_revoked hknown _

end requests

section runs

theorem Implements.request (h : Implements node fog registry) (hinv : Inv node fog)
    (e : Event) : Implements node (step node fog e) (registry.call node.carryForward
      (observed node fog e.env (answer node fog e) e.request)) := by
  have heffect := step_effect node fog e
  obtain ⟨env, request⟩ := e
  cases request with
  | epochClose excludeDids adminKey =>
    by_cases hadmin : adminKey = some node.adminKey
    · subst hadmin
      obtain ⟨out, fog', hout, hf⟩ := finalizeEpoch_cases node env excludeDids fog
      have hstep : step node fog ⟨env, .epochClose excludeDids (some node.adminKey)⟩ = fog' := by
        change (epochClose node env excludeDids (some node.adminKey) fog).2 = fog'
        rw [epochClose_finalizes, hout]
      rw [hstep, observed]
      by_cases hcol : NoCollision P (idInput '' dueIdentities node excludeDids fog)
      · rw [if_pos ⟨rfl, hcol⟩]
        exact h.finalizing hinv hcol hf
      · rw [if_neg fun hboth ↦ hcol hboth.2]
        exact h.colliding hinv hcol hf
    · have hstep : step node fog ⟨env, .epochClose excludeDids adminKey⟩ = fog := by
        change (epochClose node env excludeDids adminKey fog).2 = fog
        rw [epochClose, if_pos hadmin]
      rw [hstep, observed, if_neg fun hboth ↦ hadmin hboth.1]
      exact h
  | revoke body adminKey => exact h.revoking (hinv.revoking body adminKey)
  | _ => exact h.effect hinv heffect (by simp) (by simp)

theorem Numbered.next {file : Option (List Block)} (h : Numbered (file.getD []))
    (signed : List Bytes) :
    (Fog.create file signed).epochs.currentEpochId = (file.getD []).length + 1 := by
  have hcreate : (Fog.create file signed).epochs.currentEpochId =
      (((file.getD []).getLast?.map Block.epochId).map (· + 1)).getD 1 := rfl
  rw [hcreate]
  cases hlast : (file.getD []).getLast? with
  | none =>
    rw [List.getLast?_eq_none_iff.mp hlast]
    rfl
  | some b => simp only [Option.map_some, Option.getD_some, h.last hlast]

theorem Implements.restart (h : Implements node fog registry) :
    Implements node (Fog.create fog.ledger.file fog.signed)
      { registry with waiting := ∅, members := ∅, banned := ∅, unsaved := none } where
  waiting did := by simp [Fog.create, EpochManager.init]
  members did := by simp [IsRegistered, Fog.create]
  banned did := by simp [Revoked, Fog.create]
  current := by rw [h.numbered.next, h.length_eq]
  numbered := h.numbered
  written := h.written
  memory := ⟨[], (List.append_nil _).symm, .nil⟩

theorem registryAfter_snoc (node : Node P) (actions : List Action) (a : Action) :
    registryAfter node (actions ++ [a]) = run (Registry.call node.carryForward) Registry.empty
      (observations node actions ++ [observe node (afterActions node Fog.init actions) a]) := by
  rw [registryAfter, observations, outputs_snoc, Option.toList_some]

/-- Through every run of requests, failed saves and restarts the fog goes on as the
registry of batches does. -/
theorem registry_refined (node : Node P) (actions : List Action) :
    Implements node (afterActions node Fog.init actions) (registryAfter node actions) := by
  induction actions using List.reverseRecOn with
  | nil => exact implements_init node
  | append_singleton actions a ih =>
    have hinv : Inv node (afterActions node Fog.init actions) := inv_afterActions actions
    rw [registryAfter_snoc, run_snoc, afterActions, run_snoc]
    cases a with
    | request e => exact ih.request hinv e
    | restart => exact ih.restart

theorem observe_close {a : Action} {excluded : Set String}
    (h : observe node fog a = .close excluded true) : ∃ env excludeDids,
      a = .request ⟨env, .epochClose excludeDids (some node.adminKey)⟩ ∧ env.disk = none ∧
        excluded = {did | did ∈ excludeDids} := by
  cases a with
  | restart => cases h
  | request e =>
    obtain ⟨env, request⟩ := e
    rw [observe] at h
    dsimp only at h
    generalize answer node fog ⟨env, request⟩ = r at h
    cases request with
    | registerMetadata body =>
      rw [observed] at h
      cases htext : r.text "did" <;> rw [htext] at h <;> cases h
    | revoke body adminKey =>
      rw [observed] at h
      split_ifs at h
    | epochClose excludeDids adminKey =>
      rw [observed] at h
      split_ifs at h with hboth
      rw [hboth.1]
      injection h with hset hdisk
      exact ⟨env, excludeDids, rfl, Option.isNone_iff_eq_none.mp hdisk, hset.symm⟩
    | _ => cases h

/-- The blocks in the ledger file. -/
abbrev fileBlocks (fog : Fog) : List Block := fog.ledger.file.getD []

/-- One step leaves the file or adds one block to it. -/
theorem Effect.file (hinv : Inv node fog) {env : Env} {request : Request} {r : Response}
    (he : Effect node env fog request r fog') : fileBlocks fog' = fileBlocks fog ∨
      ∃ b, fog'.ledger.file = some (fileBlocks fog ++ [b]) := by
  cases he with
  | finalizing hf =>
    cases hf with
    | @closed members new carried tree pkgs result hm he ht hr hd hp hresult =>
      refine .inr ⟨anchorBlock node env fog tree, ?_⟩
      rw [fileBlocks, ← hinv.ledger.all_saved hr]
      rfl
    | _ => exact .inl rfl
  | _ => exact .inl rfl

theorem file_act (node : Node P) (actions : List Action) (a : Action) :
    fileBlocks (afterActions node Fog.init (actions ++ [a])) =
        fileBlocks (afterActions node Fog.init actions) ∨
      ∃ b, (afterActions node Fog.init (actions ++ [a])).ledger.file =
        some (fileBlocks (afterActions node Fog.init actions) ++ [b]) := by
  rw [afterActions, run_snoc]
  cases a with
  | request e => exact (step_effect node _ e).file (inv_afterActions actions)
  | restart => exact .inl rfl

theorem file_grows (node : Node P) (actions later : List Action) :
    fileBlocks (afterActions node Fog.init actions) <+:
      fileBlocks (afterActions node Fog.init (actions ++ later)) := by
  induction later using List.reverseRecOn with
  | nil => rw [List.append_nil]
  | append_singleton later a ih =>
    rw [← List.append_assoc]
    rcases file_act node (actions ++ later) a with hsame | ⟨b, hb⟩
    · rwa [hsame]
    · rw [show fileBlocks (afterActions node Fog.init (actions ++ later ++ [a])) = _ from
        congrArg (Option.getD · []) hb]
      exact ih.trans (List.prefix_append _ _)

/-- The block that a step adds stays where it is. -/
theorem added_stays (node : Node P) {earlier : List Action} {a : Action} {b : Block}
    (h : (afterActions node Fog.init (earlier ++ [a])).ledger.file =
      some (fileBlocks (afterActions node Fog.init earlier) ++ [b])) (rest : List Action) :
    (fileBlocks (afterActions node Fog.init (earlier ++ a :: rest)))[
      (fileBlocks (afterActions node Fog.init earlier)).length]? = some b := by
  obtain ⟨t, ht⟩ := file_grows node (earlier ++ [a]) rest
  have hadded : fileBlocks (afterActions node Fog.init (earlier ++ [a])) =
      fileBlocks (afterActions node Fog.init earlier) ++ [b] := congrArg (Option.getD · []) h
  rw [List.append_cons, ← ht, hadded, List.append_assoc, List.singleton_append,
    List.getElem?_append_right le_rfl, Nat.sub_self, List.getElem?_cons_zero]

/-- The ledger file is the history of the epochs that were closed and saved: the k-th block
was added by a close, and commits to exactly the devices that were due at it. -/
theorem ledger_history (node : Node P) (actions : List Action) {k : ℕ} {b : Block}
    (hb : (fileBlocks (afterActions node Fog.init actions))[k]? = some b) :
    b.epochId = k + 1 ∧ ∃ earlier env excludeDids later,
      actions =
        earlier ++ .request ⟨env, .epochClose excludeDids (some node.adminKey)⟩ :: later ∧
      env.disk = none ∧
      (fileBlocks (afterActions node Fog.init earlier)).length = k ∧
      (step node (afterActions node Fog.init earlier)
          ⟨env, .epochClose excludeDids (some node.adminKey)⟩).ledger.file =
        some (fileBlocks (afterActions node Fog.init earlier) ++ [b]) ∧
      CommitsTo P b (dueDids node excludeDids (afterActions node Fog.init earlier)) := by
  have h := registry_refined node actions
  refine ⟨(h.numbered k b hb).1, ?_⟩
  obtain ⟨hlt, rfl⟩ := List.getElem?_eq_some_iff.mp hb
  have hlt' := h.length_eq ▸ hlt
  obtain ⟨calls, excluded, later, hcalls, hs, hlen, hcommitted⟩ :=
    Registry.exists_close (List.getElem?_eq_getElem hlt')
  obtain ⟨earlier, a, rest, rfl, rfl, hobserve⟩ := outputs_split hcalls
  rw [← hobserve, ← registryAfter_snoc] at hcommitted
  obtain ⟨env, excludeDids, rfl, hdisk, rfl⟩ := observe_close hobserve
  have hearlier : Implements node (afterActions node Fog.init earlier)
      (registryAfter node earlier) :=
    registry_refined node earlier
  have hcount := hearlier.length_eq.trans hlen
  refine ⟨earlier, env, excludeDids, rest, rfl, hdisk, hcount, ?_, ?_⟩
  · have hafter := (registry_refined node _).length_eq.trans hcommitted
    rcases file_act node earlier _ with hsame | ⟨b', hb'⟩
    · rw [show (afterActions node Fog.init (earlier ++ [_])).ledger.file.getD [] = _ from hsame,
        hcount] at hafter
      omega
    · have hget := added_stays node hb' rest
      rw [fileBlocks, hcount, hb] at hget
      cases hget
      rwa [afterActions, run_snoc] at hb'
  · have hcommits := h.written.get hlt hlt'
    rw [List.get_eq_getElem, List.get_eq_getElem, hs] at hcommits
    rw [← hearlier.due_eq]
    exact hcommits

/-- A device is registered again after a restart, since its epoch could not be saved. -/
def closedAgain : List Action :=
  let enter := (registration (plainKey 7) 0 7).map .request
  enter ++ [.request ⟨plainEnv 1 3 (some .replace), .epochClose [] (some "admin")⟩, .restart] ++
    enter ++ [.request (plainEvent 2 3 (.epochClose [] (some "admin")))]

/-- The only block is that of the second close. -/
theorem ledger_history_again : ∃ b,
    (fileBlocks (afterActions plainNode Fog.init closedAgain))[0]? = some b ∧
    b.epochId = ((0 : ℕ) : ℤ) + 1 ∧ ∃ earlier env excludeDids later,
      closedAgain =
        earlier ++ .request ⟨env, .epochClose excludeDids (some plainNode.adminKey)⟩ :: later ∧
      env.disk = none ∧
      (fileBlocks (afterActions plainNode Fog.init earlier)).length = 0 ∧
      (step plainNode (afterActions plainNode Fog.init earlier)
          ⟨env, .epochClose excludeDids (some plainNode.adminKey)⟩).ledger.file =
        some (fileBlocks (afterActions plainNode Fog.init earlier) ++ [b]) ∧
      CommitsTo plainPlatform b
        (dueDids plainNode excludeDids (afterActions plainNode Fog.init earlier)) := by
  have hsome : (fileBlocks (afterActions plainNode Fog.init closedAgain))[0]?.isSome := by
    decide +kernel
  obtain ⟨b, hb⟩ := Option.isSome_iff_exists.mp hsome
  exact ⟨b, hb, ledger_history plainNode closedAgain hb⟩

end runs

end FogNode.Proofs
