import Mathlib.Data.Set.Card
import FogNode.Proofs.EpochAtomicity
import FogNode.Proofs.Identities

namespace FogNode.Proofs

open FogNode.Library FogNode.Source

variable {P : Platform} {node : Node P} {excludeDids : List String} {fog fog' : Fog}
  {env : Env} {result : EpochResult}

/-- The device belongs into the next epoch: queued, or registered where devices are
carried forward, and neither excluded nor revoked. -/
structure Due (node : Node P) (excludeDids : List String) (fog : Fog) (did : String) : Prop where
  free : did ∉ excludeDids
  live : ∀ rec, fog.devices.get? did = some rec → rec.status ≠ .revoked
  source : (fog.epochs.pending.get? did).isSome ∨
    (node.carryForward = true ∧
      ∃ rec, fog.devices.get? did = some rec ∧ rec.status = .registered)

def dueDids (node : Node P) (excludeDids : List String) (fog : Fog) : Set String :=
  {did | Due node excludeDids fog did}

/-- The due devices, each with the key on its record. -/
def dueIdentities (node : Node P) (excludeDids : List String) (fog : Fog) : Set Identity :=
  {id | Due node excludeDids fog id.1 ∧
    ∃ rec, fog.devices.get? id.1 = some rec ∧ fromhex rec.publicKey = .ok id.2}

/-- Every block in memory has been written to the file. -/
def AllSaved (fog : Fog) : Prop := fog.ledger.blocks = fog.ledger.file.getD []

/-- The root commits to the leaves of the identities, in order and without repetition. -/
structure RootOf (P : Platform) (ids : Set Identity) (root : String) (leaves : List Bytes) :
    Prop where
  root : ∃ tree, MerkleTree.init (nodeHash P) leaves false = .ok tree ∧ root = tree.rootHex
  increasing : leaves.Pairwise BytesLT
  mem_iff : ∀ leaf, leaf ∈ leaves ↔ ∃ id ∈ ids, leafHash P id.1 id.2 = .ok leaf

/-- The package is that of the device: its DID, its key and its leaf. -/
structure OwnPackage (P : Platform) (ids : Set Identity) (result : EpochResult) (did : String)
    (pkg : ProofPackage) : Prop where
  did_eq : pkg.did = did
  epoch_eq : pkg.epochId = result.epochId
  root_eq : pkg.root = result.root
  identity : ∃ pk leaf, (did, pk) ∈ ids ∧ fromhex pkg.publicKey = .ok pk ∧
    leafHash P did pk = .ok leaf ∧ pkg.leaf = toHex leaf

/-- What an epoch that closes has done to the fog it was closed in. -/
structure ExactEpoch (node : Node P) (excludeDids : List String) (fog : Fog)
    (result : EpochResult) (fog' : Fog) : Prop where
  epoch_eq : result.epochId = fog.epochs.currentEpochId
  leaves : ∃ leaves, RootOf P (dueIdentities node excludeDids fog) result.root leaves ∧
    result.sortedLeaves.map (fun row ↦ row.2.1) = leaves.map toHex
  keys : ∀ did, did ∈ result.packages.keys ↔ Due node excludeDids fog did
  own : ∀ did pkg, result.packages.get? did = some pkg →
    OwnPackage P (dueIdentities node excludeDids fog) result did pkg
  counts : result.newDevices + result.carriedForward = (dueDids node excludeDids fog).ncard
  leafCount : result.block.leafCount = (dueDids node excludeDids fog).ncard
  rows : result.sortedLeaves.length = (dueDids node excludeDids fog).ncard
  registered : ∀ did rec, Due node excludeDids fog did → fog.devices.get? did = some rec →
    fog'.devices.get? did =
      some { rec with status := .registered, epochId := some result.epochId }
  others : ∀ did, ¬ Due node excludeDids fog did →
    fog'.devices.get? did = fog.devices.get? did
  stored : fog'.epochs.packages.get? result.epochId = some result.packages
  emptied : fog'.epochs.pending = ∅

theorem Inv.due_iff (h : Inv node fog) {did : String} :
    Due node excludeDids fog did ↔ ∃ rec, Joins node excludeDids fog rec ∧ rec.did = did := by
  constructor
  · intro hdue
    obtain ⟨rec, hrec⟩ : ∃ rec, fog.devices.get? did = some rec := by
      rcases hdue.source with hpending | ⟨-, rec, hrec, -⟩
      · obtain ⟨e, he⟩ := Option.isSome_iff_exists.mp hpending
        obtain ⟨rec, hrec, -⟩ := h.queue did e he
        exact ⟨rec, Table.key_of_get? he ▸ hrec⟩
      · exact ⟨rec, hrec⟩
    obtain rfl := Table.key_of_get? hrec
    refine ⟨rec, ⟨hrec, hdue.free, hdue.live rec hrec, hdue.source.imp_right ?_⟩, rfl⟩
    rintro ⟨hforward, rec', hrec', hstatus⟩
    rw [hrec] at hrec'
    cases hrec'
    exact ⟨hforward, hstatus⟩
  · rintro ⟨rec, hj, rfl⟩
    refine ⟨hj.free, fun rec' hrec' ↦ ?_, hj.due.imp_right fun hd ↦ ⟨hd.1, rec, hj.get, hd.2⟩⟩
    rw [hj.get] at hrec'
    cases hrec'
    exact hj.live

section members

variable {members : Batch} {new carried : ℕ}
  (hm : collectMembers node fog (blockedDids fog.devices excludeDids) = .ok (members, new, carried))

include hm

theorem Inv.mem_keys_iff (h : Inv node fog) {did : String} :
    did ∈ members.keys ↔ Due node excludeDids fog did := by
  rw [h.due_iff, Table.keys_eq_map, List.mem_map]
  constructor
  · rintro ⟨e, he, rfl⟩
    obtain ⟨rec, hj, hdid, -⟩ := h.joins_of_member hm he
    exact ⟨rec, hj, hdid⟩
  · rintro ⟨rec, hj, rfl⟩
    exact hj.member hm

/-- The members are as many as the due devices. -/
theorem Inv.ncard_due (h : Inv node fog) :
    (dueDids node excludeDids fog).ncard = members.size := by
  have hset : dueDids node excludeDids fog = ↑members.keys.toFinset := by
    ext did
    rw [List.coe_toFinset]
    exact (h.mem_keys_iff hm).symm
  have hnd : members.keys.Nodup := by
    rw [Table.keys_eq_map]
    exact members.nodup_keys
  rw [hset, Set.ncard_coe_finset, List.toFinset_card_of_nodup hnd, Table.keys_eq_map,
    List.length_map, Table.size_eq_length]

theorem Inv.member_identity (h : Inv node fog) {e : PendingEntry} (he : e ∈ members.values) :
    ∃ pk, (e.did, pk) ∈ dueIdentities node excludeDids fog ∧ fromhex e.publicKey = .ok pk ∧
      leafHash P e.did pk = .ok e.leaf := by
  obtain ⟨rec, hok⟩ := h.member_ok (member_of_collect hm (Table.mem_values.mp he))
  obtain ⟨pk, hpk, hhash⟩ := hok.entry
  have hdue : Due node excludeDids fog e.did := by
    rw [← h.mem_keys_iff hm, Table.keys_eq_map]
    exact List.mem_map_of_mem he
  exact ⟨pk, ⟨hdue, rec, hok.get, hok.key_eq.symm.trans hpk⟩, hpk, hhash⟩

theorem Inv.mem_leaves_iff (h : Inv node fog) {leaf : Bytes} :
    leaf ∈ sortedLeaves members ↔
      ∃ id ∈ dueIdentities node excludeDids fog, leafHash P id.1 id.2 = .ok leaf := by
  rw [(sortedLeaves_perm members).mem_iff, List.mem_map]
  constructor
  · rintro ⟨e, he, rfl⟩
    obtain ⟨pk, hid, -, hhash⟩ := h.member_identity hm he
    exact ⟨_, hid, hhash⟩
  · rintro ⟨⟨did, pk⟩, hid, hhash⟩
    have hkey : did ∈ members.keys := (h.mem_keys_iff hm).mpr hid.1
    rw [Table.keys_eq_map] at hkey
    obtain ⟨e, he, rfl⟩ := List.mem_map.mp hkey
    obtain ⟨pk', ⟨-, rec', hrec', hpk'⟩, -, hhash'⟩ := h.member_identity hm he
    obtain ⟨-, rec, hrec, hpk⟩ := hid
    rw [hrec] at hrec'
    cases hrec'
    rw [hpk] at hpk'
    cases hpk'
    rw [hhash] at hhash'
    exact ⟨e, he, (Except.ok.inj hhash').symm⟩

/-- Where the due identities do not collide their leaves make up a tree. -/
theorem Inv.tree_of_members (h : Inv node fog) (hne : members.values ≠ [])
    (hcol : NoCollision P (idInput '' dueIdentities node excludeDids fog)) :
    ∃ tree, MerkleTree.init (nodeHash P) (sortedLeaves members) false = .ok tree := by
  have hlen := sortedLeaves_length fun e he ↦
    (h.member_ok (member_of_collect hm (Table.mem_values.mp he))).choose_spec.entry
  have hnonempty : sortedLeaves members ≠ [] := by
    rw [Ne, ← List.length_eq_zero_iff, (sortedLeaves_perm members).length_eq]
    simpa using hne
  have hnd : (sortedLeaves members).Nodup := by
    rw [(sortedLeaves_perm members).nodup_iff]
    refine members.nodup_keys.of_map _ |>.map_on fun e he e' he' hleaf ↦ ?_
    obtain ⟨pk, hid, -, hhash⟩ := h.member_identity hm he
    obtain ⟨pk', hid', -, hhash'⟩ := h.member_identity hm he'
    rw [← hleaf] at hhash'
    have hsame : (e.did, pk) = (e'.did, pk') :=
      identity_unique hcol hhash hhash' (Set.mem_image_of_mem _ hid) (Set.mem_image_of_mem _ hid')
    exact List.inj_on_of_nodup_map members.nodup_keys he he' (congrArg Prod.fst hsame)
  obtain ⟨tree, htree, -, -⟩ := init_ok (computes_nodeHash P) false hnonempty hlen hnd
  exact ⟨tree, htree⟩

end members

section packages

variable {members : Batch} {epochId : ℤ} {tree : MerkleTree} {pkgs : PackageSet}

theorem PackagesOf.mem_keys_iff (h : PackagesOf node epochId members tree pkgs) {did : String} :
    did ∈ pkgs.keys ↔ did ∈ members.keys := by
  rw [Table.keys_eq_map, Table.keys_eq_map, List.mem_map, List.mem_map]
  constructor
  · rintro ⟨pkg, hpkg, rfl⟩
    obtain ⟨e, he, hof⟩ := h.sound pkg hpkg
    exact ⟨e, he, hof.did_eq.symm⟩
  · rintro ⟨e, he, rfl⟩
    obtain ⟨pkg, hpkg, hof⟩ := h.complete e he
    exact ⟨pkg, hpkg, hof.did_eq⟩

theorem PackagesOf.leaf_texts (h : PackagesOf node epochId members tree pkgs) :
    pkgs.values.map ProofPackage.leaf = tree.leaves.map toHex := by
  rw [h.leaves_eq, List.map_map]
  apply List.map_congr_left
  intro pkg hpkg
  obtain ⟨e, -, hof⟩ := h.sound pkg hpkg
  rw [Function.comp_apply, hof.leafOf_eq, hof.leaf_eq]

theorem PackagesOf.length_eq (h : PackagesOf node epochId members tree pkgs)
    (hleaves : tree.leaves = sortedLeaves members) : pkgs.values.length = members.size := by
  have hlen := congrArg List.length h.leaf_texts
  rwa [List.length_map, List.length_map, hleaves, (sortedLeaves_perm members).length_eq,
    List.length_map, ← Table.size_eq_length members] at hlen

theorem view_texts (pkgs : List ProofPackage) (n : ℕ) :
    ((pkgs.zipIdx n).map fun (pkg, i) ↦ (i, pkg.leaf, pkg.did)).map (fun row ↦ row.2.1) =
      pkgs.map ProofPackage.leaf := by
  induction pkgs generalizing n with
  | nil => rfl
  | cons pkg pkgs ih => simp only [List.zipIdx_cons, List.map_cons, ih]

end packages

theorem Inv.own_package (h : Inv node fog) {members : Batch} {new carried : ℕ}
    {tree : MerkleTree} {pkgs : PackageSet}
    (hm : collectMembers node fog (blockedDids fog.devices excludeDids) =
      .ok (members, new, carried))
    (hp : PackagesOf node fog.epochs.currentEpochId members tree pkgs)
    (hresult : Reports node env fog new carried tree pkgs result) {did : String}
    {pkg : ProofPackage} (hpkg : pkgs.get? did = some pkg) :
    OwnPackage P (dueIdentities node excludeDids fog) result did pkg := by
  obtain rfl := Table.key_of_get? hpkg
  obtain ⟨e, he, hof⟩ := hp.sound pkg (Table.mem_values.mpr hpkg)
  obtain ⟨pk, hid, hpk, hhash⟩ := h.member_identity hm he
  rw [← hof.did_eq] at hid hhash
  rw [← hof.key_eq] at hpk
  exact ⟨rfl, hof.epoch_eq.trans hresult.epoch_eq.symm, hof.root_eq.trans hresult.root_eq.symm,
    pk, e.leaf, hid, hpk, hhash, hof.leaf_eq⟩

theorem Inv.registers (h : Inv node fog) {members : Batch} {new carried : ℕ}
    {tree : MerkleTree} {pkgs : PackageSet}
    (hm : collectMembers node fog (blockedDids fog.devices excludeDids) =
      .ok (members, new, carried))
    (hp : PackagesOf node fog.epochs.currentEpochId members tree pkgs) {did : String}
    {rec : DeviceRecord} (hdid : did ∈ pkgs.keys) (hrec : fog.devices.get? did = some rec) :
    (commitDevices fog.epochs.currentEpochId pkgs.values fog.devices).get? did =
      some { rec with status := .registered, epochId := some fog.epochs.currentEpochId } := by
  rw [Table.keys_eq_map] at hdid
  obtain ⟨pkg, hpkg, rfl⟩ := List.mem_map.mp hdid
  obtain ⟨e, rec', hok, hof⟩ := h.package_ok hm hp hpkg
  have hrec' := hok.get
  rw [← hof.did_eq, hrec] at hrec'
  cases hrec'
  have hget := get?_commitDevices (Table.nodup_keys pkgs) fog.epochs.currentEpochId
    fog.devices hpkg
  rw [hrec, hof.leaf_eq, ← hok.leaf_eq] at hget
  exact hget

/-- An epoch that closes is exact. -/
theorem Inv.exact_epoch (h : Inv node fog)
    (hf : Finalizing node env excludeDids fog (.ok result) fog') :
    ExactEpoch node excludeDids fog result fog' := by
  cases hf with
  | @closed members new carried tree pkgs _ hm he ht hr hd hp hresult =>
    obtain ⟨-, -, hnd, hleaves, -⟩ := built_of_init (computes_nodeHash P) ht
    rw [if_neg Bool.false_ne_true] at hleaves
    have hkeys : ∀ did, did ∈ pkgs.keys ↔ Due node excludeDids fog did :=
      fun did ↦ hp.mem_keys_iff.trans (h.mem_keys_iff hm)
    have hcard := h.ncard_due hm
    have hlen := hp.length_eq hleaves
    refine ⟨hresult.epoch_eq, ?_, ?_, ?_, ?_, ?_, ?_, ?_, ?_, ?_, rfl⟩
    · refine ⟨sortedLeaves members, ⟨⟨tree, ht, hresult.root_eq⟩,
        strict_of_sorted (sortBytes_sorted _) hnd, fun leaf ↦ h.mem_leaves_iff hm⟩, ?_⟩
      rw [hresult.view_eq, view_texts, hp.leaf_texts, hleaves]
    · rw [hresult.packages_eq]
      exact hkeys
    · rw [hresult.packages_eq]
      exact fun did pkg hpkg ↦ h.own_package hm hp hresult hpkg
    · rw [hresult.new_eq, hresult.carried_eq, hcard]
      exact collectMembers_size hm
    · have hsize : (anchorBlock node env fog tree).leafCount = tree.leaves.length := rfl
      rw [hresult.block_eq, hcard, ← hlen, hsize, hp.leaves_eq, List.length_map]
    · rw [hresult.view_eq, List.length_map, List.length_zipIdx, hlen, hcard]
    · intro did rec hdue hrec
      rw [hresult.epoch_eq]
      exact h.registers hm hp ((hkeys did).mpr hdue) hrec
    · intro did hnot
      apply get?_commitDevices_of_not_mem
      rwa [← Table.keys_eq_map, hkeys]
    · rw [hresult.packages_eq, hresult.epoch_eq]
      exact Dict.get?_set_self _ _ _

theorem Inv.exact_of_ok (h : Inv node fog)
    (hout : finalizeEpoch node env excludeDids fog = (.ok result, fog')) :
    ExactEpoch node excludeDids fog result fog' := by
  obtain ⟨out, fog₁, hcase, hf⟩ := finalizeEpoch_cases node env excludeDids fog
  rw [hout] at hcase
  cases hcase
  exact h.exact_epoch hf

/-- Where no device is due there is nothing to finalize. -/
theorem Inv.nothing_due (h : Inv node fog) (env : Env)
    (hnone : ∀ did, ¬ Due node excludeDids fog did) :
    finalizeEpoch node env excludeDids fog =
      (.error (.epochError "nothing to finalize: the batch is empty"), fog) := by
  obtain ⟨members, new, carried, hm⟩ := h.collect_total (blockedDids fog.devices excludeDids)
  have hempty : members.values = [] := by
    rw [List.eq_nil_iff_forall_not_mem]
    intro e he
    apply hnone e.did
    rw [← h.mem_keys_iff hm, Table.keys_eq_map]
    exact List.mem_map_of_mem he
  simp only [finalizeEpoch, hm, if_pos (Table.values_eq_nil.mpr hempty)]

theorem LedgerOk.unanchored {ledger : Ledger} {current : ℤ} (h : LedgerOk ledger current)
    (hall : ledger.blocks = ledger.file.getD []) : ledger.getRoot current = none := by
  obtain ⟨-, -, hbase, -⟩ := h.inFile
  rw [h.cache, Dict.lookup_eq_none, map_fst_anchors, hall]
  intro hmem
  obtain ⟨b, hb, hcurrent⟩ := List.mem_map.mp hmem
  exact absurd hcurrent (ne_of_lt (hbase b hb))

/-- Where a device is due, no leaves collide and saving succeeds, the epoch closes. -/
theorem Inv.closes (h : Inv node fog) (hdue : ∃ did, Due node excludeDids fog did)
    (hcol : NoCollision P (idInput '' dueIdentities node excludeDids fog))
    (hsaved : AllSaved fog) (hdisk : env.disk = none) :
    ∃ result fog', finalizeEpoch node env excludeDids fog = (.ok result, fog') ∧
      ExactEpoch node excludeDids fog result fog' := by
  obtain ⟨members, new, carried, hm⟩ := h.collect_total (blockedDids fog.devices excludeDids)
  have hne : members.values ≠ [] := by
    obtain ⟨did, hdid⟩ := hdue
    rw [← h.mem_keys_iff hm, Table.keys_eq_map] at hdid
    exact fun hnil ↦ by simp [hnil] at hdid
  obtain ⟨tree, htree⟩ := h.tree_of_members hm hne hcol
  have hroot := h.ledger.unanchored hsaved
  obtain ⟨out, fog', hout, hf⟩ := finalizeEpoch_cases node env excludeDids fog
  rw [hout]
  cases hf with
  | unreadable hm' =>
    rw [hm] at hm'
    cases hm'
  | empty hm' he =>
    rw [hm] at hm'
    cases hm'
    exact absurd he hne
  | badLeaves hm' he ht =>
    rw [hm] at hm'
    cases hm'
    rw [htree] at ht
    cases ht
  | anchored hm' he ht hr =>
    rw [hroot] at hr
    cases hr
  | unsaved hm' he ht hr hd =>
    rw [hdisk] at hd
    cases hd
  | closed hm' he ht hr hd hp hresult =>
    exact ⟨_, _, rfl, h.exact_epoch (.closed hm' he ht hr hd hp hresult)⟩

/-- The root is determined by the identities it commits to. -/
theorem RootOf.root_unique {ids : Set Identity} {root root' : String} {leaves leaves' : List Bytes}
    (h : RootOf P ids root leaves) (h' : RootOf P ids root' leaves') : root = root' := by
  have hleaves : leaves = leaves' :=
    h.increasing.eq_of_mem_iff h'.increasing fun leaf ↦
      (h.mem_iff leaf).trans (h'.mem_iff leaf).symm
  obtain ⟨tree, htree, hroot⟩ := h.root
  obtain ⟨tree', htree', hroot'⟩ := h'.root
  rw [hleaves, htree'] at htree
  cases htree
  exact hroot.trans hroot'.symm

theorem allSaved_effect (h : AllSaved fog) {request : Request} {r : Response}
    (he : Effect node env fog request r fog') (hdisk : env.disk = none) : AllSaved fog' := by
  cases he with
  | finalizing hf =>
    cases hf with
    | unsaved hm he ht hr hd =>
      rw [hdisk] at hd
      cases hd
    | closed => rfl
    | _ => exact h
  | _ => exact h

theorem allSaved_after (node : Node P) {actions : List Action}
    (h : ∀ e, .request e ∈ actions → e.env.disk = none) :
    AllSaved (afterActions node Fog.init actions) := by
  induction actions using List.reverseRecOn with
  | nil => rfl
  | append_singleton actions a ih =>
    have hbefore := ih fun e he ↦ h e (List.mem_append_left _ he)
    rw [afterActions, run_snoc]
    cases a with
    | request e => exact allSaved_effect hbefore (step_effect node _ e) (h e (by simp))
    | restart => rfl

/-- In every fog that requests and restarts lead to, membership of the next epoch is
exact, and its root is determined by the due identities. -/
theorem membership_exact (node : Node P) (actions : List Action) (excludeDids : List String)
    (env : Env) {fog : Fog} (hfog : afterActions node Fog.init actions = fog) :
    ((∀ did, ¬ Due node excludeDids fog did) → finalizeEpoch node env excludeDids fog =
      (.error (.epochError "nothing to finalize: the batch is empty"), fog)) ∧
    ((∃ did, Due node excludeDids fog did) →
      NoCollision P (idInput '' dueIdentities node excludeDids fog) →
      AllSaved fog → env.disk = none →
      ∃ result fog', finalizeEpoch node env excludeDids fog = (.ok result, fog') ∧
        ExactEpoch node excludeDids fog result fog') ∧
    ((∀ e, .request e ∈ actions → e.env.disk = none) → AllSaved fog) ∧
    ∀ (node' : Node P) actions' excludeDids' env' result result' fog₁ fog₁',
      finalizeEpoch node env excludeDids fog = (.ok result, fog₁) →
      finalizeEpoch node' env' excludeDids' (afterActions node' Fog.init actions') =
        (.ok result', fog₁') →
      dueIdentities node excludeDids fog =
        dueIdentities node' excludeDids' (afterActions node' Fog.init actions') →
      result.root = result'.root := by
  subst hfog
  have hinv : Inv node (afterActions node Fog.init actions) := inv_afterActions actions
  refine ⟨hinv.nothing_due env, hinv.closes, allSaved_after node, ?_⟩
  intro node' actions' excludeDids' env' result result' fog₁ fog₁' hclose hclose' hids
  obtain ⟨leaves, hroot, -⟩ := (hinv.exact_of_ok hclose).leaves
  obtain ⟨leaves', hroot', -⟩ := ((inv_afterActions actions').exact_of_ok hclose').leaves
  rw [← hids] at hroot'
  exact hroot.root_unique hroot'

/-- What is hashed for the devices on record. -/
def recordInputs (fog : Fog) : List Bytes :=
  fog.devices.values.map fun rec ↦ idInput (rec.did, (fromhex rec.publicKey).toOption.getD [])

theorem due_inputs (node : Node P) (excludeDids : List String) (fog : Fog) :
    idInput '' dueIdentities node excludeDids fog ⊆ {b | b ∈ recordInputs fog} := by
  rintro _ ⟨⟨did, pk⟩, ⟨-, rec, hrec, hpk⟩, rfl⟩
  obtain rfl : rec.did = did := Table.key_of_get? hrec
  refine List.mem_map.mpr ⟨rec, Table.mem_values.mpr hrec, ?_⟩
  rw [show fromhex rec.publicKey = .ok pk from hpk]
  rfl

theorem registration_saves {key : PlainKey} {moment : ℕ} {seed : UInt8} {e : Event}
    (h : e ∈ registration key moment seed) : e.env.disk = none := by
  simp only [registration, List.mem_cons, List.not_mem_nil, or_false] at h
  rcases h with rfl | rfl | rfl | rfl <;> rfl

/-- A device is registered, and then two more are queued. -/
def mixedActions : List Action :=
  (registration (plainKey 7) 0 7 ++ [plainEvent 1 3 (.epochClose [] (some "admin"))] ++
    registration (plainKey 8) 2 8 ++ registration (plainKey 9) 2 9).map .request

def mixedFog : Fog := afterActions plainNode Fog.init mixedActions

theorem mixedFog_devices :
    (mixedFog.devices.get? (plainDid 7)).map DeviceRecord.status = some .registered ∧
      (mixedFog.epochs.pending.get? (plainDid 8)).isSome ∧
      (mixedFog.epochs.pending.get? (plainDid 9)).isSome ∧
      plainDid 7 ≠ plainDid 9 ∧ plainDid 8 ≠ plainDid 9 ∧
      (mixedFog.devices.byStatus .revoked).length = 0 ∧
      findCollision plainPlatform (recordInputs mixedFog) = none := by
  decide +kernel

/-- The registered device is carried over, one of the queued ones joins it and the other one
is excluded. -/
theorem membership_exact_queued :
    Due plainNode [plainDid 9] mixedFog (plainDid 7) ∧
      Due plainNode [plainDid 9] mixedFog (plainDid 8) ∧
      (mixedFog.epochs.pending.get? (plainDid 9)).isSome ∧
      ∃ result fog',
        finalizeEpoch plainNode (plainEnv 3 4 none) [plainDid 9] mixedFog = (.ok result, fog') ∧
        ExactEpoch plainNode [plainDid 9] mixedFog result fog' := by
  obtain ⟨hregistered, hpending, hexcluded, h79, h89, hrevoked, hfind⟩ := mixedFog_devices
  have hlive : ∀ did rec, mixedFog.devices.get? did = some rec → rec.status ≠ .revoked := by
    intro did rec hrec hs
    have hmem := mem_byStatus.mpr ⟨Table.get?_key hrec, hs⟩
    rw [List.length_eq_zero_iff.mp hrevoked] at hmem
    cases hmem
  have hcarried : Due plainNode [plainDid 9] mixedFog (plainDid 7) :=
    ⟨by simpa using h79, hlive _, .inr ⟨rfl, Option.map_eq_some_iff.mp hregistered⟩⟩
  have hjoins : Due plainNode [plainDid 9] mixedFog (plainDid 8) :=
    ⟨by simpa using h89, hlive _, .inl hpending⟩
  obtain ⟨-, hcloses, hsaved, -⟩ := membership_exact plainNode mixedActions [plainDid 9]
    (plainEnv 3 4 none) (show afterActions plainNode Fog.init mixedActions = mixedFog from rfl)
  refine ⟨hcarried, hjoins, hexcluded, hcloses ⟨_, hcarried⟩ ?_ (hsaved fun e he ↦ ?_) rfl⟩
  · exact (noCollision_of_find hfind).mono (due_inputs plainNode [plainDid 9] mixedFog)
  · obtain ⟨e', he', heq⟩ := List.mem_map.mp he
    cases heq
    simp only [List.mem_append, List.mem_singleton] at he'
    rcases he' with ((h | rfl) | h) | h
    · exact registration_saves h
    · rfl
    · exact registration_saves h
    · exact registration_saves h

end FogNode.Proofs
