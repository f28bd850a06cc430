import FogNode.Proofs.Instance
import FogNode.Proofs.Steps

namespace FogNode.Proofs

open FogNode.Library FogNode.Source

variable {P : Platform} {node : Node P} {excludeDids : List String} {fog fog' : Fog}

/-- The device of the record would be a member of the epoch. -/
structure Joins (node : Node P) (excludeDids : List String) (fog : Fog) (rec : DeviceRecord) :
    Prop where
  get : fog.devices.get? rec.did = some rec
  free : rec.did ∉ excludeDids
  live : rec.status ≠ .revoked
  due : (fog.epochs.pending.get? rec.did).isSome ∨
    (node.carryForward = true ∧ rec.status = .registered)

/-- Nothing stands between the call and the writing of the ledger file. -/
structure ReachesFile (node : Node P) (excludeDids : List String) (fog : Fog) : Prop where
  some_joins : ∃ rec, Joins node excludeDids fog rec
  distinct : ∀ rec rec', Joins node excludeDids fog rec → Joins node excludeDids fog rec' →
    rec.leaf = rec'.leaf → rec = rec'
  unanchored : fog.ledger.getRoot fog.epochs.currentEpochId = none

/-- The ledger in memory and in its file, the manager and the records are as before. -/
def AsBefore (fog fog' : Fog) : Prop :=
  fog'.ledger = fog.ledger ∧ fog'.epochs = fog.epochs ∧ fog'.devices = fog.devices

/-- With a working disk, a later call ends as one ends that was made before. -/
def RetriesAlike (node : Node P) (excludeDids : List String) (fog fog' : Fog) : Prop :=
  ∀ env, env.disk = none →
    (finalizeEpoch node env excludeDids fog').1 = (finalizeEpoch node env excludeDids fog).1

theorem Inv.collect_total (h : Inv node fog) (blocked : List String) :
    ∃ members new carried, collectMembers node fog blocked = .ok (members, new, carried) := by
  obtain ⟨⟨kept, n⟩, hc⟩ : ∃ out, carryForward blocked fog.epochs.pending
      (if node.carryForward then fog.devices.byStatus .registered else []) ∅ 0 = .ok out := by
    refine carryForward_total ∅ 0 fun rec hrec ↦ ?_
    split at hrec
    case isTrue =>
      obtain ⟨hget, hstatus⟩ := mem_byStatus.mp hrec
      have hok := h.records _ rec hget
      obtain ⟨text, htext⟩ := Option.ne_none_iff_exists'.mp (hok.committed (.inr hstatus))
      obtain ⟨pk, leaf, -, -, rfl⟩ := hok.leaf text htext
      exact ⟨_, leaf, htext, fromhex_toHex leaf⟩
    case isFalse => simp at hrec
  exact ⟨kept.addAll (newEntries blocked fog.epochs.pending),
    (newEntries blocked fog.epochs.pending).length, n, by simp only [collectMembers, hc]⟩

section members

variable {members : Batch} {new carried : ℕ}
  (hm : collectMembers node fog (blockedDids fog.devices excludeDids) = .ok (members, new, carried))

include hm

theorem Inv.joins_of_member (h : Inv node fog) {e : PendingEntry} (he : e ∈ members.values) :
    ∃ rec, Joins node excludeDids fog rec ∧ rec.did = e.did ∧ rec.leaf = some (toHex e.leaf) := by
  have hentry := member_of_collect hm (Table.mem_values.mp he)
  obtain ⟨rec, hok⟩ := h.member_ok hentry
  obtain hdid : rec.did = e.did := Table.key_of_get? hok.get
  refine ⟨rec, ⟨hdid ▸ hok.get, hdid ▸ hok.free, hok.live, ?_⟩, hdid, hok.leaf_eq⟩
  rw [hdid]
  rcases hentry with ⟨hpending, -⟩ | ⟨hforward, rec', hrec', hstatus, hc⟩
  · exact .inl (by rw [hpending]; rfl)
  · obtain rfl : rec = rec' := by
      have hget := hok.get
      rw [hc.did_eq, hrec'] at hget
      exact (Option.some.inj hget).symm
    exact .inr ⟨hforward, hstatus⟩

theorem Joins.member {rec : DeviceRecord} (hj : Joins node excludeDids fog rec) :
    ∃ e ∈ members.values, e.did = rec.did := by
  have hfree : rec.did ∉ blockedDids fog.devices excludeDids := by
    rw [mem_blockedDids]
    rintro (hx | ⟨rec', hrec', hs⟩)
    · exact hj.free hx
    · rw [hj.get] at hrec'
      cases hrec'
      exact hj.live hs
  have hsome : (members.get? rec.did).isSome := by
    cases hpending : fog.epochs.pending.get? rec.did with
    | some e => rw [pending_mem_members hm hpending hfree]; rfl
    | none =>
      obtain ⟨hforward, hstatus⟩ := hj.due.resolve_left (by simp [hpending])
      obtain ⟨kept, rfl, -, hc⟩ := collectMembers_ok hm
      rw [if_pos hforward] at hc
      have hkept := carryForward_complete hc (mem_byStatus.mpr ⟨hj.get, hstatus⟩) hfree hpending
      rwa [Table.get?_addAll_of_not_mem]
      rintro hmem
      obtain ⟨e, he, hdid⟩ := List.mem_map.mp hmem
      have hget := (mem_newEntries.mp he).1
      rw [hdid, hpending] at hget
      cases hget
  obtain ⟨e, he⟩ := Option.isSome_iff_exists.mp hsome
  exact ⟨e, Table.mem_values.mpr (Table.get?_key he), Table.key_of_get? he⟩

theorem Inv.exists_joins_iff (h : Inv node fog) :
    (∃ rec, Joins node excludeDids fog rec) ↔ members.values ≠ [] := by
  constructor
  · rintro ⟨rec, hj⟩ hnil
    obtain ⟨e, he, -⟩ := hj.member hm
    rw [hnil] at he
    simp at he
  · intro hne
    obtain ⟨e, he⟩ := List.exists_mem_of_ne_nil _ hne
    obtain ⟨rec, hj, -⟩ := h.joins_of_member hm he
    exact ⟨rec, hj⟩

theorem Inv.distinct_iff (h : Inv node fog) :
    (∀ rec rec', Joins node excludeDids fog rec → Joins node excludeDids fog rec' →
      rec.leaf = rec'.leaf → rec = rec') ↔ (sortedLeaves members).Nodup := by
  rw [(sortedLeaves_perm members).nodup_iff]
  have hdids : (members.values.map PendingEntry.did).Nodup := members.nodup_keys
  constructor
  · intro hdistinct
    refine hdids.of_map _ |>.map_on fun e he e' he' hleaf ↦ ?_
    obtain ⟨rec, hj, hdid, hl⟩ := h.joins_of_member hm he
    obtain ⟨rec', hj', hdid', hl'⟩ := h.joins_of_member hm he'
    obtain rfl := hdistinct rec rec' hj hj' (by rw [hl, hl', hleaf])
    exact List.inj_on_of_nodup_map hdids he he' (hdid.symm.trans hdid')
  · intro hnd rec rec' hj hj' hleaf
    obtain ⟨e, he, hdid⟩ := hj.member hm
    obtain ⟨e', he', hdid'⟩ := hj'.member hm
    obtain ⟨r, hr, hrdid, hrl⟩ := h.joins_of_member hm he
    obtain ⟨r', hr', hrdid', hrl'⟩ := h.joins_of_member hm he'
    obtain rfl : r = rec := by
      have hget := hr.get
      rw [hrdid, hdid, hj.get] at hget
      exact (Option.some.inj hget).symm
    obtain rfl : r' = rec' := by
      have hget := hr'.get
      rw [hrdid', hdid', hj'.get] at hget
      exact (Option.some.inj hget).symm
    rw [hrl, hrl', Option.some.injEq, toHex_inj] at hleaf
    obtain rfl := List.inj_on_of_nodup_map hnd he he' hleaf
    have hget := hj.get
    rw [← hdid, hdid', hj'.get] at hget
    exact (Option.some.inj hget).symm

end members

theorem sortedLeaves_length {members : Batch} (h : ∀ e ∈ members.values, EntryOk P e) :
    ∀ leaf ∈ sortedLeaves members, leaf.length = HASH_LEN := by
  intro leaf hleaf
  rw [(sortedLeaves_perm members).mem_iff] at hleaf
  obtain ⟨e, he, rfl⟩ := List.mem_map.mp hleaf
  obtain ⟨pk, -, hhash⟩ := h e he
  exact leafHash_length hhash

theorem Inv.reaches_file (h : Inv node fog) {members : Batch} {new carried : ℕ}
    {tree : MerkleTree}
    (hm : collectMembers node fog (blockedDids fog.devices excludeDids) =
      .ok (members, new, carried))
    (he : members.values ≠ [])
    (ht : MerkleTree.init (nodeHash P) (sortedLeaves members) false = .ok tree)
    (hr : fog.ledger.getRoot fog.epochs.currentEpochId = none) :
    ReachesFile node excludeDids fog := by
  obtain ⟨-, -, hnd, -⟩ := built_of_init (computes_nodeHash P) ht
  exact ⟨(h.exists_joins_iff hm).mpr he, (h.distinct_iff hm).mpr hnd, hr⟩

/-- Finalizing raises either before it changes anything, or because the block it has
just appended cannot be saved. -/
theorem Inv.raises_cases (h : Inv node fog) {env : Env} {e : PyError}
    (hf : Finalizing node env excludeDids fog (.error e) fog') :
    (fog' = fog ∧ ¬ ReachesFile node excludeDids fog) ∨
      (fog'.ledger.blocks.length = fog.ledger.blocks.length + 1 ∧
        env.disk ≠ none ∧ ReachesFile node excludeDids fog) := by
  cases hf with
  | unreadable hm =>
    obtain ⟨members, new, carried, hok⟩ := h.collect_total (blockedDids fog.devices excludeDids)
    rw [hm] at hok
    cases hok
  | empty hm he =>
    exact .inl ⟨rfl, fun hr ↦ (h.exists_joins_iff hm).mp hr.some_joins he⟩
  | @badLeaves members _ _ _ hm he ht =>
    refine .inl ⟨rfl, fun hr ↦ ?_⟩
    have hne : sortedLeaves members ≠ [] := by
      rw [Ne, ← List.length_eq_zero_iff, (sortedLeaves_perm members).length_eq]
      simpa using he
    have hlen := sortedLeaves_length fun e he ↦
      (h.member_ok (member_of_collect hm (Table.mem_values.mp he))).choose_spec.entry
    obtain ⟨tree, hok, -, -⟩ := init_ok (computes_nodeHash P) false hne hlen
      ((h.distinct_iff hm).mp hr.distinct)
    rw [ht] at hok
    cases hok
  | anchored hm he ht hroot =>
    refine .inl ⟨rfl, fun hr ↦ ?_⟩
    rw [hr.unanchored] at hroot
    cases hroot
  | unsaved hm he ht hroot hd =>
    exact .inr ⟨by simp [Proofs.unsaved, appended], by simp [hd], h.reaches_file hm he ht hroot⟩

/-- A failed close changes nothing exactly when it did not fail in writing the file. -/
theorem close_atomic_iff (node : Node P) (actions : List Action) (env : Env)
    (excludeDids : List String) {e : PyError} {fog' : Fog}
    (h : finalizeEpoch node env excludeDids (afterActions node Fog.init actions) =
      (.error e, fog')) :
    (AsBefore (afterActions node Fog.init actions) fog' ∧
        RetriesAlike node excludeDids (afterActions node Fog.init actions) fog') ↔
      (env.disk = none ∨ ¬ ReachesFile node excludeDids (afterActions node Fog.init actions)) := by
  obtain ⟨out, fog₁, hout, hf⟩ :=
    finalizeEpoch_cases node env excludeDids (afterActions node Fog.init actions)
  rw [h] at hout
  cases hout
  rcases (inv_afterActions actions).raises_cases hf with ⟨rfl, hfar⟩ | ⟨hlen, hdisk, hfar⟩
  · exact ⟨fun _ ↦ .inr hfar, fun _ ↦ ⟨⟨rfl, rfl, rfl⟩, fun _ _ ↦ rfl⟩⟩
  · constructor
    · rintro ⟨⟨hledger, -, -⟩, -⟩
      rw [hledger] at hlen
      omega
    · rintro (hnone | hnot)
      · exact absurd hnone hdisk
      · exact absurd hfar hnot

/-- A device is queued, and its epoch is closed while the ledger file cannot be replaced. -/
def unsavedClose : List Action :=
  (registration (plainKey 7) 0 7).map .request ++
    [.request ⟨plainEnv 1 3 (some .replace), .epochClose [] (some "admin")⟩]

/-- The close is tried again with a working disk, and fails on the block in memory. -/
theorem close_atomic_iff_retry :
    (afterActions plainNode Fog.init unsavedClose).ledger.blocks.length = 1 ∧ ∃ e fog',
      finalizeEpoch plainNode (plainEnv 2 3 none) []
        (afterActions plainNode Fog.init unsavedClose) = (.error e, fog') ∧
      ((AsBefore (afterActions plainNode Fog.init unsavedClose) fog' ∧
          RetriesAlike plainNode [] (afterActions plainNode Fog.init unsavedClose) fog') ↔
        ((plainEnv 2 3 none).disk = none ∨
          ¬ ReachesFile plainNode [] (afterActions plainNode Fog.init unsavedClose))) := by
  have hrun : (afterActions plainNode Fog.init unsavedClose).ledger.blocks.length = 1 ∧
      (finalizeEpoch plainNode (plainEnv 2 3 none) []
        (afterActions plainNode Fog.init unsavedClose)).1.isOk = false := by
    decide +kernel
  obtain ⟨hblocks, hfailed⟩ := hrun
  refine ⟨hblocks, ?_⟩
  cases hclose : finalizeEpoch plainNode (plainEnv 2 3 none) []
      (afterActions plainNode Fog.init unsavedClose) with
  | mk out fog' =>
  rw [hclose] at hfailed
  cases out with
  | ok result => cases hfailed
  | error e => exact ⟨e, fog', rfl, close_atomic_iff plainNode unsavedClose _ [] hclose⟩

/-- A close of that fog for which the ledger file cannot be replaced. -/
def failedClose : Except PyError EpochResult × Fog :=
  finalizeEpoch plainNode (plainEnv 1 3 (some .replace)) [] queuedFog

/-- The block of the failed close stays in memory, and with a working disk the same
close then fails where it would have succeeded before. -/
theorem close_not_atomic :
    queuedFog = afterActions plainNode Fog.init ((registration (plainKey 7) 0 7).map .request) ∧
      failedClose.1.isOk = false ∧ ¬ AsBefore queuedFog failedClose.2 ∧
      (finalizeEpoch plainNode (plainEnv 2 3 none) [] failedClose.2).1.isOk = false ∧
      (finalizeEpoch plainNode (plainEnv 2 3 none) [] queuedFog).1.isOk = true ∧
      ¬ RetriesAlike plainNode [] queuedFog failedClose.2 := by
  have hrun : failedClose.1.isOk = false ∧
      failedClose.2.ledger.blocks.length ≠ queuedFog.ledger.blocks.length ∧
      (finalizeEpoch plainNode (plainEnv 2 3 none) [] failedClose.2).1.isOk = false ∧
      (finalizeEpoch plainNode (plainEnv 2 3 none) [] queuedFog).1.isOk = true := by
    decide +kernel
  obtain ⟨hfailed, hlen, hretry, hgood⟩ := hrun
  refine ⟨rfl, hfailed, fun h ↦ hlen (congrArg (·.blocks.length) h.1), hretry, hgood,
    fun h ↦ ?_⟩
  have he := congrArg Except.isOk (h (plainEnv 2 3 none) rfl)
  rw [hretry, hgood] at he
  cases he

/-- No epoch is closed, and the current one stays anchored but open. -/
structure Stuck (fog fog' : Fog) : Prop where
  current_eq : fog'.epochs.currentEpochId = fog.epochs.currentEpochId
  packages_eq : fog'.epochs.packages = fog.epochs.packages
  anchored : (fog'.ledger.getRoot fog'.epochs.currentEpochId).isSome

theorem Stuck.effect {fog₀ : Fog} (h : Stuck fog₀ fog) {env : Env} {request : Request}
    {r : Response} (he : Effect node env fog request r fog') : Stuck fog₀ fog' := by
  cases he with
  | finalizing hf =>
    have hsome := h.anchored
    cases hf with
    | unsaved hm he ht hr => rw [hr] at hsome; cases hsome
    | closed hm he ht hr => rw [hr] at hsome; cases hsome
    | _ => exact h
  | _ => exact ⟨h.current_eq, h.packages_eq, h.anchored⟩

/-- Once a block is in memory that could not be saved, no later request closes an
epoch before the process is restarted. -/
theorem stuck_after (h : (fog.ledger.getRoot fog.epochs.currentEpochId).isSome)
    (events : List Event) : Stuck fog (after node fog events) := by
  have hstep : ∀ g e, Stuck fog g → Stuck fog (step node g e) :=
    fun g e hg ↦ hg.effect (step_effect node g e)
  exact run_invariant hstep ⟨rfl, rfl, h⟩ events

end FogNode.Proofs
