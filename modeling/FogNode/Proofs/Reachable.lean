import FogNode.Proofs.Invariant

namespace FogNode.Proofs

open FogNode.Library FogNode.Source

variable {P : Platform} {node : Node P}

section ledger

variable {ledger : Ledger} {current : ℤ}

theorem map_fst_anchors (blocks : List Block) :
    (anchors blocks).map Prod.fst = blocks.map Block.epochId := by
  simp [anchors, Function.comp_def]

theorem LedgerOk.lt_or_eq (h : LedgerOk ledger current) {b : Block} (hb : b ∈ ledger.blocks) :
    b.epochId < current ∨ b.epochId = current := by
  obtain ⟨tail, hblocks, hbase, htail⟩ := h.inFile
  rw [hblocks, List.mem_append] at hb
  exact hb.imp (hbase b) (htail b)

/-- While the current epoch is not anchored the file holds the whole ledger. -/
theorem LedgerOk.all_saved (h : LedgerOk ledger current) (hr : ledger.getRoot current = none) :
    ledger.blocks = ledger.file.getD [] := by
  obtain ⟨tail, hblocks, -, htail⟩ := h.inFile
  cases tail with
  | nil => rw [hblocks, List.append_nil]
  | cons b tail =>
    exfalso
    rw [h.cache, Dict.lookup_eq_none, map_fst_anchors, hblocks] at hr
    apply hr
    rw [← htail b List.mem_cons_self]
    exact List.mem_map_of_mem (List.mem_append_right _ List.mem_cons_self)

theorem LedgerOk.not_anchored (h : LedgerOk ledger current) (hr : ledger.getRoot current = none) :
    current ∉ ledger.blocks.map Block.epochId := by
  rwa [h.cache, Dict.lookup_eq_none, map_fst_anchors] at hr

theorem getRoot_appended (block : Block) (epochId : ℤ) :
    (appended ledger block).getRoot epochId =
      if epochId = block.epochId then some block.root else ledger.getRoot epochId :=
  Dict.get?_set _ _ _ _

theorem LedgerOk.append (h : LedgerOk ledger current) (hr : ledger.getRoot current = none)
    {block : Block} (hblock : block.epochId = current) :
    LedgerOk (appended ledger block) current where
  sorted := by
    have hall := h.all_saved hr
    obtain ⟨-, -, hbase, -⟩ := h.inFile
    simp only [appended, List.map_append, List.map_cons, List.map_nil]
    rw [List.pairwise_append]
    refine ⟨h.sorted, List.pairwise_singleton _ _, fun e he e' he' ↦ ?_⟩
    obtain ⟨b, hb, rfl⟩ := List.mem_map.mp he
    rw [List.mem_singleton.mp he', hblock]
    exact hbase b (hall ▸ hb)
  cache epochId := by
    have hnew : block.epochId ∉ (anchors ledger.blocks).map Prod.fst := by
      rw [map_fst_anchors, hblock]
      exact h.not_anchored hr
    have hput := Dict.put_of_not_mem (v := block.root) hnew
    have hanchors : anchors (appended ledger block).blocks =
        Dict.put block.epochId block.root (anchors ledger.blocks) := by
      rw [hput]
      simp [anchors, appended]
    rw [getRoot_appended, hanchors, Dict.lookup_put, h.cache]
  inFile := by
    obtain ⟨-, -, hbase, -⟩ := h.inFile
    refine ⟨[block], ?_, hbase, fun b hb ↦ List.mem_singleton.mp hb ▸ hblock⟩
    rw [appended, h.all_saved hr]

theorem LedgerOk.save (h : LedgerOk ledger current) {next : ℤ}
    (hnext : ∀ b ∈ ledger.blocks, b.epochId < next) : LedgerOk (saved ledger) next where
  sorted := h.sorted
  cache := h.cache
  inFile := ⟨[], by simp [saved], by simpa [saved] using hnext, fun _ hb ↦ by simp at hb⟩

theorem nodup_of_sorted {blocks : List Block}
    (h : (blocks.map Block.epochId).Pairwise (· < ·)) :
    ((anchors blocks).map Prod.fst).Nodup := by
  rw [map_fst_anchors]
  exact h.imp fun hlt ↦ ne_of_lt hlt

theorem LedgerOk.file_sorted (h : LedgerOk ledger current) :
    ((ledger.file.getD []).map Block.epochId).Pairwise (· < ·) := by
  obtain ⟨tail, hblocks, -, -⟩ := h.inFile
  have hsorted := h.sorted
  rw [hblocks, List.map_append] at hsorted
  exact (List.pairwise_append.mp hsorted).1

theorem le_last {blocks : List Block} (h : (blocks.map Block.epochId).Pairwise (· < ·))
    {b last : Block} (hlast : blocks.getLast? = some last) (hb : b ∈ blocks) :
    b.epochId ≤ last.epochId := by
  obtain ⟨init, rfl⟩ := List.getLast?_eq_some_iff.mp hlast
  rw [List.map_append, List.pairwise_append] at h
  rcases List.mem_append.mp hb with hb | hb
  · exact le_of_lt (h.2.2 _ (List.mem_map_of_mem hb) _ (by simp))
  · rw [List.mem_singleton.mp hb]

/-- What a restart reads back from the file is a ledger for the next epoch. -/
theorem LedgerOk.load (h : LedgerOk ledger current) :
    LedgerOk (Ledger.load ledger.file)
      (EpochManager.init (Ledger.load ledger.file)).currentEpochId where
  sorted := h.file_sorted
  cache := Dict.get?_ofList (nodup_of_sorted h.file_sorted)
  inFile := by
    refine ⟨[], by simp [Ledger.load], fun b hb ↦ ?_, fun _ hb ↦ by simp at hb⟩
    simp only [EpochManager.init, Ledger.latestEpoch, Ledger.load] at hb ⊢
    cases hlast : (ledger.file.getD []).getLast? with
    | none =>
      rw [List.getLast?_eq_none_iff.mp hlast] at hb
      simp at hb
    | some last =>
      have hle := le_last h.file_sorted hlast hb
      simp only [Option.map_some, Option.getD_some]
      omega

theorem ledgerOk_empty :
    LedgerOk (Ledger.load none) (EpochManager.init (Ledger.load none)).currentEpochId :=
  ⟨.nil, fun _ ↦ rfl, [], rfl, fun _ hb ↦ absurd hb List.not_mem_nil,
    fun _ hb ↦ absurd hb List.not_mem_nil⟩

end ledger

theorem inv_create {file : Option (List Block)} (signed : List Bytes)
    (h : LedgerOk (Ledger.load file) (EpochManager.init (Ledger.load file)).currentEpochId) :
    Inv node (Fog.create file signed) where
  sessions := sessionsOk_empty P _
  records _ _ hr := by simp [Fog.create] at hr
  queue _ _ he := by simp [Fog.create, EpochManager.init] at he
  tokens _ _ ht := by simp [Fog.create, TokenState.empty] at ht
  epochs :=
    ⟨fun _ _ hp ↦ by simp [Fog.create, EpochManager.init] at hp,
      fun _ _ hp ↦ by simp [Fog.create, EpochManager.init] at hp⟩
  ledger := h

theorem inv_init : Inv node Fog.init := inv_create [] ledgerOk_empty

section finalize

variable {env : Env} {excludeDids : List String} {fog : Fog} {members : Batch}
  {tree : MerkleTree} {pkgs : PackageSet}

/-- The record behind a member of the epoch being finalized. -/
structure MemberOk (P : Platform) (fog : Fog) (excludeDids : List String) (e : PendingEntry)
    (rec : DeviceRecord) : Prop where
  entry : EntryOk P e
  get : fog.devices.get? e.did = some rec
  leaf_eq : rec.leaf = some (toHex e.leaf)
  key_eq : fromhex e.publicKey = fromhex rec.publicKey
  live : rec.status ≠ .revoked
  free : e.did ∉ excludeDids

theorem Inv.member_ok (h : Inv node fog) {e : PendingEntry}
    (he : MemberEntry node fog (blockedDids fog.devices excludeDids) e) :
    ∃ rec, MemberOk P fog excludeDids e rec := by
  rcases he with ⟨hpending, hfree⟩ | ⟨-, rec, hrec, hstatus, hc⟩
  · obtain ⟨rec, hrec, hleaf, hkey, -⟩ := h.queue _ e hpending
    obtain ⟨pk, leaf, hpk, hhash, htext⟩ := (h.records _ rec hrec).leaf _ hleaf
    rw [mem_blockedDids, not_or, not_exists] at hfree
    refine ⟨rec, ⟨⟨pk, hkey.trans hpk, ?_⟩, hrec, hleaf, hkey,
      fun hs ↦ hfree.2 rec ⟨hrec, hs⟩, hfree.1⟩⟩
    rw [toHex_inj.mp htext, ← Table.key_of_get? hrec]
    exact hhash
  · obtain ⟨text, htext, hhex⟩ := hc.leaf
    obtain ⟨pk, leaf, hpk, hhash, rfl⟩ := (h.records _ rec hrec).leaf _ htext
    rw [fromhex_toHex] at hhex
    cases hhex
    have hfree := hc.free
    rw [mem_blockedDids, not_or] at hfree
    refine ⟨rec, ⟨⟨pk, by rw [hc.key_eq]; exact hpk, by rw [hc.did_eq]; exact hhash⟩,
      by rw [hc.did_eq]; exact hrec, htext, by rw [hc.key_eq], ?_,
      by rw [hc.did_eq]; exact hfree.1⟩⟩
    rw [hstatus]
    decide

theorem Inv.package_ok (h : Inv node fog) {new carried : ℕ}
    (hm : collectMembers node fog (blockedDids fog.devices excludeDids) =
      .ok (members, new, carried))
    (hp : PackagesOf node fog.epochs.currentEpochId members tree pkgs) {pkg : ProofPackage}
    (hpkg : pkg ∈ pkgs.values) :
    ∃ e rec, MemberOk P fog excludeDids e rec ∧
      PackageOf node fog.epochs.currentEpochId tree e pkg := by
  obtain ⟨e, he, hof⟩ := hp.sound pkg hpkg
  obtain ⟨rec, hok⟩ := h.member_ok (member_of_collect hm (Table.mem_values.mp he))
  exact ⟨e, rec, hok, hof⟩

theorem Inv.packaged_records (h : Inv node fog) {new carried : ℕ}
    (hm : collectMembers node fog (blockedDids fog.devices excludeDids) =
      .ok (members, new, carried))
    (hp : PackagesOf node fog.epochs.currentEpochId members tree pkgs) :
    ∀ pkg ∈ pkgs.values, ∃ rec, fog.devices.get? pkg.did = some rec ∧
      rec.leaf = some pkg.leaf ∧ rec.status ≠ .revoked := by
  intro pkg hpkg
  obtain ⟨e, rec, hok, hof⟩ := h.package_ok hm hp hpkg
  exact ⟨rec, hof.did_eq ▸ hok.get, hof.leaf_eq ▸ hok.leaf_eq, hok.live⟩

theorem Inv.unsaved (h : Inv node fog)
    (hr : fog.ledger.getRoot fog.epochs.currentEpochId = none) :
    Inv node (unsaved node env fog tree) :=
  { h with
    ledger := h.ledger.append hr rfl
    epochs :=
      { h.epochs with
        finalized := fun epochId pkgs hp ↦ by
          obtain ⟨hlt, tree', hof, hroot⟩ := h.epochs.finalized epochId pkgs hp
          refine ⟨hlt, tree', hof, ?_⟩
          exact (getRoot_appended _ _).trans ((if_neg (ne_of_lt hlt)).trans hroot) } }

theorem Inv.finalized (h : Inv node fog) {new carried : ℕ}
    (hm : collectMembers node fog (blockedDids fog.devices excludeDids) =
      .ok (members, new, carried))
    (hr : fog.ledger.getRoot fog.epochs.currentEpochId = none)
    (hp : PackagesOf node fog.epochs.currentEpochId members tree pkgs) :
    Inv node (finalized node env fog tree pkgs) := by
  have hnd := Table.nodup_keys pkgs
  have hrec := h.packaged_records hm hp
  have hadv := commitDevices_advance hnd hrec fog.epochs.currentEpochId
  refine ⟨?_, ?_, ?_, ?_, ⟨?_, ?_⟩, ?_⟩
  · simp only [Proofs.finalized, commitDevices_enrolled hnd hrec]
    exact h.sessions
  · exact commitDevices_records hnd hrec h.records
  · intro did e he
    simp [Proofs.finalized, nextManager] at he
  · exact h.tokens.advance hadv (commitDevices_noneNew hnd (by decide))
  · intro epochId pkgs' hpkgs'
    simp only [Proofs.finalized, nextManager, Dict.get?_set] at hpkgs'
    split at hpkgs'
    case isTrue he =>
      cases hpkgs'
      subst he
      refine ⟨by simp [Proofs.finalized, nextManager], tree, ⟨hp.tree_eq, hp.leaves_eq, ?_⟩, ?_⟩
      · intro pkg hpkg
        obtain ⟨e, rec, hok, hof⟩ := h.package_ok hm hp hpkg
        exact ⟨e, hok.entry, hof⟩
      · exact (getRoot_appended _ _).trans (if_pos rfl)
    case isFalse he =>
      obtain ⟨hlt, tree', hof, hroot⟩ := h.epochs.finalized epochId pkgs' hpkgs'
      refine ⟨hlt.trans (by simp [Proofs.finalized, nextManager]), tree', hof, ?_⟩
      exact (getRoot_appended _ _).trans ((if_neg he).trans hroot)
  · intro epochId pkgs' hpkgs' pkg hpkg
    simp only [Proofs.finalized, nextManager, Dict.get?_set] at hpkgs'
    split at hpkgs'
    case isTrue he =>
      cases hpkgs'
      obtain ⟨e, rec, hok, hof⟩ := h.package_ok hm hp hpkg
      have hget := get?_commitDevices hnd fog.epochs.currentEpochId fog.devices hpkg
      rw [hof.did_eq, hok.get] at hget
      refine ⟨_, by rw [hof.did_eq]; exact hget, rfl, ?_, le_refl _⟩
      rw [hof.key_eq, hok.key_eq]
    case isFalse he =>
      exact (h.epochs.advance hadv).committed epochId pkgs' hpkgs' pkg hpkg
  · refine (h.ledger.append hr rfl).save fun b hb ↦ ?_
    simp only [appended, List.mem_append, List.mem_singleton] at hb
    have hlt : b.epochId < fog.epochs.currentEpochId ∨
        b.epochId = fog.epochs.currentEpochId := by
      rcases hb with hb | rfl
      · exact h.ledger.lt_or_eq hb
      · exact .inr rfl
    have hnext : (Proofs.finalized node env fog tree pkgs).epochs.currentEpochId =
        fog.epochs.currentEpochId + 1 := rfl
    omega

end finalize

end FogNode.Proofs
