import FogNode.Proofs.Instance
import FogNode.Proofs.Reachable

namespace FogNode.Proofs

open FogNode.Library FogNode.Source

variable {P : Platform} {fog fog' : Fog} {calls : List (EpochCall P)} {blocks : List Block}

/-- The fog after the listed calls, from where there is no ledger file. -/
abbrev epochsAfter (calls : List (EpochCall P)) : Fog := run callEpochs Fog.init calls

/-- The epochs that the calls finalized. -/
abbrev finalizedEpochs (calls : List (EpochCall P)) : List EpochResult :=
  outputs callEpochs finalizedBy Fog.init calls

/-- If the call finalizes an epoch, then saving the ledger succeeds. -/
def Saves : EpochCall P → Prop
  | .finalizeEpoch _ env _ _ => env.disk = none
  | _ => True

/-- The blocks are of the epochs from the first on, in order. -/
def Numbered (blocks : List Block) : Prop :=
  ∀ (k : ℕ) (b : Block), blocks[k]? = some b → b.epochId = k + 1 ∧ b.blockIndex = k

theorem Numbered.append {b : Block} (h : Numbered blocks) (hepoch : b.epochId = blocks.length + 1)
    (hindex : b.blockIndex = blocks.length) : Numbered (blocks ++ [b]) := by
  intro k c hc
  rcases lt_trichotomy k blocks.length with hk | rfl | hk
  · rw [List.getElem?_append_left hk] at hc
    exact h k c hc
  · rw [List.getElem?_concat_length] at hc
    cases hc
    exact ⟨hepoch, hindex⟩
  · rw [List.getElem?_eq_none (by simp; omega)] at hc
    cases hc

theorem Numbered.last {b : Block} (h : Numbered blocks) (hb : blocks.getLast? = some b) :
    b.epochId = blocks.length := by
  rw [List.getLast?_eq_getElem?] at hb
  obtain ⟨hlt, -⟩ := List.getElem?_eq_some_iff.mp hb
  have hid := (h _ b hb).1
  omega

theorem Numbered.mem_iff (h : Numbered blocks) {epochId : ℤ} :
    epochId ∈ blocks.map Block.epochId ↔ 1 ≤ epochId ∧ epochId ≤ blocks.length := by
  rw [List.mem_map]
  constructor
  · rintro ⟨b, hb, rfl⟩
    obtain ⟨k, hk⟩ := List.mem_iff_getElem?.mp hb
    obtain ⟨hlt, -⟩ := List.getElem?_eq_some_iff.mp hk
    have hid := (h k b hk).1
    omega
  · rintro ⟨hone, hle⟩
    have hlt : epochId.toNat - 1 < blocks.length := by omega
    have hget := List.getElem?_eq_getElem hlt
    refine ⟨_, List.getElem_mem hlt, ?_⟩
    have hid := (h _ _ hget).1
    omega

/-- The file holds the ledger, its blocks are numbered, and the manager comes next. -/
structure InStep (fog : Fog) : Prop where
  ledger : LedgerOk fog.ledger fog.epochs.currentEpochId
  written : fog.ledger.file.getD [] = fog.ledger.blocks
  numbered : Numbered fog.ledger.blocks
  current : fog.epochs.currentEpochId = fog.ledger.blocks.length + 1

theorem inStep_init : InStep Fog.init :=
  ⟨ledgerOk_empty, rfl, fun _ _ hb ↦ by simp [Fog.init, Fog.create, Ledger.load] at hb, rfl⟩

theorem InStep.getRoot_isSome_iff (h : InStep fog) {epochId : ℤ} :
    (fog.ledger.getRoot epochId).isSome ↔ 1 ≤ epochId ∧ epochId < fog.epochs.currentEpochId := by
  rw [h.ledger.cache, Option.isSome_iff_ne_none, Ne, Dict.lookup_eq_none, not_not,
    map_fst_anchors, h.numbered.mem_iff, h.current]
  omega

theorem InStep.unanchored (h : InStep fog) :
    fog.ledger.getRoot fog.epochs.currentEpochId = none := by
  rw [← Option.not_isSome_iff_eq_none, h.getRoot_isSome_iff]
  omega

/-- A restart goes on with the number that comes next. -/
theorem InStep.restart (h : InStep fog) (signed : List Bytes) :
    InStep (Fog.create fog.ledger.file signed) where
  ledger := h.ledger.load
  written := rfl
  numbered := by
    have hload : (Fog.create fog.ledger.file signed).ledger.blocks = fog.ledger.blocks := h.written
    rw [hload]
    exact h.numbered
  current := by
    have hload : (Fog.create fog.ledger.file signed).ledger.blocks = fog.ledger.blocks := h.written
    have hinit : (Fog.create fog.ledger.file signed).epochs.currentEpochId =
        ((fog.ledger.blocks.getLast?.map Block.epochId).map (· + 1)).getD 1 := by
      rw [← hload]
      rfl
    rw [hinit, hload]
    cases hlast : fog.ledger.blocks.getLast? with
    | none =>
      rw [List.getLast?_eq_none_iff.mp hlast]
      rfl
    | some b => simp only [Option.map_some, Option.getD_some, h.numbered.last hlast]

theorem InStep.finalizing {node : Node P} {env : Env} {excludeDids : List String}
    {out : Except PyError EpochResult} (h : InStep fog) (hdisk : env.disk = none)
    (hf : Finalizing node env excludeDids fog out fog') :
    InStep fog' ∧ fog'.ledger.blocks =
      fog.ledger.blocks ++ (out.toOption.map EpochResult.block).toList ∧
      ∀ result, out = .ok result → result.epochId = result.block.epochId := by
  cases hf with
  | unreadable | empty | badLeaves | anchored =>
    exact ⟨h, (List.append_nil _).symm, fun _ hok ↦ by cases hok⟩
  | unsaved hm he ht hr hd =>
    rw [hdisk] at hd
    cases hd
  | @closed members new carried tree pkgs result hm he ht hr hd hp hresult =>
    have hblock : (anchorBlock node env fog tree).epochId = fog.ledger.blocks.length + 1 :=
      h.current
    refine ⟨⟨?_, rfl, h.numbered.append hblock rfl, ?_⟩, ?_, ?_⟩
    · refine (h.ledger.append hr rfl).save fun b hb ↦ ?_
      have hle := (h.numbered.append hblock rfl).mem_iff.mp (List.mem_map_of_mem hb)
      rw [List.length_append, List.length_singleton] at hle
      have hcurrent := h.current
      change b.epochId < fog.epochs.currentEpochId + 1
      omega
    · have hcurrent := h.current
      simp only [finalized, saved, appended, nextManager, List.length_append, List.length_singleton]
      omega
    · simp only [Except.toOption, Option.map_some, hresult.block_eq]
      rfl
    · rintro _ ⟨⟩
      rw [hresult.epoch_eq, hresult.block_eq]
      rfl

/-- Neither a device that cannot be carried forward nor a bad set of leaves is
reported as an error of the ledger. -/
theorem carryForward_error {blocked : List String} {pending : Batch} {recs : List DeviceRecord}
    {members : Batch} {n : ℕ} {e : PyError}
    (h : carryForward blocked pending recs members n = .error e) (msg : String) :
    e ≠ .ledgerError msg := by
  induction recs generalizing members n with
  | nil => cases h
  | cons rec recs ih =>
    simp only [carryForward] at h
    split at h
    case isFalse => exact ih h
    case isTrue =>
      cases hleaf : rec.leaf with
      | none =>
        simp only [hleaf, Except.error.injEq] at h
        rw [← h]
        exact fun he ↦ by cases he
      | some text =>
        cases hhex : fromhex text with
        | ok leaf =>
          simp only [hleaf, hhex] at h
          exact ih h
        | error err =>
          simp only [hleaf, hhex, Except.error.injEq] at h
          rw [← h]
          obtain ⟨msg', rfl⟩ := fromhex_error hhex
          exact fun he ↦ by cases he

theorem init_not_ledgerError {leaves : List Bytes} {e : PyError}
    (h : MerkleTree.init (nodeHash P) leaves false = .error e) (msg : String) :
    e ≠ .ledgerError msg := by
  by_cases hbad : leaves = [] ∨ (∃ b ∈ leaves, b.length ≠ HASH_LEN) ∨ ¬ leaves.Nodup
  · obtain ⟨m, he⟩ := init_error (nodeHash P) false hbad
    rw [h] at he
    cases he
    exact fun he ↦ by cases he
  · push Not at hbad
    obtain ⟨tree, hok, -⟩ := init_ok (computes_nodeHash P) false hbad.1 hbad.2.1 hbad.2.2
    rw [h] at hok
    cases hok

theorem InStep.never_anchored (h : InStep fog) (node : Node P) (env : Env)
    (excludeDids : List String) (msg : String) :
    (finalizeEpoch node env excludeDids fog).1 ≠ .error (.ledgerError msg) := by
  obtain ⟨out, fog', hout, hf⟩ := finalizeEpoch_cases node env excludeDids fog
  rw [hout]
  intro herr
  dsimp only at herr
  cases hf with
  | unreadable hm =>
    unfold collectMembers at hm
    cases hc : carryForward (blockedDids fog.devices excludeDids) fog.epochs.pending
        (if node.carryForward then fog.devices.byStatus .registered else []) ∅ 0 with
    | error e =>
      simp only [hc] at hm
      exact carryForward_error hc msg ((Except.error.inj hm).trans (Except.error.inj herr))
    | ok out => simp [hc] at hm
  | empty hm he => cases herr
  | badLeaves hm he ht => exact init_not_ledgerError ht msg (Except.error.inj herr)
  | anchored hm he ht hr =>
    rw [h.unanchored] at hr
    cases hr
  | @unsaved members new carried tree fault hm he ht hr hd =>
    cases fault <;> cases herr
  | closed => cases herr

/-- The blocks in the ledger are those of the epochs finalized so far. -/
structure Recorded (calls : List (EpochCall P)) (fog : Fog) : Prop where
  inStep : InStep fog
  blocks_eq : fog.ledger.blocks = (finalizedEpochs calls).map EpochResult.block
  epochs : ∀ result ∈ finalizedEpochs calls, result.epochId = result.block.epochId

theorem addLeaf_keeps (fog : Fog) (did : String) (pkBytes : Bytes) :
    (callEpochs (P := P) fog (.addLeaf did pkBytes)).ledger = fog.ledger ∧
      (callEpochs (P := P) fog (.addLeaf did pkBytes)).epochs.currentEpochId =
        fog.epochs.currentEpochId := by
  simp only [callEpochs, EpochManager.addLeaf]
  split_ifs
  · exact ⟨rfl, rfl⟩
  · cases leafHash P did pkBytes <;> exact ⟨rfl, rfl⟩

theorem Recorded.call (h : Recorded calls (epochsAfter calls)) {call : EpochCall P}
    (hsaves : Saves call) : Recorded (calls ++ [call]) (callEpochs (epochsAfter calls) call) := by
  have hout : finalizedEpochs (calls ++ [call]) =
      finalizedEpochs calls ++ (finalizedBy (epochsAfter calls) call).toList := outputs_snoc _ _ _
  generalize epochsAfter calls = fog at h hout
  cases call with
  | addLeaf did pkBytes =>
    have hnone : finalizedBy (P := P) fog (.addLeaf did pkBytes) = none := rfl
    rw [hnone, Option.toList_none, List.append_nil] at hout
    obtain ⟨hledger, hcurrent⟩ := addLeaf_keeps (P := P) fog did pkBytes
    generalize callEpochs (P := P) fog (.addLeaf did pkBytes) = fog' at hledger hcurrent
    refine ⟨⟨?_, ?_, ?_, ?_⟩, ?_, hout ▸ h.epochs⟩
    · rw [hledger, hcurrent]
      exact h.inStep.ledger
    · rw [hledger]
      exact h.inStep.written
    · rw [hledger]
      exact h.inStep.numbered
    · rw [hledger, hcurrent]
      exact h.inStep.current
    · rw [hledger, hout, h.blocks_eq]
  | finalizeEpoch node env excludeDids devices =>
    have hdevices : InStep { fog with devices := devices } := 
      ⟨h.inStep.ledger, h.inStep.written, h.inStep.numbered, h.inStep.current⟩
    obtain ⟨out, fog', hcase, hf⟩ :=
      finalizeEpoch_cases node env excludeDids { fog with devices := devices }
    have hcall : callEpochs fog (.finalizeEpoch node env excludeDids devices) = fog' := by
      rw [callEpochs, hcase]
    have hby : finalizedBy fog (.finalizeEpoch node env excludeDids devices) = out.toOption := by
      rw [finalizedBy, hcase]
    obtain ⟨hstep, hblocks, hepoch⟩ := hdevices.finalizing hsaves hf
    rw [hcall]
    rw [hby] at hout
    refine ⟨hstep, ?_, ?_⟩
    · rw [hblocks, hout, List.map_append, ← h.blocks_eq]
      cases out <;> rfl
    · rw [hout]
      intro result hresult
      rcases List.mem_append.mp hresult with hold | hnew
      · exact h.epochs result hold
      · cases out with
        | error e => cases hnew
        | ok r =>
          cases List.mem_singleton.mp hnew
          exact hepoch _ rfl
  | restart =>
    have hnone : finalizedBy (P := P) fog .restart = none := rfl
    rw [hnone, Option.toList_none, List.append_nil] at hout
    refine ⟨h.inStep.restart _, ?_, hout ▸ h.epochs⟩
    rw [hout, ← h.blocks_eq]
    exact h.inStep.written

theorem recorded_after (h : ∀ call ∈ calls, Saves call) : Recorded calls (epochsAfter calls) := by
  induction calls using List.reverseRecOn with
  | nil => exact ⟨inStep_init, rfl, fun _ hr ↦ by cases hr⟩
  | append_singleton calls call ih =>
    have hbefore := ih fun c hc ↦ h c (List.mem_append_left _ hc)
    have hsnoc : epochsAfter (calls ++ [call]) = callEpochs (epochsAfter calls) call :=
      run_snoc _ _ _
    rw [hsnoc]
    exact hbefore.call (h call (by simp))

/-- Whatever is queued, finalized and restarted, the blocks are numbered from the first
on, every epoch before the current one is anchored, and the current one never is. -/
theorem epoch_numbering (calls : List (EpochCall P)) (h : ∀ call ∈ calls, Saves call) :
    (epochsAfter calls).ledger.blocks = (finalizedEpochs calls).map EpochResult.block ∧
    (∀ (k : ℕ) (result : EpochResult), (finalizedEpochs calls)[k]? = some result →
      result.epochId = k + 1 ∧ result.block.epochId = k + 1 ∧ result.block.blockIndex = k) ∧
    (epochsAfter calls).epochs.currentEpochId = (epochsAfter calls).ledger.blocks.length + 1 ∧
    (∀ epochId, ((epochsAfter calls).ledger.getRoot epochId).isSome ↔
      1 ≤ epochId ∧ epochId < (epochsAfter calls).epochs.currentEpochId) ∧
    ∀ (node : Node P) env excludeDids devices msg,
      (finalizeEpoch node env excludeDids { epochsAfter calls with devices := devices }).1 ≠
        .error (.ledgerError msg) := by
  have hrec := recorded_after h
  refine ⟨hrec.blocks_eq, ?_, hrec.inStep.current, fun epochId ↦ hrec.inStep.getRoot_isSome_iff, ?_⟩
  · intro k result hk
    have hblock : (epochsAfter calls).ledger.blocks[k]? = some result.block := by
      rw [hrec.blocks_eq, List.getElem?_map, hk]
      rfl
    obtain ⟨hepoch, hindex⟩ := hrec.inStep.numbered k _ hblock
    exact ⟨(hrec.epochs result (List.mem_of_getElem? hk)).trans hepoch, hepoch, hindex⟩
  · intro node env excludeDids devices msg
    have hdevices : InStep { epochsAfter calls with devices := devices } :=
      ⟨hrec.inStep.ledger, hrec.inStep.written, hrec.inStep.numbered, hrec.inStep.current⟩
    exact hdevices.never_anchored node env excludeDids msg

/-- Two epochs with a failed call and a restart between them. -/
def restartBetween : List (EpochCall plainPlatform) :=
  let queue (seed : UInt8) : EpochCall plainPlatform :=
    .addLeaf (plainDid seed) (plainPlatform.publicBytes (plainKey seed))
  let close : EpochCall plainPlatform := .finalizeEpoch plainNode (plainEnv 1 3 none) [] ∅
  [close, queue 7, close, close, .restart, queue 8, close]

theorem epoch_numbering_restart :
    (finalizedEpochs restartBetween).map EpochResult.epochId = [1, 2] ∧
      (epochsAfter restartBetween).epochs.currentEpochId = 3 := by
  have hlen : (finalizedEpochs restartBetween).length = 2 := by decide +kernel
  have hsaves : ∀ call ∈ restartBetween, Saves call := by simp [restartBetween, Saves, plainEnv]
  obtain ⟨hblocks, hids, hcurrent, -⟩ := epoch_numbering restartBetween hsaves
  generalize finalizedEpochs restartBetween = results at hlen hblocks hids
  generalize epochsAfter restartBetween = fog at hblocks hcurrent
  obtain ⟨r, r', rfl⟩ := List.length_eq_two.mp hlen
  refine ⟨?_, ?_⟩
  · simp only [List.map_cons, List.map_nil, (hids 0 r rfl).1, (hids 1 r' rfl).1]
    rfl
  · rw [hcurrent, hblocks]
    rfl

end FogNode.Proofs
