import FogNode.Proofs.Instance
import FogNode.Proofs.Possession

namespace FogNode.Proofs

open FogNode.Library FogNode.Source

variable {P : Platform} {node : Node P} {env : Env} {fog fog' : Fog} {did : String}

/-- The package that the fog holds for the device in the epoch. -/
def packageIn (fog : Fog) (did : String) (epochId : ℤ) : Option ProofPackage :=
  fog.epochs.getPackage did (some epochId)

/-- The roots of two epochs include the device. -/
def InTwoEpochs (fog : Fog) (did : String) : Prop :=
  ∃ epochId epochId', epochId ≠ epochId' ∧ (packageIn fog did epochId).isSome ∧
    (packageIn fog did epochId').isSome

/-- The packages tell of the device what its entry in the epoch was. -/
structure SameEntry (p q : ProofPackage) : Prop where
  did_eq : p.did = q.did
  key_eq : p.publicKey = q.publicKey
  leaf_eq : p.leaf = q.leaf

/-- All packages of the device carry the same entry. -/
def SameEntries (fog : Fog) (did : String) : Prop :=
  ∀ epochId epochId' p q, packageIn fog did epochId = some p →
    packageIn fog did epochId' = some q → SameEntry p q

theorem packageIn_eq_some {epochId : ℤ} {p : ProofPackage} :
    packageIn fog did epochId = some p ↔
      ∃ pkgs, fog.epochs.packages.get? epochId = some pkgs ∧ pkgs.get? did = some p :=
  Option.bind_eq_some_iff

/-- A package of the device agrees with its record in the leaf and in the key bytes. -/
theorem Inv.package_committed (h : Inv node fog) {epochId : ℤ} {p : ProofPackage}
    (hp : packageIn fog did epochId = some p) :
    p.did = did ∧ epochId < fog.epochs.currentEpochId ∧ Committed fog.devices p := by
  obtain ⟨pkgs, hpkgs, hget⟩ := packageIn_eq_some.mp hp
  have hdid : p.did = did := Table.key_of_get? hget
  have hmem : p ∈ pkgs.values := by
    rw [Table.mem_values, hdid]
    exact hget
  exact ⟨hdid, (h.epochs.finalized epochId pkgs hpkgs).1,
    h.epochs.committed epochId pkgs hpkgs p hmem⟩

/-- Whatever spelling was accepted, the packages agree but for the spelling of the key. -/
theorem Inv.same_identity (h : Inv node fog) {epochId epochId' : ℤ} {p q : ProofPackage}
    (hp : packageIn fog did epochId = some p) (hq : packageIn fog did epochId' = some q) :
    p.did = q.did ∧ p.leaf = q.leaf ∧ fromhex p.publicKey = fromhex q.publicKey := by
  obtain ⟨hdid, -, rec, hrec, hleaf, hkey, -⟩ := h.package_committed hp
  obtain ⟨hdid', -, rec', hrec', hleaf', hkey', -⟩ := h.package_committed hq
  rw [hdid] at hrec
  rw [hdid', hrec] at hrec'
  cases hrec'
  rw [hleaf] at hleaf'
  exact ⟨hdid.trans hdid'.symm, Option.some.inj hleaf', hkey.trans hkey'.symm⟩

/-- The first package of the device spells its key as `bytes.hex()` does, and all
later ones spell it as its record does. -/
structure FirstEntry (fog : Fog) (did : String) (first : ℤ) : Prop where
  spelled : ∃ p pk, packageIn fog did first = some p ∧ p.publicKey = toHex pk
  later : ∀ epochId q, packageIn fog did epochId = some q → epochId = first ∨
    (first < epochId ∧ ∃ rec, fog.devices.get? did = some rec ∧ q.publicKey = rec.publicKey)

/-- An entry that spells its key as `bytes.hex()` does, of a device without packages. -/
structure FreshEntry (fog : Fog) (e : PendingEntry) : Prop where
  spelled : ∃ pk, e.publicKey = toHex pk
  unissued : ∀ epochId, packageIn fog e.did epochId = none

/-- A queued device has no package yet, a registered one has, and the packages of
a device start with the queued entry. -/
structure EntriesOk (fog : Fog) : Prop where
  queued : Everywhere (FreshEntry fog) fog.epochs.pending.get?
  registered : ∀ did rec, fog.devices.get? did = some rec → rec.status = .registered →
    ∃ epochId p, packageIn fog did epochId = some p
  issued : ∀ did epochId p, packageIn fog did epochId = some p → ∃ first, FirstEntry fog did first

/-- A spelling that is on record for a device stays there. -/
theorem spelling_kept (hadv : Advance fog.devices fog'.devices) {key : String}
    (h : ∃ rec, fog.devices.get? did = some rec ∧ key = rec.publicKey) :
    ∃ rec, fog'.devices.get? did = some rec ∧ key = rec.publicKey :=
  hadv.settled (fun _ _ hkey ha ↦ hkey.trans ha.key_eq.symm) h

theorem EntriesOk.advance (h : EntriesOk fog)
    (hqueued : Everywhere (FreshEntry fog) fog'.epochs.pending.get?)
    (hpackages : fog'.epochs.packages = fog.epochs.packages)
    (hadv : Advance fog.devices fog'.devices)
    (hreg : NoneNew .registered fog.devices fog'.devices) : EntriesOk fog' := by
  have hsame : packageIn fog' = packageIn fog := by
    funext did epochId
    simp only [packageIn, EpochManager.getPackage, hpackages]
  constructor
  · intro did e he
    obtain ⟨hspelled, hunissued⟩ := hqueued did e he
    exact ⟨hspelled, by rw [hsame]; exact hunissued⟩
  · intro did rec' hrec' hs
    obtain ⟨rec, hrec, hs⟩ := hreg did rec' hrec' hs
    rw [hsame]
    exact h.registered did rec hrec hs
  · intro did epochId p hp
    rw [hsame] at hp
    obtain ⟨first, hfirst⟩ := h.issued did epochId p hp
    refine ⟨first, by rw [hsame]; exact hfirst.spelled, fun epochId q hq ↦ ?_⟩
    rw [hsame] at hq
    apply (hfirst.later epochId q hq).imp_right
    intro hlater
    exact ⟨hlater.1, spelling_kept hadv hlater.2⟩

section finalize

variable {excludeDids : List String} {members : Batch} {new carried : ℕ} {tree : MerkleTree}
  {pkgs : PackageSet}

theorem packageIn_finalized (node : Node P) (env : Env) (fog : Fog) (tree : MerkleTree)
    (pkgs : PackageSet) (did : String) (epochId : ℤ) :
    packageIn (finalized node env fog tree pkgs) did epochId =
      if epochId = fog.epochs.currentEpochId then pkgs.get? did
      else packageIn fog did epochId := by
  simp only [packageIn, EpochManager.getPackage, finalized, nextManager, Dict.get?_set]
  split <;> rfl

/-- The packages that the fog holds stay as they are when an epoch is closed. -/
theorem Inv.packageIn_kept (h : Inv node fog) {epochId : ℤ} {p : ProofPackage}
    (hp : packageIn fog did epochId = some p) :
    packageIn (Proofs.finalized node env fog tree pkgs) did epochId = some p := by
  have hlt := (h.package_committed hp).2.1
  rw [packageIn_finalized, if_neg (ne_of_lt hlt)]
  exact hp

/-- A package of the epoch being closed comes from a queued entry, spelled as
`bytes.hex()` does, or from the record of a registered device. -/
theorem EntriesOk.new_package (h : EntriesOk fog)
    (hm : collectMembers node fog (blockedDids fog.devices excludeDids) =
      .ok (members, new, carried))
    (hp : PackagesOf node fog.epochs.currentEpochId members tree pkgs) {q : ProofPackage}
    (hq : pkgs.get? did = some q) :
    ((∃ pk, q.publicKey = toHex pk) ∧ ∀ epochId, packageIn fog did epochId = none) ∨
      ∃ rec, fog.devices.get? did = some rec ∧ rec.status = .registered ∧
        q.publicKey = rec.publicKey := by
  obtain rfl : q.did = did := Table.key_of_get? hq
  obtain ⟨e, he, hof⟩ := hp.sound q (Table.mem_values.mpr hq)
  rw [hof.key_eq, hof.did_eq]
  rcases member_of_collect hm (Table.mem_values.mp he) with
    ⟨hpending, -⟩ | ⟨-, rec, hrec, hstatus, hcarried⟩
  · obtain ⟨hspelled, hunissued⟩ := h.queued e.did e hpending
    exact .inl ⟨hspelled, hunissued⟩
  · rw [hcarried.did_eq]
    exact .inr ⟨rec, hrec, hstatus, hcarried.key_eq⟩

/-- The first entry of a device stays the first one. -/
theorem FirstEntry.finalized (hinv : Inv node fog) (h : EntriesOk fog)
    (hm : collectMembers node fog (blockedDids fog.devices excludeDids) =
      .ok (members, new, carried))
    (hp : PackagesOf node fog.epochs.currentEpochId members tree pkgs)
    (hadv : Advance fog.devices (Proofs.finalized node env fog tree pkgs).devices) {first : ℤ}
    (hfirst : FirstEntry fog did first) :
    FirstEntry (Proofs.finalized node env fog tree pkgs) did first := by
  obtain ⟨p, pk, hpkg, hspelled⟩ := hfirst.spelled
  have hlt := (hinv.package_committed hpkg).2.1
  refine ⟨⟨p, pk, hinv.packageIn_kept hpkg, hspelled⟩, fun epochId q hq ↦ ?_⟩
  rw [packageIn_finalized] at hq
  split at hq
  case isTrue hepoch =>
    subst hepoch
    rcases h.new_package hm hp hq with ⟨-, hnone⟩ | ⟨rec, hrec, -, hkey⟩
    · rw [hnone first] at hpkg
      cases hpkg
    · exact .inr ⟨hlt, spelling_kept hadv ⟨rec, hrec, hkey⟩⟩
  case isFalse =>
    apply (hfirst.later epochId q hq).imp_right
    intro hlater
    exact ⟨hlater.1, spelling_kept hadv hlater.2⟩

theorem EntriesOk.finalized (hinv : Inv node fog) (h : EntriesOk fog)
    (hm : collectMembers node fog (blockedDids fog.devices excludeDids) =
      .ok (members, new, carried))
    (hp : PackagesOf node fog.epochs.currentEpochId members tree pkgs)
    (hadv : Advance fog.devices (Proofs.finalized node env fog tree pkgs).devices) :
    EntriesOk (Proofs.finalized node env fog tree pkgs) := by
  have hold : ∀ did epochId p, packageIn fog did epochId = some p →
      ∃ first, FirstEntry (Proofs.finalized node env fog tree pkgs) did first := by
    intro did epochId p hpkg
    obtain ⟨first, hfirst⟩ := h.issued did epochId p hpkg
    exact ⟨first, hfirst.finalized hinv h hm hp hadv⟩
  constructor
  · intro did e he
    simp [Proofs.finalized, nextManager] at he
  · intro did rec' hrec' hstatus
    rcases commitDevices_cases (Table.nodup_keys pkgs) fog.devices did with
      ⟨hget, -⟩ | ⟨q, hq, rfl, -⟩
    · obtain ⟨epochId, p, hpkg⟩ := h.registered did rec' (hget.symm.trans hrec') hstatus
      exact ⟨epochId, p, hinv.packageIn_kept hpkg⟩
    · refine ⟨fog.epochs.currentEpochId, q, ?_⟩
      rw [packageIn_finalized, if_pos rfl]
      exact Table.mem_values.mp hq
  · intro did epochId q hq
    rw [packageIn_finalized] at hq
    split at hq
    case isFalse => exact hold did epochId q hq
    case isTrue hepoch =>
      rcases h.new_package hm hp hq with ⟨⟨pk, hspelled⟩, hnone⟩ | ⟨rec, hrec, hstatus, -⟩
      · refine ⟨fog.epochs.currentEpochId, ⟨q, pk, ?_, hspelled⟩, fun epochId' q' hq' ↦ ?_⟩
        · rw [packageIn_finalized, if_pos rfl]
          exact hq
        · rw [packageIn_finalized, hnone] at hq'
          split at hq'
          case isTrue hepoch' => exact .inl hepoch'
          case isFalse => cases hq'
      · obtain ⟨epochId', p, hpkg⟩ := h.registered did rec hrec hstatus
        exact hold did epochId' p hpkg

end finalize

/-- A device that proved possession has no package before its metadata are accepted. -/
theorem Inv.unissued (h : Inv node fog) {rec : DeviceRecord}
    (hrec : fog.devices.get? did = some rec) (hleaf : rec.leaf = none) (epochId : ℤ) :
    packageIn fog did epochId = none := by
  cases hp : packageIn fog did epochId with
  | none => rfl
  | some p =>
    obtain ⟨hdid, -, rec', hrec', hleaf', -⟩ := h.package_committed hp
    rw [hdid, hrec] at hrec'
    cases hrec'
    rw [hleaf] at hleaf'
    cases hleaf'

theorem EntriesOk.effect (hinv : Inv node fog) (h : EntriesOk fog) {request : Request}
    {r : Response} (he : Effect node env fog request r fog') : EntriesOk fog' := by
  have hadv := (hinv.effect he).2.devices
  have hnone : NoneNew .registered fog.devices fog.devices := fun _ rec hrec hs ↦ ⟨rec, hrec, hs⟩
  cases he with
  | popPassed => exact h.advance h.queued rfl hadv (upsert_noneNew (by decide))
  | unqueued => exact h.advance h.queued rfl hadv setMetadata_noneNew
  | @queued body s s' did publicKey record pk leaf fields hs hstate hdid hrec =>
    have hfresh : FreshEntry fog ⟨did, toHex pk, leaf⟩ :=
      ⟨⟨pk, rfl⟩, hinv.unissued hrec (hinv.proved hs hstate hdid hrec).2⟩
    refine h.advance (h.queued.insert (Table.get?_add fog.epochs.pending _) hfresh) rfl hadv ?_
    intro j rec' hrec' hs
    obtain ⟨rec, hrec, hs⟩ := setLeaf_noneNew j rec' hrec' hs
    exact setMetadata_noneNew j rec hrec hs
  | issued => exact h.advance h.queued rfl hadv (setStatus_noneNew (by decide))
  | deviceRevoked => exact h.advance h.queued rfl hadv (setStatus_noneNew (by decide))
  | finalizing hf =>
    cases hf with
    | closed hm he ht hr hd hp => exact h.finalized hinv hm hp hadv
    | _ => exact h.advance h.queued rfl hadv hnone
  | _ => exact h.advance h.queued rfl hadv hnone

theorem entriesOk_create (file : Option (List Block)) (signed : List Bytes) :
    EntriesOk (Fog.create file signed) where
  queued _ _ he := by simp [Fog.create, EpochManager.init] at he
  registered _ _ hrec := by simp [Fog.create] at hrec
  issued did epochId p hp := by
    obtain ⟨pkgs, hpkgs, -⟩ := packageIn_eq_some.mp hp
    simp [Fog.create, EpochManager.init] at hpkgs

theorem entries_after (node : Node P) (actions : List Action) :
    EntriesOk (afterActions node Fog.init actions) :=
  afterActions_invariant (entriesOk_create none [])
    (fun fog e hinv h ↦ h.effect hinv (step_effect node fog e))
    (fun fog _ _ ↦ entriesOk_create fog.ledger.file fog.signed) actions

/-- In the run the device submitted its key in this spelling and obtained a challenge. -/
def Submitted (node : Node P) (actions : List Action) (did text : String) : Prop :=
  ∃ earlier e later id challenge, actions = earlier ++ .request e :: later ∧
    Submits node (afterActions node Fog.init earlier) e id did text challenge

theorem Submitted.snoc {actions : List Action} {text : String}
    (h : Submitted node actions did text) (a : Action) :
    Submitted node (actions ++ [a]) did text := by
  obtain ⟨earlier, e, later, id, challenge, rfl, hsub⟩ := h
  exact ⟨earlier, e, later ++ [a], id, challenge, by simp, hsub⟩

/-- The keys of waiting sessions and of records are spelled as they were submitted. -/
structure SpelledAsSubmitted (node : Node P) (actions : List Action) (fog : Fog) : Prop where
  sessions : ∀ id s, fog.sessions.get? id = some s → s.state = .keySubmitted →
    ∃ did text, s.did = some did ∧ s.publicKey = some text ∧ Submitted node actions did text
  records : ∀ did rec, fog.devices.get? did = some rec → Submitted node actions did rec.publicKey

theorem spelled_as_submitted (node : Node P) (actions : List Action) :
    SpelledAsSubmitted node actions (afterActions node Fog.init actions) := by
  refine run_history (SpelledAsSubmitted node) ⟨fun id s hs ↦ ?_, fun did rec hrec ↦ ?_⟩
    (fun l a ih ↦ ?_) actions
  · simp [Fog.init, Fog.create] at hs
  · simp [Fog.init, Fog.create] at hrec
  cases a with
  | restart =>
    exact ⟨fun id s hs ↦ by simp [act, Fog.create] at hs,
      fun did rec hrec ↦ by simp [act, Fog.create] at hrec⟩
  | request e =>
    have hinv : Inv node (afterActions node Fog.init l) := inv_afterActions l
    have hc := challenges_afterActions node l
    constructor
    · intro id s hs hstate
      rcases hinv.waiting hc hs hstate with
        ⟨hold, -⟩ | ⟨_, did, text, challenge, -, hsub, hdid, hkey, -⟩
      · obtain ⟨did, text, hdid, hkey, hsub⟩ := ih.sessions id s hold hstate
        exact ⟨did, text, hdid, hkey, hsub.snoc _⟩
      · exact ⟨did, text, hdid, hkey, l, e, [], id, challenge, rfl, hsub⟩
    · intro did rec hrec
      rcases (step_effect node _ e).record hrec with
        ⟨rec₀, hrec₀, hkey⟩ | ⟨id, s, pk, challenge, signature, hpasses⟩
      · rw [← hkey]
        exact (ih.records did rec₀ hrec₀).snoc _
      · obtain ⟨text, -, hpop⟩ := hpasses.request_eq
        obtain ⟨did', text', hdid, hkey, hsub⟩ := ih.sessions id s hpasses.get hpasses.waiting
        rw [hpop.did_eq] at hdid
        rw [hpop.key_eq] at hkey
        cases hdid
        cases hkey
        exact hsub.snoc _

/-- The device is on record with the spelling of its key that it submitted. -/
structure RegisteredAs (node : Node P) (actions : List Action) (did text : String) : Prop where
  submitted : Submitted node actions did text
  recorded : ∃ rec, (afterActions node Fog.init actions).devices.get? did = some rec ∧
    rec.publicKey = text

theorem FirstEntry.exists_later {first : ℤ} (h : FirstEntry fog did first)
    (htwo : InTwoEpochs fog did) : ∃ epochId q rec, packageIn fog did epochId = some q ∧
      fog.devices.get? did = some rec ∧ q.publicKey = rec.publicKey := by
  have hlater : ∀ epochId, epochId ≠ first → (packageIn fog did epochId).isSome →
      ∃ epochId q rec, packageIn fog did epochId = some q ∧
        fog.devices.get? did = some rec ∧ q.publicKey = rec.publicKey := by
    intro epochId hne hsome
    obtain ⟨q, hq⟩ := Option.isSome_iff_exists.mp hsome
    obtain ⟨-, rec, hrec, hkey⟩ := (h.later epochId q hq).resolve_left hne
    exact ⟨epochId, q, rec, hq, hrec, hkey⟩
  obtain ⟨epochId, epochId', hne, hsome, hsome'⟩ := htwo
  by_cases hfirst : epochId = first
  · exact hlater epochId' (fun h ↦ hne (hfirst.trans h.symm)) hsome'
  · exact hlater epochId hfirst hsome

/-- With the key on record spelled as `bytes.hex()` does, every package has that spelling. -/
theorem EntriesOk.key_eq (h : EntriesOk fog) (hinv : Inv node fog) {rec : DeviceRecord}
    (hrec : fog.devices.get? did = some rec) {bytes : Bytes} (hbytes : rec.publicKey = toHex bytes)
    {epochId : ℤ} {p : ProofPackage} (hp : packageIn fog did epochId = some p) :
    p.publicKey = toHex bytes := by
  obtain ⟨first, hfirst⟩ := h.issued did epochId p hp
  rcases hfirst.later epochId p hp with rfl | ⟨-, rec', hrec', hkey⟩
  · obtain ⟨p', pk, hp', hspelled⟩ := hfirst.spelled
    rw [hp] at hp'
    cases hp'
    obtain ⟨hdid, -, rec', hrec', -, hkey, -⟩ := hinv.package_committed hp
    rw [hdid, hrec] at hrec'
    cases hrec'
    rw [hspelled, hbytes, fromhex_toHex, fromhex_toHex] at hkey
    cases hkey
    exact hspelled
  · rw [hrec] at hrec'
    cases hrec'
    exact hkey.trans hbytes

theorem EntriesOk.same_entries (h : EntriesOk fog) (hinv : Inv node fog) {rec : DeviceRecord}
    (hrec : fog.devices.get? did = some rec) {bytes : Bytes}
    (hbytes : rec.publicKey = toHex bytes) : SameEntries fog did := by
  intro epochId epochId' p q hp hq
  obtain ⟨hdid, hleaf, -⟩ := hinv.same_identity hp hq
  have hkey := h.key_eq hinv hrec hbytes hp
  have hkey' := h.key_eq hinv hrec hbytes hq
  exact ⟨hdid, hkey.trans hkey'.symm, hleaf⟩

/-- A device that only ever submits its key as `bytes.hex()` spells it has one entry. -/
theorem same_entries_of_submitted (node : Node P) (actions : List Action)
    (hall : ∀ text, Submitted node actions did text → ∃ bytes, text = toHex bytes) :
    SameEntries (afterActions node Fog.init actions) did := by
  intro epochId epochId' p q hp hq
  have hinv : Inv node (afterActions node Fog.init actions) := inv_afterActions actions
  have hok := entries_after node actions
  obtain ⟨hdid, -, rec, hrec, -⟩ := hinv.package_committed hp
  rw [hdid] at hrec
  obtain ⟨bytes, hbytes⟩ := hall _ ((spelled_as_submitted node actions).records did rec hrec)
  exact hok.same_entries hinv hrec hbytes epochId epochId' p q hp hq

/-- The packages of a device that is carried forward have the same entry exactly when
it submitted its key in the spelling of `bytes.hex()`. -/
theorem same_entries_iff (node : Node P) (actions : List Action) {did : String}
    (htwo : InTwoEpochs (afterActions node Fog.init actions) did) :
    SameEntries (afterActions node Fog.init actions) did ↔
      ∃ bytes, RegisteredAs node actions did (toHex bytes) := by
  have hinv : Inv node (afterActions node Fog.init actions) := inv_afterActions actions
  have hok := entries_after node actions
  constructor
  · intro hsame
    obtain ⟨epochId, p, hp⟩ : ∃ epochId p,
        packageIn (afterActions node Fog.init actions) did epochId = some p := by
      obtain ⟨epochId, -, -, hsome, -⟩ := htwo
      exact ⟨epochId, Option.isSome_iff_exists.mp hsome⟩
    obtain ⟨first, hfirst⟩ := hok.issued did epochId p hp
    obtain ⟨p₀, pk, hp₀, hspelled⟩ := hfirst.spelled
    obtain ⟨epochId', q, rec, hq, hrec, hkey⟩ := hfirst.exists_later htwo
    have hentry := hsame first epochId' p₀ q hp₀ hq
    have htext : rec.publicKey = toHex pk := by rw [← hkey, ← hentry.key_eq, hspelled]
    have hsub := (spelled_as_submitted node actions).records did rec hrec
    exact ⟨pk, htext ▸ hsub, rec, hrec, htext⟩
  · rintro ⟨bytes, -, rec, hrec, hbytes⟩
    exact hok.same_entries hinv hrec hbytes

/-- The device with the key of bytes 0xAB registers under the given spelling of the
key, and two epochs are closed. -/
def twoEpochs (text : String) : List Action :=
  let submission := .registerPubkey ⟨toHex (List.replicate 16 7), plainDid 0xAB, text⟩
  (((registration (plainKey 0xAB) 0 7).set 1 (plainEvent 0 7 submission)) ++
    [plainEvent 1 9 (.epochClose [] (some "admin")),
      plainEvent 2 9 (.epochClose [] (some "admin"))]).map .request

def upperText : String := "02ABABABABABABABABABABABABABABABABABABABABABABABABABABABABABABABAB"

def lowerText : String := "02abababababababababababababababababababababababababababababababab"

theorem twoEpochs_keys : ∀ text ∈ [upperText, lowerText],
    (packageIn (afterActions plainNode Fog.init (twoEpochs text)) (plainDid 0xAB) 1).map
        ProofPackage.publicKey = some lowerText ∧
      (packageIn (afterActions plainNode Fog.init (twoEpochs text)) (plainDid 0xAB) 2).map
        ProofPackage.publicKey = some text := by
  decide +kernel

theorem inTwoEpochs_of_keys {key key' : String}
    (h : (packageIn fog did 1).map ProofPackage.publicKey = some key ∧
      (packageIn fog did 2).map ProofPackage.publicKey = some key') : InTwoEpochs fog did := by
  obtain ⟨p, hp, -⟩ := Option.map_eq_some_iff.mp h.1
  obtain ⟨q, hq, -⟩ := Option.map_eq_some_iff.mp h.2
  exact ⟨1, 2, by decide, by rw [hp]; rfl, by rw [hq]; rfl⟩

theorem same_entries_iff_lower :
    SameEntries (afterActions plainNode Fog.init (twoEpochs lowerText)) (plainDid 0xAB) ↔
      ∃ bytes, RegisteredAs plainNode (twoEpochs lowerText) (plainDid 0xAB) (toHex bytes) :=
  same_entries_iff plainNode (twoEpochs lowerText)
    (inTwoEpochs_of_keys (twoEpochs_keys lowerText (by simp)))

/-- The batch path writes the key in lower case, and the carry-forward path as it came. -/
theorem entry_respelled :
    InTwoEpochs (afterActions plainNode Fog.init (twoEpochs upperText)) (plainDid 0xAB) ∧
      ¬ SameEntries (afterActions plainNode Fog.init (twoEpochs upperText)) (plainDid 0xAB) := by
  have hkeys := twoEpochs_keys upperText (by simp)
  refine ⟨inTwoEpochs_of_keys hkeys, fun hsame ↦ ?_⟩
  obtain ⟨p, hp, hkey⟩ := Option.map_eq_some_iff.mp hkeys.1
  obtain ⟨q, hq, hkey'⟩ := Option.map_eq_some_iff.mp hkeys.2
  have htexts := (hsame 1 2 p q hp hq).key_eq
  rw [hkey, hkey'] at htexts
  exact absurd htexts (by decide)

end FogNode.Proofs
