import FogNode.Proofs.Steps

namespace FogNode.Proofs

open FogNode.Library FogNode.Source

variable {P : Platform} {node : Node P} {env : Env} {fog fog' : Fog} {q pkg : ProofPackage}

/-- The signature of a package covers these fields. -/
structure SameClaim (q pkg : ProofPackage) : Prop where
  did_eq : q.did = pkg.did
  leaf_eq : q.leaf = pkg.leaf
  root_eq : q.root = pkg.root
  epoch_eq : q.epochId = pkg.epochId
  fog_eq : q.fogId = pkg.fogId

theorem message_eq_iff : q.message P = pkg.message P ↔ SameClaim q pkg := by
  constructor
  · intro h
    have hs := Json.canonical_sameDict P.floats h
    refine ⟨?_, ?_, ?_, ?_, ?_⟩
    · have hf := hs.field_str (show Json.field "did" (packageFields _ _ _ _ _) = _ from rfl)
      simpa [packageFields, Json.field] using hf
    · have hf := hs.field_str (show Json.field "leaf" (packageFields _ _ _ _ _) = _ from rfl)
      simpa [packageFields, Json.field] using hf
    · have hf := hs.field_str (show Json.field "root" (packageFields _ _ _ _ _) = _ from rfl)
      simpa [packageFields, Json.field] using hf
    · have hf := hs.field_int (show Json.field "epoch_id" (packageFields _ _ _ _ _) = _ from rfl)
      simpa [packageFields, Json.field] using hf
    · have hf := hs.field_str (show Json.field "fog_id" (packageFields _ _ _ _ _) = _ from rfl)
      simpa [packageFields, Json.field] using hf
  · rintro ⟨hdid, hleaf, hroot, hepoch, hfog⟩
    simp only [ProofPackage.message, hdid, hleaf, hroot, hepoch, hfog]

/-- A signature on a ledger block is not one on a package. -/
theorem message_ne_body (pkg : ProofPackage) (b : Block) :
    pkg.message P ≠ canonicalJson P b.body := by
  intro h
  have hs := Json.canonical_sameDict P.floats h
  have hf := hs.field_none (show Json.field "did" b.body = none by simp [Block.body, Json.field])
  simp [packageFields, Json.field] at hf

theorem message_ne_token (pkg : ProofPackage) {tokenId did publicKeyHex : String}
    {deviceType role : Option String} {key : P.PrivateKey} {coins : ℕ} {epochId ttl : ℤ}
    {now : ℚ} :
    pkg.message P ≠
      (issueToken P tokenId did publicKeyHex deviceType role key coins epochId ttl now).2 := by
  intro h
  rw [issueToken_message] at h
  have hs := Json.canonical_sameDict P.floats h
  have hf := hs.field_none (show Json.field "leaf" (tokenFields tokenId did publicKeyHex
    deviceType role epochId ttl now) = none by simp [tokenFields, Json.field])
  simp [packageFields, Json.field] at hf

/-- The packages that the manager holds. -/
def Held (fog : Fog) (q : ProofPackage) : Prop :=
  ∃ pkgs, fog.epochs.packages.get? q.epochId = some pkgs ∧ q ∈ pkgs.values

/-- Whatever package message was signed, it was for a package of the given ones. -/
def SignedFor (P : Platform) (issued : ProofPackage → Prop) (signed : List Bytes) : Prop :=
  ∀ pkg : ProofPackage, pkg.message P ∈ signed → ∃ q, issued q ∧ SameClaim q pkg

theorem SignedFor.mono {issued issued' : ProofPackage → Prop} {signed : List Bytes}
    (h : SignedFor P issued signed) (hmono : ∀ q, issued q → issued' q) :
    SignedFor P issued' signed := by
  intro pkg hpkg
  obtain ⟨q, hq, hsame⟩ := h pkg hpkg
  exact ⟨q, hmono q hq, hsame⟩

theorem SignedFor.append {issued : ProofPackage → Prop} {signed : List Bytes} {m : Bytes}
    (h : SignedFor P issued signed) (hm : ∀ pkg : ProofPackage, pkg.message P ≠ m) :
    SignedFor P issued (signed ++ [m]) := by
  intro pkg hpkg
  rcases List.mem_append.mp hpkg with hpkg | hpkg
  · exact h pkg hpkg
  · exact absurd (List.mem_singleton.mp hpkg) (hm pkg)

theorem SignedFor.effect {issued : ProofPackage → Prop} (h : SignedFor P issued fog.signed)
    {request : Request} {r : Response} (he : Effect node env fog request r fog') :
    SignedFor P (fun q ↦ issued q ∨ Held fog' q) fog'.signed := by
  have hold : SignedFor P (fun q ↦ issued q ∨ Held fog' q) fog.signed := h.mono fun _ ↦ .inl
  cases he with
  | issued => exact hold.append fun pkg ↦ message_ne_token pkg
  | finalizing hf =>
    cases hf with
    | unsaved => exact hold.append fun pkg ↦ message_ne_body pkg _
    | @closed members new carried tree pkgs result hm he ht hr hd hp =>
      intro pkg hpkg
      rcases List.mem_append.mp hpkg with hpkg | hpkg
      · exact (hold.append fun pkg ↦ message_ne_body pkg _) pkg hpkg
      · obtain ⟨q, hq, hmessage⟩ := List.mem_map.mp hpkg
        obtain ⟨e, -, hof⟩ := hp.sound q hq
        refine ⟨q, .inr ⟨pkgs, ?_, hq⟩, message_eq_iff.mp hmessage⟩
        rw [hof.epoch_eq]
        exact Dict.get?_set_self _ _ _
    | _ => exact hold
  | _ => exact hold

theorem Keeps.held (h : Keeps fog fog') (hq : Held fog q) : Held fog' q := by
  obtain ⟨pkgs, hget, hmem⟩ := hq
  exact ⟨pkgs, h.packages.eq_some hget, hmem⟩

/-- Without restarts the manager still holds all packages that were signed. -/
theorem signed_for_held (events : List Event) :
    SignedFor P (Held (after node Fog.init events)) (after node Fog.init events).signed := by
  have hstep : ∀ (fog : Fog) (e : Event), Inv node fog ∧ SignedFor P (Held fog) fog.signed →
      Inv node (step node fog e) ∧
        SignedFor P (Held (step node fog e)) (step node fog e).signed := by
    intro fog e ⟨hinv, hsigned⟩
    have he := step_effect node fog e
    obtain ⟨hinv', hkeeps⟩ := hinv.effect he
    refine ⟨hinv', (hsigned.effect he).mono fun q hq ↦ ?_⟩
    rcases hq with hold | hnew
    · exact hkeeps.held hold
    · exact hnew
  exact (run_invariant hstep ⟨inv_init, fun _ h ↦ absurd h List.not_mem_nil⟩ events).2

/-- The held packages are signed, and the latest ones are among them. -/
structure HeldOk (P : Platform) (fog : Fog) : Prop where
  signed : ∀ q, Held fog q → q.message P ∈ fog.signed
  latest : ∀ did q, fog.epochs.latestPackage.get? did = some q → Held fog q

theorem HeldOk.step (h : HeldOk P fog) (hinv : Inv node fog) (e : Event) :
    HeldOk P (step node fog e) := by
  have hsigned : ∀ q, Held fog q → q.message P ∈ (Source.step node fog e).signed :=
    fun q hq ↦ signed_keeps node fog e (h.signed q hq)
  have he := step_effect node fog e
  obtain ⟨-, hkeeps⟩ := hinv.effect he
  have hlatest : ∀ did q, fog.epochs.latestPackage.get? did = some q →
      Held (Source.step node fog e) q := fun did q hq ↦ hkeeps.held (h.latest did q hq)
  generalize Source.step node fog e = fog' at he hsigned hlatest ⊢
  generalize answer node fog e = r at he
  generalize e.request = request at he
  cases he with
  | finalizing hf =>
    cases hf with
    | @closed members new carried tree pkgs result hm he ht hr hd hp =>
      have hnew : (Proofs.finalized node e.env fog tree pkgs).epochs.packages.get?
          fog.epochs.currentEpochId = some pkgs := Dict.get?_set_self _ _ _
      constructor
      · rintro q ⟨pkgs', hget, hq⟩
        change (fog.epochs.packages.set _ pkgs).get? _ = _ at hget
        rw [Dict.get?_set] at hget
        split at hget
        case isTrue =>
          cases hget
          exact List.mem_append_right _ (List.mem_map_of_mem hq)
        case isFalse => exact hsigned q ⟨pkgs', hget, hq⟩
      · intro did q hq
        rcases Table.get?_addAll_some hq with hmem | ⟨hold, -⟩
        · obtain ⟨e', -, hof⟩ := hp.sound q hmem
          exact ⟨pkgs, hof.epoch_eq ▸ hnew, hmem⟩
        · exact hlatest did q hold
    | _ => exact ⟨hsigned, hlatest⟩
  | _ => exact ⟨hsigned, hlatest⟩

theorem heldOk_create (file : Option (List Block)) (signed : List Bytes) :
    HeldOk P (Fog.create file signed) where
  signed q hq := by
    obtain ⟨pkgs, hget, -⟩ := hq
    simp [Fog.create, EpochManager.init] at hget
  latest did q hq := by simp [Fog.create, EpochManager.init] at hq

theorem held_after (actions : List Action) : HeldOk P (afterActions node Fog.init actions) :=
  afterActions_invariant (heldOk_create none []) (fun _ e hinv h ↦ h.step hinv e)
    (fun fog _ _ ↦ heldOk_create fog.ledger.file fog.signed) actions

/-- The packages that closing an epoch has issued at some point of the run. -/
def Issued (node : Node P) (actions : List Action) (q : ProofPackage) : Prop :=
  ∃ earlier, earlier <+: actions ∧ Held (afterActions node Fog.init earlier) q

theorem Issued.mono {actions actions' : List Action} (h : Issued node actions q)
    (hpre : actions <+: actions') : Issued node actions' q := by
  obtain ⟨earlier, hearlier, hheld⟩ := h
  exact ⟨earlier, hearlier.trans hpre, hheld⟩

theorem issued_snoc {actions : List Action} {a : Action} (h : Issued node (actions ++ [a]) q) :
    Issued node actions q ∨ Held (afterActions node Fog.init (actions ++ [a])) q := by
  obtain ⟨earlier, hearlier, hheld⟩ := h
  rcases List.prefix_concat_iff.mp hearlier with rfl | hearlier
  · exact .inr hheld
  · exact .inl ⟨earlier, hearlier, hheld⟩

/-- Whatever package message was signed in the run, it was for an issued package. -/
theorem signed_for_issued (actions : List Action) :
    SignedFor P (Issued node actions) (afterActions node Fog.init actions).signed := by
  refine run_history (fun actions (fog : Fog) ↦ SignedFor P (Issued node actions) fog.signed)
    ?_ (fun l a ih ↦ ?_) actions
  · exact fun pkg hpkg ↦ absurd hpkg List.not_mem_nil
  · have hmono : ∀ q, Issued node l q → Issued node (l ++ [a]) q :=
      fun q hq ↦ hq.mono (List.prefix_append l [a])
    cases a with
    | restart => exact ih.mono hmono
    | request e =>
      refine (ih.effect (step_effect node _ e)).mono fun q hq ↦ hq.elim (hmono q) fun hheld ↦ ?_
      refine ⟨_, List.prefix_refl _, ?_⟩
      rw [afterActions, run_snoc]
      exact hheld

/-- The root of the package is in the ledger file. -/
def Durable (fog : Fog) (q : ProofPackage) : Prop :=
  Dict.lookup q.epochId (anchors (fog.ledger.file.getD [])) = some q.root

theorem Inv.durable_root (h : Inv node fog) (hq : Durable fog q) :
    fog.ledger.getRoot q.epochId = some q.root := by
  obtain ⟨tail, hblocks, -⟩ := h.ledger.inFile
  rw [h.ledger.cache, hblocks, anchors, List.map_append]
  exact Dict.lookup_append_left hq

theorem Inv.durable_effect (h : Inv node fog) {request : Request} {r : Response}
    (he : Effect node env fog request r fog') :
    (Durable fog q → Durable fog' q) ∧ (Held fog' q → Held fog q ∨ Durable fog' q) := by
  cases he with
  | finalizing hf =>
    cases hf with
    | unsaved => exact ⟨id, .inl⟩
    | @closed members new carried tree pkgs result hm he ht hr hd hp =>
      have hall := h.ledger.all_saved hr
      have hfile : anchors ((Proofs.finalized node env fog tree pkgs).ledger.file.getD []) =
          anchors (fog.ledger.file.getD []) ++
            [(fog.epochs.currentEpochId, tree.rootHex)] := by
        simp only [Proofs.finalized, saved, appended, hall, Option.getD_some, anchors,
          List.map_append, List.map_cons, List.map_nil]
        rfl
      constructor
      · intro hq
        rw [Durable, hfile]
        exact Dict.lookup_append_left hq
      · rintro ⟨pkgs', hget, hq⟩
        change (fog.epochs.packages.set _ pkgs).get? _ = _ at hget
        rw [Dict.get?_set] at hget
        split at hget
        case isFalse => exact .inl ⟨pkgs', hget, hq⟩
        case isTrue hepoch =>
          cases hget
          obtain ⟨e, -, hof⟩ := hp.sound q hq
          right
          have hnot := h.ledger.not_anchored hr
          rw [hall, ← map_fst_anchors] at hnot
          rw [Durable, hfile, hof.epoch_eq, hof.root_eq, Dict.lookup_append_right hnot]
          simp [Dict.lookup]
    | _ => exact ⟨id, .inl⟩
  | _ => exact ⟨id, .inl⟩

/-- The root of every issued package is in the ledger file for ever. -/
theorem issued_durable {actions : List Action} (h : Issued node actions q) :
    Durable (afterActions node Fog.init actions) q := by
  refine run_history (fun actions (fog : Fog) ↦ Issued node actions q → Durable fog q)
    ?_ (fun l a ih ↦ ?_) actions h
  · rintro ⟨earlier, hearlier, pkgs, hget, -⟩
    rw [List.prefix_nil.mp hearlier] at hget
    simp [Fog.init, Fog.create, EpochManager.init] at hget
  · intro hq
    have hinv : Inv node (afterActions node Fog.init l) := inv_afterActions l
    rcases issued_snoc hq with hold | hheld
    · cases a with
      | restart => exact ih hold
      | request e => exact (hinv.durable_effect (step_effect node _ e)).1 (ih hold)
    · rw [afterActions, run_snoc] at hheld
      cases a with
      | restart =>
        obtain ⟨pkgs, hget, -⟩ := hheld
        simp [act, Fog.create, EpochManager.init] at hget
      | request e =>
        obtain ⟨hkeep, hnew⟩ := hinv.durable_effect (q := q) (step_effect node _ e)
        rcases hnew hheld with hheld | hdurable
        · exact hkeep (ih ⟨l, List.prefix_refl l, hheld⟩)
        · exact hdurable

/-- An issued package is one of a finalized epoch, whose root is trusted for ever. -/
theorem issued_epoch {actions : List Action} (h : Issued node actions q) :
    ∃ earlier pkgs tree, earlier <+: actions ∧
      (afterActions node Fog.init earlier).epochs.packages.get? q.epochId = some pkgs ∧
      q ∈ pkgs.values ∧ EpochOf node q.epochId pkgs tree ∧
      (afterActions node Fog.init actions).ledger.getRoot q.epochId = some q.root := by
  have hroot := (inv_afterActions actions).durable_root (issued_durable h)
  obtain ⟨earlier, hearlier, pkgs, hget, hq⟩ := h
  obtain ⟨-, tree, hof, -⟩ := (inv_afterActions earlier).epochs.finalized _ _ hget
  exact ⟨earlier, pkgs, tree, hearlier, hget, hq, hof, hroot⟩

end FogNode.Proofs
