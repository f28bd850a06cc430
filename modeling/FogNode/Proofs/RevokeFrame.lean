import FogNode.Proofs.Instance
import FogNode.Proofs.Steps

namespace FogNode.Proofs

open FogNode.Library FogNode.Source

variable {P : Platform} {node : Node P} {fog : Fog} {body : RevokeRequest}
  {adminKey : Option String}

def statusOf (fog : Fog) (did : String) : Option DeviceStatus :=
  (fog.devices.get? did).map DeviceRecord.status

/-- The request names the token, which an empty text does not. -/
def Names (body : RevokeRequest) (tokenId : String) : Prop :=
  body.tokenId = some tokenId ∧ tokenId ≠ ""

/-- The tokens that are revoked are those that were and these. -/
def Adds (tokens : String → Prop) (state state' : TokenState) : Prop :=
  ∀ t, t ∈ state'.revokedTokenIds ↔ t ∈ state.revokedTokenIds ∨ tokens t

theorem revoke_adds (state : TokenState) (tokenId : String) :
    Adds (· = tokenId) state (state.revoke tokenId) := by
  intro t
  rw [TokenState.revoke, List.mem_cons, or_comm]

theorem revokeAll_adds (state : TokenState) (tokenIds : List String) :
    Adds (· ∈ tokenIds) state (revokeAll state tokenIds) := by
  induction tokenIds generalizing state with
  | nil => simp [Adds, revokeAll]
  | cons tokenId tokenIds ih =>
    intro t
    change t ∈ (revokeAll (state.revoke tokenId) tokenIds).revokedTokenIds ↔ _
    rw [ih (state.revoke tokenId) t, revoke_adds state tokenId t, or_assoc, ← List.mem_cons]

/-- What `/revocation/revoke` does. -/
inductive Revoking (node : Node P) (body : RevokeRequest) (adminKey : Option String) (fog : Fog) :
    Response → Fog → Prop
  | refused {r : Response} (hr : succeeds r = false)
      (hwhy : adminKey ≠ some node.adminKey ∨ body.tokenOnly = true ∨
        fog.devices.get? body.did = none) : Revoking node body adminKey fog r fog
  | token {r : Response} {tokenId : String} {state : TokenState} (honly : body.tokenOnly = true)
      (hnamed : body.tokenId = some tokenId)
      (howner : fog.tokenState.ownerOf tokenId = some body.did) (hr : succeeds r = true)
      (hstate : Adds (· = tokenId) fog.tokenState state) :
      Revoking node body adminKey fog r { fog with tokenState := state }
  | device {r : Response} {state : TokenState} (hdevice : body.tokenOnly = false)
      (hadmin : adminKey = some node.adminKey) (hknown : fog.devices.get? body.did ≠ none)
      (hr : succeeds r = true)
      (hstate : Adds (fun t ↦ fog.tokenState.ownerOf t = some body.did ∨ Names body t)
        fog.tokenState state) :
      Revoking node body adminKey fog r
        { fog with
          devices := DeviceStore.setStatus fog.devices body.did .revoked
          tokenState := state }

theorem Adds.trans {tokens tokens' : String → Prop} {s t u : TokenState} (h : Adds tokens s t)
    (h' : Adds tokens' t u) : Adds (fun x ↦ tokens x ∨ tokens' x) s u := by
  intro x
  rw [h' x, h x, or_assoc]

theorem Adds.congr {tokens tokens' : String → Prop} {s t : TokenState} (h : Adds tokens s t)
    (hiff : ∀ x, tokens x ↔ tokens' x) : Adds tokens' s t := by
  intro x
  rw [h x, hiff x]

theorem Inv.revoking (h : Inv node fog) (body : RevokeRequest) (adminKey : Option String) :
    Revoking node body adminKey fog (revoke node body adminKey fog).1
      (revoke node body adminKey fog).2 := by
  unfold revoke
  split
  · rename_i hkey
    exact .refused rfl (.inl hkey)
  rename_i hkey
  rw [not_not] at hkey
  split
  · rename_i honly
    split
    · exact .refused rfl (.inr (.inl honly))
    · exact .refused rfl (.inr (.inl honly))
    rename_i tokenId _ hnamed
    split
    · exact .refused rfl (.inr (.inl honly))
    rename_i howner
    rw [not_not] at howner
    obtain ⟨record, hrec, -⟩ := h.tokens tokenId body.did howner
    have hissued : fog.tokenState.wasIssued tokenId = true := by
      rw [TokenState.wasIssued]
      exact Option.isSome_of_eq_some howner
    simp only [revokeToken, hissued, if_true, DeviceStore.get, hrec]
    exact .token honly hnamed howner rfl (revoke_adds _ tokenId)
  · rename_i hdevice
    rw [Bool.not_eq_true] at hdevice
    unfold revokeDevice
    cases hrec : DeviceStore.get fog.devices body.did with
    | none => exact .refused rfl (.inr (.inr hrec))
    | some record =>
      have hall := (revokeAll_adds fog.tokenState (fog.tokenState.tokensOf body.did)).congr
        fun _ ↦ mem_tokensOf
      refine .device hdevice hkey (fun hnone ↦ ?_) rfl ?_
      · cases hrec.symm.trans hnone
      split
      · rename_i hnone
        exact hall.congr fun t ↦ by simp [Names, hnone, TokenState.ownerOf]
      · rename_i hempty
        refine hall.congr fun t ↦ ?_
        have hnot : ¬ Names body t := fun hn ↦ hn.2 (Option.some.inj (hn.1.symm.trans hempty))
        rw [or_iff_left hnot]
        rfl
      · rename_i tokenId hne hnamed
        refine (hall.trans (revoke_adds _ tokenId)).congr fun t ↦ or_congr Iff.rfl ?_
        constructor
        · rintro rfl
          exact ⟨hnamed, hne⟩
        · intro hn
          exact Option.some.inj (hn.1.symm.trans hnamed)

theorem isRevoked_iff {state : TokenState} {tokenId : String} :
    state.isRevoked tokenId = true ↔ tokenId ∈ state.revokedTokenIds := by
  rw [TokenState.isRevoked, List.contains_iff_mem]

theorem Adds.same {tokens : String → Prop} {s t : TokenState} (h : Adds tokens s t)
    {tokenId : String} (hnot : tokens tokenId → s.isRevoked tokenId = true) :
    t.isRevoked tokenId = s.isRevoked tokenId := by
  rw [Bool.eq_iff_iff, isRevoked_iff, h tokenId, isRevoked_iff]
  rw [isRevoked_iff] at hnot
  exact or_iff_left_of_imp hnot

theorem statusOf_setStatus {state : TokenState} {did did' : String} (hne : did' ≠ did) :
    statusOf { fog with
      devices := DeviceStore.setStatus fog.devices did .revoked
      tokenState := state } did' = statusOf fog did' := by
  unfold statusOf
  rw [get?_setStatus, if_neg hne]

/-- A request to revoke a device, its answer and the states around it: nothing of other devices
changes, and nothing at all when the request fails. -/
structure TouchesOnly (body : RevokeRequest) (r : Response) (fog fog' : Fog) : Prop where
  others : ∀ did, did ≠ body.did → statusOf fog' did = statusOf fog did
  foreign : ∀ tokenId, fog.tokenState.ownerOf tokenId ≠ some body.did →
    fog'.tokenState.isRevoked tokenId = fog.tokenState.isRevoked tokenId
  refused : succeeds r = false → (∀ did, statusOf fog' did = statusOf fog did) ∧
    ∀ tokenId, fog'.tokenState.isRevoked tokenId = fog.tokenState.isRevoked tokenId
  one_token : succeeds r = true → body.tokenOnly = true →
    statusOf fog' body.did = statusOf fog body.did ∧
    ∀ tokenId, body.tokenId ≠ some tokenId →
      fog'.tokenState.isRevoked tokenId = fog.tokenState.isRevoked tokenId

/-- The token named besides a device that is on record is its own, or is revoked already. -/
def NamesOwn (node : Node P) (body : RevokeRequest) (adminKey : Option String) (fog : Fog) :
    Prop :=
  adminKey = some node.adminKey → body.tokenOnly = false → fog.devices.get? body.did ≠ none →
    ∀ tokenId, Names body tokenId →
      fog.tokenState.ownerOf tokenId = some body.did ∨ fog.tokenState.isRevoked tokenId = true

theorem TouchesOnly.refl {r : Response} : TouchesOnly body r fog fog :=
  ⟨fun _ _ ↦ rfl, fun _ _ ↦ rfl, fun _ ↦ ⟨fun _ ↦ rfl, fun _ ↦ rfl⟩, fun _ _ ↦ ⟨rfl, fun _ _ ↦ rfl⟩⟩

theorem Revoking.touchesOnly_iff {r : Response} {fog' : Fog}
    (h : Revoking node body adminKey fog r fog') :
    TouchesOnly body r fog fog' ↔ NamesOwn node body adminKey fog := by
  cases h with
  | refused hr hwhy =>
    refine iff_of_true .refl fun hadmin hdevice hknown ↦ ?_
    rcases hwhy with hwhy | hwhy | hwhy
    · exact absurd hadmin hwhy
    · rw [hwhy] at hdevice
      cases hdevice
    · exact absurd hwhy hknown
  | @token tokenId state honly hnamed howner hr hstate =>
    refine iff_of_true ⟨fun _ _ ↦ rfl, fun t ht ↦ hstate.same ?_, fun hno ↦ ?_, fun _ _ ↦
      ⟨rfl, fun t ht ↦ hstate.same ?_⟩⟩ fun _ hdevice ↦ ?_
    · rintro rfl
      exact absurd howner ht
    · rw [hr] at hno
      cases hno
    · rintro rfl
      exact absurd hnamed ht
    · rw [honly] at hdevice
      cases hdevice
  | @device state hdevice hadmin hknown hr hstate =>
    constructor
    · intro h hadmin hdevice hknown tokenId hn
      by_cases howner : fog.tokenState.ownerOf tokenId = some body.did
      · exact .inl howner
      · right
        rw [← h.foreign tokenId howner, isRevoked_iff, hstate tokenId]
        exact .inr (.inr hn)
    · intro hown
      refine ⟨fun did hne ↦ statusOf_setStatus hne, fun t ht ↦ hstate.same ?_, fun hno ↦ ?_,
        fun _ honly ↦ ?_⟩
      · rintro (howner | hn)
        · exact absurd howner ht
        · exact (hown hadmin hdevice hknown t hn).resolve_left ht
      · rw [hr] at hno
        cases hno
      · rw [hdevice] at honly
        cases honly

/-- A request for `/revocation/revoke` touches only its own device. -/
def Frames (node : Node P) (fog : Fog) (a : Action) : Prop :=
  ∀ e body adminKey, a = .request e → e.request = .revoke body adminKey →
    TouchesOnly body (answer node fog e) fog (step node fog e)

/-- A request for `/revocation/revoke` names no token of another device. -/
def NoneForeign (node : Node P) (fog : Fog) (a : Action) : Prop :=
  ∀ e body adminKey, a = .request e → e.request = .revoke body adminKey →
    NamesOwn node body adminKey fog

theorem Inv.frames_iff (fog : Fog) (a : Action) (h : Inv node fog) :
    Frames node fog a ↔ NoneForeign node fog a := by
  have hiff : ∀ e body adminKey, e.request = .revoke body adminKey →
      (TouchesOnly body (answer node fog e) fog (step node fog e) ↔
        NamesOwn node body adminKey fog) := by
    intro e body adminKey hreq
    have hrevoking := h.revoking body adminKey
    rw [answer, step, hreq]
    exact hrevoking.touchesOnly_iff
  constructor
  · intro hframes e body adminKey ha hreq
    exact (hiff e body adminKey hreq).mp (hframes e body adminKey ha hreq)
  · intro hnone e body adminKey ha hreq
    exact (hiff e body adminKey hreq).mpr (hnone e body adminKey ha hreq)

/-- The runs in which every revocation touches only its own device are those in which none
names a token of another device besides. -/
theorem revoke_frame_iff (node : Node P) (actions : List Action) :
    Admissible (act node) (Frames node) Fog.init actions ↔
      Admissible (act node) (NoneForeign node) Fog.init actions :=
  admissible_congr inv_act Inv.frames_iff inv_init actions

/-- Two devices are registered, and the second one obtains a token. -/
def twoDevices : List Action :=
  (registration (plainKey 7) 0 7 ++ registration (plainKey 8) 0 8 ++
    [plainEvent 1 9 (.tokensIssue (toHex (List.replicate 16 8)))]).map .request

/-- The first device is revoked, with the token of the second one named. -/
def foreignRevocation : Event :=
  plainEvent 2 3 (.revoke ⟨plainDid 7, some (toHex (List.replicate 8 9)), false⟩ (some "admin"))

theorem foreign_token_revoked :
    ¬ Admissible (act plainNode) (Frames plainNode) Fog.init
      (twoDevices ++ [.request foreignRevocation]) := by
  rw [admissible_append]
  rintro ⟨-, hframes, -⟩
  have hforeign := (hframes foreignRevocation _ _ rfl rfl).foreign (toHex (List.replicate 8 9))
  have hstates : (afterActions plainNode Fog.init twoDevices).tokenState.ownerOf
        (toHex (List.replicate 8 9)) = some (plainDid 8) ∧ plainDid 8 ≠ plainDid 7 ∧
      (step plainNode (afterActions plainNode Fog.init twoDevices)
        foreignRevocation).tokenState.isRevoked (toHex (List.replicate 8 9)) ≠
      (afterActions plainNode Fog.init twoDevices).tokenState.isRevoked
        (toHex (List.replicate 8 9)) := by
    decide +kernel
  obtain ⟨howner, hne, hchanged⟩ := hstates
  refine hchanged (hforeign ?_)
  rw [howner]
  exact fun he ↦ hne (Option.some.inj he)

end FogNode.Proofs
