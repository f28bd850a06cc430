import FogNode.Proofs.Effects
import FogNode.Proofs.Registry

namespace FogNode.Proofs

open FogNode.Library FogNode.Source

variable {P : Platform}

/-- What a session past AUTHENTICATED stands for: a key bound to its DID, on record
as far as the registration has come. -/
structure BoundTo (P : Platform) (view : String → Option Enrolment) (s : Session)
    (did key : String) (pk : Bytes) : Prop where
  did_eq : s.did = some did
  key_eq : s.publicKey = some key
  hex : fromhex key = .ok pk
  length_eq : pk.length = COMPRESSED_PK_LEN
  derived : did = deriveDid P pk
  submitted : s.state = .keySubmitted → view did = none
  proved : s.state = .popVerified → view did = some (key, none)
  accepted : s.state = .metadataAccepted → ∃ leaf, view did = some (key, some leaf)

structure SessionsOk (P : Platform) (sessions : SessionStore)
    (view : String → Option Enrolment) : Prop where
  bound : ∀ id s, sessions.get? id = some s → s.state ≠ .authenticated →
    ∃ did key pk, BoundTo P view s did key pk
  unique : ∀ id id' s s' did, sessions.get? id = some s → sessions.get? id' = some s' →
    s.state ≠ .authenticated → s'.state ≠ .authenticated → s.did = some did →
    s'.did = some did → id = id'

variable {sessions sessions' : SessionStore} {view view' : String → Option Enrolment}

theorem sessionsOk_empty (P : Platform) (view : String → Option Enrolment) :
    SessionsOk P ∅ view :=
  ⟨fun _ _ h ↦ by simp at h, fun _ _ _ _ _ h ↦ by simp at h⟩

theorem SessionsOk.sub (h : SessionsOk P sessions view)
    (hsub : ∀ id s, sessions'.get? id = some s → s.state ≠ .authenticated →
      sessions.get? id = some s) : SessionsOk P sessions' view where
  bound id s hs hstate := h.bound id s (hsub id s hs hstate) hstate
  unique id id' s s' did hs hs' hstate hstate' :=
    h.unique id id' s s' did (hsub id s hs hstate) (hsub id' s' hs' hstate') hstate hstate'

theorem SessionsOk.lapse (h : SessionsOk P sessions view) (hl : Lapsed sessions sessions') :
    SessionsOk P sessions' view := by
  rcases hl with rfl | ⟨id, rfl⟩
  · exact h
  · refine h.sub fun j s hs _ ↦ ?_
    rw [Table.get?_erase] at hs
    split at hs
    · cases hs
    · exact hs

theorem SessionsOk.reset (h : SessionsOk P sessions view) {s : Session}
    (hs : s.state = .authenticated) : SessionsOk P (sessions.add s) view := by
  refine h.sub fun j t ht hstate ↦ ?_
  rw [Table.get?_add] at ht
  split at ht
  · cases ht; exact absurd hs hstate
  · exact ht

/-- A session may take a DID on that no other session holds. -/
theorem SessionsOk.bind (h : SessionsOk P sessions view) {s : Session} {did key : String}
    {pk : Bytes} (hs : BoundTo P view' s did key pk)
    (hother : ∀ id t, sessions.get? id = some t → id ≠ s.sessionId →
      t.state ≠ .authenticated → t.did ≠ some did)
    (hview : ∀ j, j ≠ did → view' j = view j) : SessionsOk P (sessions.add s) view' where
  bound id t ht hstate := by
    rw [Table.get?_add] at ht
    split at ht
    case isTrue => cases ht; exact ⟨did, key, pk, hs⟩
    case isFalse hid =>
      obtain ⟨did', key', pk', hb⟩ := h.bound id t ht hstate
      have hne : did' ≠ did := fun he ↦ hother id t ht hid hstate (he ▸ hb.did_eq)
      refine ⟨did', key', pk', ⟨hb.did_eq, hb.key_eq, hb.hex, hb.length_eq, hb.derived, ?_, ?_, ?_⟩⟩
      · rw [hview _ hne]; exact hb.submitted
      · rw [hview _ hne]; exact hb.proved
      · rw [hview _ hne]; exact hb.accepted
  unique id id' t t' j ht ht' hstate hstate' hj hj' := by
    rw [Table.get?_add] at ht ht'
    split at ht <;> split at ht'
    case isTrue.isTrue hid hid' => exact hid.trans hid'.symm
    case isTrue.isFalse hid hid' =>
      cases ht
      exact absurd (hj' ▸ hj ▸ hs.did_eq) (hother id' t' ht' hid' hstate')
    case isFalse.isTrue hid hid' =>
      cases ht'
      exact absurd (hj ▸ hj' ▸ hs.did_eq) (hother id t ht hid hstate)
    case isFalse.isFalse => exact h.unique id id' t t' j ht ht' hstate hstate' hj hj'

/-- No other session holds the DID of a session past AUTHENTICATED. -/
theorem SessionsOk.alone (h : SessionsOk P sessions view) {id : String} {s : Session}
    {did : String} (hs : sessions.get? id = some s) (hstate : s.state ≠ .authenticated)
    (hdid : s.did = some did) {s' : Session} (hid : s'.sessionId = s.sessionId) :
    ∀ j t, sessions.get? j = some t → j ≠ s'.sessionId → t.state ≠ .authenticated →
      t.did ≠ some did := by
  intro j t ht hne hstate' hdid'
  refine hne ?_
  rw [hid, Table.key_of_get? hs]
  exact h.unique j id t s did ht hs hstate' hstate hdid' hdid

theorem not_in_use {did : String} {id : String}
    (h : SessionStore.didInUse sessions did id = false) :
    ∀ j t, sessions.get? j = some t → j ≠ id → t.state ≠ .authenticated → t.did ≠ some did := by
  intro j t ht hne hstate hdid
  simp only [SessionStore.didInUse, List.any_eq_false, decide_eq_true_eq, not_and] at h
  have hmem : t ∈ sessions.values := Table.mem_values.mpr (Table.get?_key ht)
  exact h t hmem hdid (by rwa [Table.key_of_get? ht]) hstate

end FogNode.Proofs
