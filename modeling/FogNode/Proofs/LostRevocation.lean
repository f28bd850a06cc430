import FogNode.Proofs.Instance
import FogNode.Proofs.Registry
import FogNode.Source.Concurrency

namespace FogNode.Proofs

open FogNode.Library FogNode.Source

variable {P : Platform} {node : Node P} {calls : Calls} {race : Race} {did : String}

theorem anchorEpoch_frame (node : Node P) (env : Env) (fog : Fog) (blocked : List String)
    (members : Batch) (new carried : ℕ) :
    (anchorEpoch node env fog blocked members new carried).2.devices = fog.devices ∧
      (anchorEpoch node env fog blocked members new carried).2.tokenState = fog.tokenState := by
  unfold anchorEpoch
  dsimp only
  split
  · exact ⟨rfl, rfl⟩
  · split
    · exact ⟨rfl, rfl⟩
    · split <;> exact ⟨rfl, rfl⟩

/-- Of the steps of `finalize_epoch` only the one that updates a record writes what
the other threads read. -/
theorem closeStep_writes (node : Node P) (env : Env) (excludeDids : List String)
    (phase : ClosePhase) (fog : Fog) :
    (closeStep node env excludeDids phase fog).2.tokenState = fog.tokenState ∧
      ((closeStep node env excludeDids phase fog).2.devices = fog.devices ∨
        ∃ result written pkg rest, phase = .found result written pkg rest ∧
          (closeStep node env excludeDids phase fog).2.devices =
            DeviceStore.commit fog.devices pkg.did pkg.leaf result.epochId) := by
  cases phase with
  | start => exact ⟨rfl, .inl rfl⟩
  | blocked blocked =>
    simp only [closeStep]
    cases collectMembers node fog blocked with
    | error e => exact ⟨rfl, .inl rfl⟩
    | ok out => dsimp only; split <;> exact ⟨rfl, .inl rfl⟩
  | collected blocked members new carried =>
    obtain ⟨hdevices, htokens⟩ := anchorEpoch_frame node env fog blocked members new carried
    simp only [closeStep]
    cases ha : anchorEpoch node env fog blocked members new carried with
    | mk out fog' =>
      rw [ha] at hdevices htokens
      cases out <;> exact ⟨htokens, .inl hdevices⟩
  | updating result written rest =>
    cases rest with
    | nil => exact ⟨rfl, .inl rfl⟩
    | cons pkg rest =>
      simp only [closeStep]
      split <;> exact ⟨rfl, .inl rfl⟩
  | found result written pkg rest => exact ⟨rfl, .inr ⟨result, written, pkg, rest, rfl, rfl⟩⟩
  | closed result => exact ⟨rfl, .inl rfl⟩
  | raised e => exact ⟨rfl, .inl rfl⟩

/-- `finalize_epoch` is about to write REGISTERED over REVOKED. -/
def Overwrites (race : Race) : Turn → Prop
  | .close => ∃ result written pkg rest, race.close = .found result written pkg rest ∧
      Revoked race.fog pkg.did
  | _ => False

instance (race : Race) : DecidablePred (Overwrites race)
  | .close =>
    match hclose : race.close with
    | .found _ _ pkg _ => decidable_of_iff (Revoked race.fog pkg.did) (by simp [Overwrites, hclose])
    | .start | .blocked _ | .collected _ _ _ _ | .updating _ _ _ | .closed _ | .raised _ =>
      isFalse (by simp [Overwrites, hclose])
  | .issue | .revoke _ => isFalse id

/-- What a call of `revoke_device` relies on in each of its phases. -/
def Marks (fog : Fog) (did : String) : RevokePhase → Prop
  | .known => (fog.devices.get? did).isSome
  | .marked | .blacklisting _ | .returned true => Revoked fog did
  | .start | .returned false => True

theorem Marks.stable {fog fog' : Fog} {phase : RevokePhase} (h : Marks fog did phase)
    (hsome : (fog.devices.get? did).isSome → (fog'.devices.get? did).isSome)
    (hrev : Revoked fog did → Revoked fog' did) : Marks fog' did phase := by
  cases phase with
  | start => trivial
  | known => exact hsome h
  | marked => exact hrev h
  | blacklisting tokenIds => exact hrev h
  | returned known =>
    cases known with
    | true => exact hrev h
    | false => trivial

theorem isSome_modified {devices devices' : DeviceStore} {did' : String}
    {t : DeviceRecord → DeviceRecord}
    (hg : devices'.get? did = if did = did' then (devices.get? did').map t else devices.get? did)
    (h : (devices.get? did).isSome) : (devices'.get? did).isSome := by
  rw [hg]
  split
  case isTrue hd => rw [← hd, Option.isSome_map, h]
  case isFalse => exact h

theorem revoked_marked {fog : Fog} (did' : String) (h : Revoked fog did) :
    Revoked { fog with devices := DeviceStore.setStatus fog.devices did' .revoked } did := by
  obtain ⟨rec, hrec, hs⟩ := h
  by_cases hd : did = did'
  · subst hd
    exact ⟨{ rec with status := .revoked }, by
      rw [get?_setStatus, if_pos rfl, hrec, Option.map_some], rfl⟩
  · exact ⟨rec, by rw [get?_setStatus, if_neg hd, hrec], hs⟩

/-- A revoked device stays revoked, and a known one known, as long as `finalize_epoch`
does not overwrite the status. -/
theorem turn_stable (hissue : race.issue = .absent) {t : Turn} (ht : ¬ Overwrites race t) :
    ((race.fog.devices.get? did).isSome →
        ((turn node calls race t).fog.devices.get? did).isSome) ∧
      (Revoked race.fog did → Revoked (turn node calls race t).fog did) := by
  cases t with
  | close =>
    rcases (closeStep_writes node calls.closeEnv calls.excludeDids race.close race.fog).2 with
      hsame | ⟨result, written, pkg, rest, hphase, hcommit⟩
    · exact ⟨fun h ↦ (congrArg (fun d : DeviceStore ↦ (d.get? did).isSome) hsame).trans h,
        fun ⟨rec, hrec, hs⟩ ↦ ⟨rec, (congrArg (Table.get? · did) hsame).trans hrec, hs⟩⟩
    · have hget := get?_commit race.fog.devices pkg.did pkg.leaf result.epochId
      rw [← hcommit] at hget
      refine ⟨isSome_modified (hget did), fun hrev ↦ ?_⟩
      obtain ⟨rec, hrec, hs⟩ := hrev
      refine ⟨rec, (hget did).trans ?_, hs⟩
      rw [if_neg, hrec]
      rintro rfl
      exact ht ⟨result, written, pkg, rest, hphase, rec, hrec, hs⟩
  | issue => simp [turn, hissue, issueStep]
  | revoke i =>
    simp only [turn]
    cases race.revokes i with
    | start => simp only [revokeStep]; split <;> exact ⟨id, id⟩
    | known =>
      exact ⟨isSome_modified (get?_setStatus _ _ _ did), revoked_marked (calls.revoked i)⟩
    | marked => exact ⟨id, id⟩
    | blacklisting tokenIds => cases tokenIds <;> exact ⟨id, id⟩
    | returned known => exact ⟨id, id⟩

/-- No handler of `/tokens/issue` runs, and each call of `revoke_device` can rely on what
it needs. -/
structure Marked (calls : Calls) (race : Race) : Prop where
  issue : race.issue = .absent
  marks : ∀ i, Marks race.fog (calls.revoked i) (race.revokes i)

theorem revokeStep_marks {fog : Fog} {phase : RevokePhase} (h : Marks fog did phase) :
    Marks (revokeStep did phase fog).2 did (revokeStep did phase fog).1 := by
  cases phase with
  | start =>
    simp only [revokeStep]
    cases hrec : DeviceStore.get fog.devices did with
    | none => trivial
    | some rec => exact Option.isSome_iff_exists.mpr ⟨rec, hrec⟩
  | known =>
    obtain ⟨rec, hrec⟩ := Option.isSome_iff_exists.mp h
    exact ⟨{ rec with status := .revoked }, by
      rw [revokeStep, get?_setStatus, if_pos rfl, hrec, Option.map_some], rfl⟩
  | marked => exact h
  | blacklisting tokenIds => cases tokenIds <;> exact h
  | returned known => exact h

theorem Marked.turn (h : Marked calls race) {t : Turn} (ht : ¬ Overwrites race t) :
    Marked calls (turn node calls race t) := by
  have hstable : ∀ i, Marks (Source.turn node calls race t).fog (calls.revoked i)
      (race.revokes i) := fun i ↦
    (h.marks i).stable (turn_stable h.issue ht).1 (turn_stable h.issue ht).2
  cases t with
  | close => exact ⟨h.issue, hstable⟩
  | issue => exact ⟨by simp [Source.turn, h.issue, issueStep], hstable⟩
  | revoke i =>
    refine ⟨h.issue, fun j ↦ ?_⟩
    by_cases hj : j = i
    · subst hj
      simp only [Source.turn, Function.update_self]
      exact revokeStep_marks (h.marks j)
    · have hother := hstable j
      simp only [Source.turn, Function.update_of_ne hj] at hother ⊢
      exact hother

theorem turn_absent (hissue : race.issue = .absent) (t : Turn) :
    (turn node calls race t).issue = .absent := by
  cases t with
  | close => exact hissue
  | issue => simp [turn, hissue, issueStep]
  | revoke i => exact hissue

/-- In every schedule in which `finalize_epoch` never writes over REVOKED, a device that
`revoke_device` reports as revoked is revoked from then on. -/
theorem revocation_survives_close (node : Node P) (calls : Calls) (fog : Fog)
    (earlier later : List Turn) (i : ℕ)
    (hok : Admissible (turn node calls) (fun race t ↦ ¬ Overwrites race t) (.ofClose fog)
      (earlier ++ later))
    (hreturned : (run (turn node calls) (.ofClose fog) earlier).revokes i = .returned true) :
    Revoked (run (turn node calls) (.ofClose fog) (earlier ++ later)).fog (calls.revoked i) := by
  obtain ⟨hearlier, hlater⟩ := (admissible_append _ _ _).mp hok
  have hmarked : Marked calls (run (turn node calls) (.ofClose fog) earlier) :=
    run_invariant_of (fun race t h ht ↦ h.turn ht) ⟨rfl, fun _ ↦ trivial⟩ hearlier
  have hrev : Revoked (run (turn node calls) (.ofClose fog) earlier).fog (calls.revoked i) := by
    have hmarks := hmarked.marks i
    rwa [hreturned] at hmarks
  have hkeep : ∀ race t, (race.issue = .absent ∧ Revoked race.fog (calls.revoked i)) →
      ¬ Overwrites race t → ((turn node calls race t).issue = .absent ∧
        Revoked (turn node calls race t).fog (calls.revoked i)) :=
    fun race t h ht ↦ ⟨turn_absent h.1 t, (turn_stable h.1 ht).2 h.2⟩
  rw [run_append]
  exact (run_invariant_of hkeep ⟨hmarked.issue, hrev⟩ hlater).2

def plainCalls : Calls where
  closeEnv := plainEnv 1 3 none
  excludeDids := []
  issueEnv := plainEnv 1 4 none
  sessionId := toHex (List.replicate 16 7)
  revoked _ := plainDid 7

/-- Two devices are queued. -/
def pairQueued : Fog :=
  after plainNode Fog.init (registration (plainKey 7) 0 7 ++ registration (plainKey 8) 0 8)

/-- The first device is marked as revoked before the close begins, which has begun when the
revocation returns. -/
def earlyRevocation : List Turn := [.revoke 0, .revoke 0, .close, .revoke 0, .revoke 0]

/-- The close then completes with the second device. -/
theorem revocation_survives_close_first :
    ((run (turn plainNode plainCalls) (.ofClose pairQueued)
        (earlyRevocation ++ List.replicate 5 .close)).fog.devices.get? (plainDid 8)).map
          DeviceRecord.status = some .registered ∧
      Revoked (run (turn plainNode plainCalls) (.ofClose pairQueued)
        (earlyRevocation ++ List.replicate 5 .close)).fog (plainDid 7) :=
  ⟨by decide +kernel, revocation_survives_close plainNode plainCalls pairQueued earlyRevocation
    (List.replicate 5 .close) 0 (by decide +kernel) (by decide +kernel)⟩

/-- The revocation runs between the collection of the members and the update of the
record. -/
def lostSchedule : List Turn := List.replicate 3 .close ++ List.replicate 4 (.revoke 0)

/-- The call reports the device as revoked, and the close then registers it. -/
theorem revocation_lost :
    (run (turn plainNode plainCalls) (.ofClose queuedFog) lostSchedule).revokes 0 =
        .returned true ∧
      ¬ Revoked (run (turn plainNode plainCalls) (.ofClose queuedFog)
        (lostSchedule ++ List.replicate 3 .close)).fog (plainDid 7) := by
  have hrun : (run (turn plainNode plainCalls) (.ofClose queuedFog) lostSchedule).revokes 0 =
        .returned true ∧
      ((run (turn plainNode plainCalls) (.ofClose queuedFog)
        (lostSchedule ++ List.replicate 3 .close)).fog.devices.get? (plainDid 7)).map
          DeviceRecord.status = some .registered := by
    decide +kernel
  refine ⟨hrun.1, fun ⟨rec, hrec, hs⟩ ↦ ?_⟩
  have hstatus := hrun.2
  rw [hrec, Option.map_some, hs] at hstatus
  cases hstatus

end FogNode.Proofs
