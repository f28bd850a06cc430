import FogNode.Proofs.Successes

namespace FogNode.Proofs

open FogNode.Library FogNode.Source

variable {P : Platform} {node : Node P} {devices : Set (Device P)} {e : Event}

/-- The fog, and the calls with which devices have signed so far. -/
structure World (P : Platform) where
  fog : Fog
  signings : List (Device P × Signing)

def World.init : World P := ⟨Fog.init, []⟩

/-- The fog handles a request, or a device signs. Requests are arbitrary, so whoever sends
them may replay, reorder and recombine whatever was sent before. -/
inductive Move (P : Platform)
  | request (e : Event)
  | sign (device : Device P) (s : Signing)

def move (node : Node P) (w : World P) : Move P → World P
  | .request e => { w with fog := step node w.fog e }
  | .sign device s => { w with signings := w.signings ++ [(device, s)] }

/-- The world after the listed moves. -/
abbrev world (node : Node P) (moves : List (Move P)) : World P := run (move node) World.init moves

def requests (moves : List (Move P)) : List Event :=
  moves.filterMap fun
    | .request e => some e
    | .sign _ _ => none

theorem requests_append (l m : List (Move P)) : requests (l ++ m) = requests l ++ requests m :=
  List.filterMap_append

theorem requests_request (e : Event) (moves : List (Move P)) :
    requests (.request e :: moves) = e :: requests moves := rfl

theorem world_fog (node : Node P) (moves : List (Move P)) :
    (world node moves).fog = after node Fog.init (requests moves) := by
  induction moves using List.reverseRecOn with
  | nil => rfl
  | append_singleton moves m ih =>
    rw [world, run_snoc, requests_append]
    cases m with
    | request e =>
      have hlast : requests [Move.request (P := P) e] = [e] := rfl
      rw [hlast, after, run_snoc]
      exact congrArg (step node · e) ih
    | sign device s =>
      have hlast : requests [Move.sign device s] = [] := rfl
      rw [hlast, List.append_nil]
      exact ih

/-- The device signed the message before. -/
def SignedBy (w : World P) (device : Device P) (message : Bytes) : Prop :=
  ∃ s a, (device, s) ∈ w.signings ∧ authorization device s = some a ∧ a.message = message

/-- The request presents no forged signature of the devices: the message that is checked
under the key of one of them, with success, was signed by it. -/
def DeviceSigned (devices : Set (Device P)) (w : World P) (e : Event) : Prop :=
  ∀ device ∈ devices, ∀ a text, Seeks P w.fog e.request device.pkBytes a →
    presented e.request = some text →
    verify P device.pkBytes a.message (hexOrEmpty text) = true → SignedBy w device a.message

/-- The request presents no forged signature of the fog on a token. -/
def TokenSigned (node : Node P) (fog : Fog) (e : Event) : Prop :=
  ∀ body, e.request = .tokensAccess body →
    tokenSignatureValid P body.token node.signingKey = true →
    canonicalJson P (signedFields body.token) ∈ fog.signed

/-- No signature is forged in the move. -/
def Authentic (node : Node P) (devices : Set (Device P)) (w : World P) : Move P → Prop
  | .request e => DeviceSigned devices w e ∧ TokenSigned node w.fog e
  | .sign _ _ => True

/-- What a success rests on: a valid signature over what it authorizes, which the device
with the key made in a call of the helper for just that. -/
structure Backed (devices : Set (Device P)) (w : World P) (e : Event) (pk : Bytes)
    (a : Authorization) : Prop where
  seeks : Seeks P w.fog e.request pk a
  valid : ∃ text, presented e.request = some text ∧ verify P pk a.message (hexOrEmpty text) = true
  signed : ∀ device ∈ devices, device.pkBytes = pk →
    ∃ s, (device, s) ∈ w.signings ∧ authorization device s = some a

theorem Shown.backed {moves : List (Move P)} {pk : Bytes} {a : Authorization}
    (h : Shown node (requests moves) e pk a) (hsigned : DeviceSigned devices (world node moves) e) :
    Backed devices (world node moves) e pk a := by
  have hseeks := h.seeks
  rw [← world_fog] at hseeks
  refine ⟨hseeks, h.signed, ?_⟩
  rintro device hdevice rfl
  obtain ⟨text, htext, hvalid⟩ := h.signed
  obtain ⟨s, a', hmem, hauth, hmessage⟩ := hsigned device hdevice a text hseeks htext hvalid
  obtain rfl := h.determined a' (authorization_derived hauth) hmessage.symm
  exact ⟨s, hmem, hauth⟩

/-- Two successes never rest on the same message. -/
theorem Shown.messages_differ {events later : List Event} {e' : Event} {pk pk' : Bytes}
    {a a' : Authorization} (h : Shown node events e pk a)
    (h' : Shown node (events ++ e :: later) e' pk' a') : a.message ≠ a'.message := by
  intro hmessage
  obtain rfl := h.determined a' h'.derived hmessage
  exact h'.unspent events e later rfl h.spends

/-- One signature of a device authorizes one thing once. -/
theorem one_signature_once (node : Node P) (devices : Set (Device P)) (moves : List (Move P))
    (hchallenges : (issuedChallenges node (requests moves)).Nodup)
    (hnonces : (issuedNonces node (requests moves)).Nodup)
    (hauthentic : Admissible (move node) (Authentic node devices) World.init moves) :
    (∀ earlier e later, moves = earlier ++ .request e :: later →
      Successful node (world node earlier).fog e →
      ∃ pk a, Backed devices (world node earlier) e pk a) ∧
    ∀ earlier e mid e' later pk a pk' a',
      moves = earlier ++ .request e :: (mid ++ .request e' :: later) →
      Successful node (world node earlier).fog e →
      Seeks P (world node earlier).fog e.request pk a →
      Successful node (world node (earlier ++ .request e :: mid)).fog e' →
      Seeks P (world node (earlier ++ .request e :: mid)).fog e'.request pk' a' →
      a.message ≠ a'.message := by
  have hshown : ∀ earlier e later, moves = earlier ++ .request e :: later →
      Successful node (world node earlier).fog e →
      DeviceSigned devices (world node earlier) e ∧
        ∃ pk a, Shown node (requests earlier) e pk a := by
    rintro earlier e later rfl hok
    obtain ⟨-, ⟨hdevice, hfog⟩, -⟩ := (admissible_append _ _ _).mp hauthentic
    rw [requests_append, issuedChallenges, outputs_append] at hchallenges
    rw [requests_append, issuedNonces, outputs_append] at hnonces
    have htoken : TokenSigned node (world node earlier).fog e := hfog
    rw [world_fog] at htoken hok
    exact ⟨hdevice, shown_of_successful (List.nodup_append.mp hchallenges).1
      (List.nodup_append.mp hnonces).1 htoken hok⟩
  constructor
  · intro earlier e later hsplit hok
    obtain ⟨hdevice, pk, a, h⟩ := hshown earlier e later hsplit hok
    exact ⟨pk, a, h.backed hdevice⟩
  · intro earlier e mid e' later pk a pk' a' hsplit hok hseeks hok' hseeks'
    have hsplit' : moves = (earlier ++ .request e :: mid) ++ .request e' :: later := by
      rw [hsplit, List.append_assoc, List.cons_append]
    obtain ⟨-, pk₁, a₁, h⟩ := hshown earlier e _ hsplit hok
    obtain ⟨-, pk₂, a₂, h'⟩ := hshown _ e' later hsplit' hok'
    rw [world_fog] at hseeks hseeks'
    obtain ⟨-, rfl⟩ := h.seeks.unique hseeks
    obtain ⟨-, rfl⟩ := h'.seeks.unique hseeks'
    rw [requests_append, requests_request] at h'
    exact h.messages_differ h'

theorem authentic_snoc (moves : List (Move P)) (m : Move P) :
    Admissible (move node) (Authentic node devices) World.init (moves ++ [m]) ↔
      Admissible (move node) (Authentic node devices) World.init moves ∧
        Authentic node devices (world node moves) m := by
  rw [admissible_append]
  simp only [Admissible, and_true]

theorem authentic_of_unpresented {w : World P} (h : presented e.request = none) :
    Authentic node devices w (.request e) := by
  refine ⟨fun device _ a text _ htext ↦ ?_, fun body hreq ↦ ?_⟩
  · rw [h] at htext
    cases htext
  · rw [hreq] at h
    cases h

theorem authentic_requests {events : List Event} (h : ∀ e ∈ events, presented e.request = none)
    (w : World P) : Admissible (move node) (Authentic node devices) w (events.map .request) := by
  induction events generalizing w with
  | nil => trivial
  | cons e events ih =>
    exact ⟨authentic_of_unpresented (h e List.mem_cons_self),
      ih (fun e' he' ↦ h e' (List.mem_cons_of_mem _ he')) _⟩

theorem deviceSigned_of {w : World P} {device : Device P} {a : Authorization}
    (hseeks : Seeks P w.fog e.request device.pkBytes a) (hsigned : SignedBy w device a.message) :
    DeviceSigned {device} w e := by
  intro device' hdevice a' text hseeks' _ _
  obtain rfl := Set.mem_singleton_iff.mp hdevice
  obtain ⟨-, rfl⟩ := hseeks.unique hseeks'
  exact hsigned

theorem mem_signings {moves : List (Move P)} {device : Device P} {s : Signing}
    (h : .sign device s ∈ moves) : (device, s) ∈ (world node moves).signings := by
  induction moves using List.reverseRecOn with
  | nil => cases h
  | append_singleton moves m ih =>
    rw [world, run_snoc]
    rcases List.mem_append.mp h with hold | hnew
    · cases m with
      | request e => exact ih hold
      | sign device' s' => exact List.mem_append_left _ (ih hold)
    · obtain rfl := List.mem_singleton.mp hnew
      exact List.mem_append_right _ List.mem_cons_self

theorem requests_map (events : List Event) :
    requests (events.map (Move.request (P := P))) = events := by
  induction events with
  | nil => rfl
  | cons e events ih => rw [List.map_cons, requests_request, ih]

def sensor : Device plainPlatform := ⟨plainKey 7⟩

/-- The challenge that the sensor signs when it is registered. -/
def sensorChallenge : Signing := .challenge (toHex (List.replicate 32 7))

/-- The access that it signs with its token. -/
def sensorAccess : Signing :=
  .access (toHex (List.replicate 8 9)) (plainDid 7) (toHex (List.replicate 16 5))
    "temperature_sensor" "read"

def sensorProof : Event :=
  plainEvent 0 7 (.registerPop ⟨toHex (List.replicate 16 7),
    toHex (plainPlatform.ecdsaSign (plainKey 7) 0 (popMessage (List.replicate 32 7) (plainDid 7)))⟩)

def sensorRead : Event := plainEvent 3 0 (.tokensAccess ownRequest)

/-- What comes before the proof of possession of the sensor. -/
def beforeProof : List (Move plainPlatform) :=
  (tokenRun.take 2).map .request ++ [.sign sensor sensorChallenge]

/-- What comes before its first access. -/
def beforeRead : List (Move plainPlatform) :=
  beforeProof ++ [.request sensorProof] ++ (tokenRun.drop 3).map .request ++
    [.sign sensor sensorAccess]

theorem requests_beforeProof : requests beforeProof = tokenRun.take 2 := by
  rw [beforeProof, requests_append, requests_map]
  exact List.append_nil _

theorem requests_beforeRead : requests beforeRead = tokenRun := by
  rw [beforeRead, requests_append, requests_append, requests_append, requests_beforeProof,
    requests_map]
  rfl

theorem unpresented_tokenRun : (∀ e ∈ tokenRun.take 2, presented e.request = none) ∧
    ∀ e ∈ tokenRun.drop 3, presented e.request = none := by
  decide +kernel

theorem sensor_run : (issuedChallenges plainNode tokenRun).Nodup ∧
    sought plainPlatform (after plainNode Fog.init (tokenRun.take 2)) sensorProof.request =
      some (toHex sensor.pkBytes, .possession (plainDid 7) (List.replicate 32 7)) := by
  decide +kernel

theorem sensorRead_sought (fog : Fog) : sought plainPlatform fog sensorRead.request =
    some (toHex sensor.pkBytes, .access (toHex (List.replicate 8 9)) (plainDid 7)
      (toHex (List.replicate 16 5)) "temperature_sensor" "read") := rfl

theorem sensor_signed_challenge :
    SignedBy (world plainNode beforeProof) sensor
      (popMessage (List.replicate 32 7) (plainDid 7)) := by
  have hauth : authorization sensor sensorChallenge =
      some (.possession (plainDid 7) (List.replicate 32 7)) := by
    simp only [sensorChallenge, authorization, fromhex_toHex]
    rfl
  have hmem : Move.sign sensor sensorChallenge ∈ beforeProof :=
    List.mem_append_right _ List.mem_cons_self
  exact ⟨sensorChallenge, _, mem_signings hmem, hauth, rfl⟩

theorem sensor_signed_access :
    SignedBy (world plainNode beforeRead) sensor
      (accessMessage (toHex (List.replicate 8 9)) (plainDid 7) (toHex (List.replicate 16 5))
        "temperature_sensor" "read") := by
  have hmem : Move.sign sensor sensorAccess ∈ beforeRead :=
    List.mem_append_right _ List.mem_cons_self
  exact ⟨sensorAccess, _, mem_signings hmem, rfl, rfl⟩

theorem sensor_authentic : Admissible (move plainNode) (Authentic plainNode {sensor}) World.init
    (beforeRead ++ [.request sensorRead]) := by
  have hproof : Authentic plainNode {sensor} (world plainNode beforeProof)
      (.request sensorProof) := by
    refine ⟨deviceSigned_of (a := .possession (plainDid 7) (List.replicate 32 7))
      ⟨_, ?_, fromhex_toHex _⟩ sensor_signed_challenge, fun body hreq ↦ by cases hreq⟩
    rw [world_fog, requests_beforeProof]
    exact sensor_run.2
  have hread : Authentic plainNode {sensor} (world plainNode beforeRead) (.request sensorRead) := by
    refine ⟨deviceSigned_of (a := .access (toHex (List.replicate 8 9)) (plainDid 7)
      (toHex (List.replicate 16 5)) "temperature_sensor" "read")
      ⟨_, sensorRead_sought _, fromhex_toHex _⟩ sensor_signed_access, fun body hreq _ ↦ ?_⟩
    cases hreq
    rw [world_fog, requests_beforeRead]
    exact ownRequest_signed
  rw [authentic_snoc, beforeRead, authentic_snoc, admissible_append, authentic_snoc, beforeProof,
    authentic_snoc]
  refine ⟨⟨⟨⟨⟨?_, trivial⟩, hproof⟩, ?_⟩, trivial⟩, hread⟩
  · exact authentic_requests unpresented_tokenRun.1 _
  · exact authentic_requests unpresented_tokenRun.2 _

/-- The sensor is allowed to read, on the signature that it made for this. -/
theorem one_signature_once_read : ∃ s, (sensor, s) ∈ (world plainNode beforeRead).signings ∧
    authorization sensor s = some (.access (toHex (List.replicate 8 9)) (plainDid 7)
      (toHex (List.replicate 16 5)) "temperature_sensor" "read") := by
  have hall : requests (beforeRead ++ [.request sensorRead]) = tokenRun ++ [sensorRead] := by
    rw [requests_append, requests_beforeRead]
    rfl
  have hchallenges : (issuedChallenges plainNode
      (requests (beforeRead ++ [.request sensorRead]))).Nodup := by
    rw [hall, issuedChallenges, outputs_snoc]
    exact (List.append_nil _).symm ▸ sensor_run.1
  have hnonces : (issuedNonces plainNode
      (requests (beforeRead ++ [.request sensorRead]))).Nodup := by
    rw [hall, issuedNonces, outputs_snoc]
    exact (List.append_nil _).symm ▸ tokenRun_ready.1
  have hok : Successful plainNode (world plainNode beforeRead).fog sensorRead := by
    rw [world_fog, requests_beforeRead]
    exact ownRequest_allowed
  obtain ⟨pk, a, hbacked⟩ := (one_signature_once plainNode {sensor}
    (beforeRead ++ [.request sensorRead]) hchallenges hnonces sensor_authentic).1
    beforeRead sensorRead [] rfl hok
  obtain ⟨rfl, rfl⟩ := hbacked.seeks.unique ⟨_, sensorRead_sought _, fromhex_toHex _⟩
  exact hbacked.signed sensor rfl rfl

end FogNode.Proofs
