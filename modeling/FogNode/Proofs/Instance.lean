import FogNode.Library.Sha256
import FogNode.Source.Main

namespace FogNode.Proofs

open FogNode.Library FogNode.Source

/-- A fraction printed as its numerator, a point, and its denominator less one, so
that a whole number prints as the interpreter prints it. -/
def pointed (q : ℚ) : List Char := Json.decimal q.num ++ '.' :: Json.decimal (q.den - 1)

theorem takeWhile_pointed (q : ℚ) : (pointed q).takeWhile (· ≠ '.') = Json.decimal q.num := by
  have hnone : ∀ c ∈ Json.decimal q.num, decide (c ≠ '.') = true := by
    intro c hc
    simp only [ne_eq, decide_not, Bool.not_eq_true', decide_eq_false_iff_not]
    rintro rfl
    exact (Json.decimal_unmarked q.num).1 hc
  rw [pointed, List.takeWhile_append_of_pos hnone, List.takeWhile_cons_of_neg (by simp),
    List.append_nil]

theorem pointed_injective : Function.Injective pointed := by
  intro p q h
  have hnum : Json.decimal p.num = Json.decimal q.num := by
    rw [← takeWhile_pointed, h, takeWhile_pointed]
  rw [pointed, pointed, hnum] at h
  have hden := Json.decimal_injective (List.cons_inj_right _ |>.mp (List.append_cancel_left h))
  apply Rat.ext (Json.decimal_injective hnum)
  omega

theorem pointed_numeric (q : ℚ) : ∀ c ∈ pointed q, Json.isNumeric c = true := by
  intro c hc
  simp only [pointed, List.mem_append, List.mem_cons] at hc
  rcases hc with hc | rfl | hc
  · exact Json.isNumeric_of_mem_decimal hc
  · rfl
  · exact Json.isNumeric_of_mem_decimal hc

def pointFormat : Json.FloatFormat where
  repr := pointed
  injective := pointed_injective
  numeric := pointed_numeric
  marked q := .inl (by simp [pointed])

/-- A private key of 32 bytes. -/
abbrev PlainKey := { key : Bytes // key.length = 32 }

/-- A platform with SHA-256 in which a signature is the key and the message put
together: it verifies for that key and that message only. -/
def plainPlatform : Platform where
  sha256 := sha256
  sha256_length := sha256_length
  PrivateKey := PlainKey
  PublicKey := Bytes
  publicBytes key := 2 :: key.1
  fromEncodedPoint bytes :=
    if bytes.length = COMPRESSED_PK_LEN ∧ (bytes.head? = some 2 ∨ bytes.head? = some 3) then
      some bytes
    else none
  ecdsaSign key _ message := (2 :: key.1) ++ message
  ecdsaVerify key message signature := decide (signature = key ++ message)
  floats := pointFormat
  reprCodes codes := "'" ++ codes.decode?.getD "..." ++ "'"
  reprContainer _ := "[...]"
  floatOfStr _ := none
  intField
    | .int n => some n
    | .bool b => some (if b then 1 else 0)
    | _ => none
  intField_int _ := rfl
  intField_bool _ := rfl

theorem plain_signsCorrectly (key : PlainKey) : SignsCorrectly plainPlatform key := by
  intro coins message
  have hlen : (2 :: key.1).length = COMPRESSED_PK_LEN := by
    rw [List.length_cons, key.2]
    rfl
  simp [verify, loadPublicKey, publicKeyBytes, plainPlatform, hlen, sign]

theorem plain_binds (pk sig m m' : Bytes) : Binds plainPlatform pk sig m m' := by
  intro h h'
  unfold verify at h h'
  cases hkey : loadPublicKey plainPlatform pk with
  | error e => simp [hkey] at h
  | ok key =>
    rw [hkey] at h h'
    have hm : sig = (show Bytes from key) ++ m := of_decide_eq_true h
    have hm' : sig = (show Bytes from key) ++ m' := of_decide_eq_true h'
    exact List.append_cancel_left (hm.symm.trans hm')

/-- A key that repeats one byte. -/
def plainKey (seed : UInt8) : PlainKey := ⟨List.replicate 32 seed, List.length_replicate⟩

def plainNode : Node plainPlatform where
  fogId := "fog1"
  zone := "zone_a"
  signingKey := plainKey 1
  pskStore := Dict.ofList [("temp01", toHex (sha256 [1, 2]))]
  sessionTtl := 300
  challengeTtl := 60
  adminKey := "admin"
  allowedTypes := ["temperature_sensor", "plc"]
  carryForward := true

/-- Surroundings at a moment, with draws that repeat one byte. -/
def plainEnv (moment : ℕ) (seed : UInt8) (disk : Option DiskFault) : Env where
  now := moment
  later := moment
  draw n := ⟨List.replicate n seed, List.length_replicate⟩
  coins := 0
  timestamp := "2025-01-01T00:00:00Z"
  disk := disk

def plainEvent (moment : ℕ) (seed : UInt8) (request : Request) : Event :=
  ⟨plainEnv moment seed none, request⟩

def plainDid (seed : UInt8) : String :=
  deriveDid plainPlatform (plainPlatform.publicBytes (plainKey seed))

/-- The four requests that register the device with the given key. -/
def registration (key : PlainKey) (moment : ℕ) (seed : UInt8) : List Event :=
  let pk := plainPlatform.publicBytes key
  let did := deriveDid plainPlatform pk
  let sessionId := toHex (List.replicate 16 seed)
  let message := popMessage (List.replicate 32 seed) did
  [plainEvent moment seed (.registerStart (some "PSK temp01:0102")),
    plainEvent moment seed (.registerPubkey ⟨sessionId, did, toHex pk⟩),
    plainEvent moment seed
      (.registerPop ⟨sessionId, toHex (plainPlatform.ecdsaSign key 0 message)⟩),
    plainEvent moment seed (.registerMetadata
      ⟨sessionId, "probe_1", "temperature_sensor", "zone_a", "Acme", "sensor"⟩)]

/-- The fog with one queued device. -/
def queuedFog : Fog := after plainNode Fog.init (registration (plainKey 7) 0 7)

end FogNode.Proofs
