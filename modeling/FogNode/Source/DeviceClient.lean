import FogNode.Source.Device
import FogNode.Source.Main

namespace FogNode.Source

open FogNode.Library

def FOG_ZONE : String := "factory_A"
def DEFAULT_VENDOR : String := "Acme"

def ALLOWED_DEVICE_TYPES : List String :=
  ["temperature_sensor", "pressure_sensor", "smart_meter", "camera", "valve_controller",
    "motor_controller", "plc"]

def SIM_DEVICE_TYPE : String × String := ("temperature_sensor", "sensor")

/-- Name, type and role of the provisioned devices. -/
def DEMO_DEVICES : List (String × String × String) :=
  [("temp01", "temperature_sensor", "sensor"), ("pressure01", "pressure_sensor", "sensor"),
    ("meter01", "smart_meter", "sensor"), ("camera01", "camera", "monitor"),
    ("valve01", "valve_controller", "actuator"), ("motor01", "motor_controller", "actuator"),
    ("plc01", "plc", "controller"), ("temp02", "temperature_sensor", "sensor")]

/-- `value or default`. -/
def orDefault (value : Option String) (default : String) : String :=
  match value with
  | some s => if s = "" then default else s
  | none => default

/-- The arguments of `submit_metadata`. -/
structure MetadataArgs where
  deviceType : Option String
  role : Option String
  vendor : String
  zone : String

def MetadataArgs.default : MetadataArgs := ⟨none, none, DEFAULT_VENDOR, FOG_ZONE⟩

/-- A device with its name and the pre-shared key provisioned for it. -/
structure Client (P : Platform) extends Device P where
  name : String
  psk : String

variable {P : Platform}

namespace Client

variable (client : Client P)

def authorization : String := s!"PSK {client.name}:{client.psk}"

def publicKeyHex : String := toHex client.pkBytes

/-- The body that `submit_metadata` sends. -/
def metadata (args : MetadataArgs) (sessionId : String) : MetadataRequest :=
  let defaults := (DEMO_DEVICES.lookup client.name).getD SIM_DEVICE_TYPE
  { sessionId := sessionId
    deviceName := client.name
    deviceType := orDefault args.deviceType defaults.1
    zone := args.zone
    vendor := args.vendor
    role := orDefault args.role defaults.2 }

end Client

/-- How far a device has come in `register`. A step that is not answered with status 200,
or without the field that the next one needs, ends it. -/
inductive Stage
  | idle
  | started (sessionId : String)
  | challenged (sessionId challenge : String)
  | proved (sessionId : String)
  | queued (sessionId leaf : String) (epochId : ℤ)
  | failed (stage : String) (r : Response)

/-- The session in which the device is registering. -/
def Stage.session : Stage → Option String
  | .started sessionId | .challenged sessionId _ | .proved sessionId => some sessionId
  | .idle | .queued _ _ _ | .failed _ _ => none

/-- How many steps of `register` are behind the device. -/
def Stage.steps : Stage → ℕ
  | .idle | .failed _ _ => 0
  | .started _ => 1
  | .challenged _ _ => 2
  | .proved _ => 3
  | .queued _ _ _ => 4

/-- `register_start`. -/
def registerStartAnswered (r : Response) : Stage :=
  match r.text "session_id" with
  | some sessionId => .started sessionId
  | none => .failed "register_start" r

/-- `submit_public_key`. -/
def publicKeyAnswered (sessionId : String) (r : Response) : Stage :=
  match r.text "challenge" with
  | some challenge => .challenged sessionId challenge
  | none => .failed "submit_public_key" r

/-- `prove_possession`. -/
def possessionAnswered (sessionId : String) (r : Response) : Stage :=
  match r with
  | .ok _ => .proved sessionId
  | r => .failed "prove_possession" r

/-- `submit_metadata`. -/
def metadataAnswered (sessionId : String) (r : Response) : Stage :=
  match r.text "leaf", r.integer "epoch_id" with
  | some leaf, some epochId => .queued sessionId leaf epochId
  | _, _ => .failed "submit_metadata" r

/-- A fog and a device that registers with it. -/
structure Registering where
  fog : Fog
  stage : Stage

/-- The device makes its next request, or the fog handles a request of somebody else. -/
inductive RegisterTurn
  | device (env : Env) (coins : ℕ)
  | other (e : Event)

variable (node : Node P) (client : Client P) (args : MetadataArgs)

/-- The next request of the device, if it gets so far. -/
def Client.request (coins : ℕ) : Stage → Except PyError (Option Request)
  | .idle => .ok (some (.registerStart (some client.authorization)))
  | .started sessionId =>
    .ok (some (.registerPubkey ⟨sessionId, client.did, client.publicKeyHex⟩))
  | .challenged sessionId challenge =>
    match client.signChallenge coins challenge with
    | .ok signature => .ok (some (.registerPop ⟨sessionId, signature⟩))
    | .error e => .error e
  | .proved sessionId => .ok (some (.registerMetadata (client.metadata args sessionId)))
  | .queued _ _ _ | .failed _ _ => .ok none

/-- Where the answer leaves the device. -/
def Stage.answered (r : Response) : Stage → Stage
  | .idle => registerStartAnswered r
  | .started sessionId => publicKeyAnswered sessionId r
  | .challenged sessionId _ => possessionAnswered sessionId r
  | .proved sessionId => metadataAnswered sessionId r
  | .queued sessionId leaf epochId => .queued sessionId leaf epochId
  | .failed stage r => .failed stage r

def registerTurn (world : Registering) : RegisterTurn → Registering
  | .other e => { world with fog := step node world.fog e }
  | .device env coins =>
    match client.request args coins world.stage with
    | .ok (some request) =>
      let e : Event := ⟨env, request⟩
      ⟨step node world.fog e, world.stage.answered (answer node world.fog e)⟩
    | .ok none => world
    | .error e => { world with stage := .failed "prove_possession" (.serverError e) }

end FogNode.Source
