import Mathlib.Tactic.Common

namespace FogNode.Source

abbrev Operations := List (String × List String)

def SENSOR_OPERATIONS : Operations :=
  [("read", ["sensor", "monitor", "controller"]), ("write", ["sensor"]), ("stop", ["controller"])]

def ACTUATOR_OPERATIONS : Operations :=
  [("read", ["sensor", "monitor", "controller"]), ("write", ["actuator", "controller"]),
    ("stop", ["actuator", "controller"])]

/-- Resource type, operation, roles allowed to perform it. -/
def POLICY_TABLE : List (String × Operations) :=
  [("temperature_sensor", SENSOR_OPERATIONS),
    ("pressure_sensor", SENSOR_OPERATIONS),
    ("smart_meter", SENSOR_OPERATIONS),
    ("camera", [("read", ["sensor", "monitor", "controller"]), ("stream", ["monitor"]),
      ("stop", ["controller"])]),
    ("valve_controller", ACTUATOR_OPERATIONS),
    ("motor_controller", ACTUATOR_OPERATIONS),
    ("plc", [("read", ["sensor", "monitor", "controller"]), ("write", ["controller"]),
      ("stop", ["controller"])])]

/-- Device type, roles it may hold. -/
def ROLES_FOR_TYPE : List (String × List String) :=
  [("temperature_sensor", ["sensor"]),
    ("pressure_sensor", ["sensor"]),
    ("smart_meter", ["sensor"]),
    ("camera", ["monitor", "sensor"]),
    ("valve_controller", ["actuator"]),
    ("motor_controller", ["actuator"]),
    ("plc", ["controller"])]

/-- The set in the order of `sorted`. -/
def PROVISIONAL_OPERATIONS : List String := ["read", "write"]

def checkPolicy (resource operation role : String) : Bool :=
  match POLICY_TABLE.lookup resource with
  | none => false
  | some ops =>
    match ops.lookup operation with
    | none => false
    | some allowedRoles => allowedRoles.contains role

def roleValidForType (deviceType role : Option String) : Bool :=
  match deviceType, role with
  | some deviceType, some role =>
    deviceType ≠ "" && role ≠ "" && ((ROLES_FOR_TYPE.lookup deviceType).getD []).contains role
  | _, _ => false

def provisionalAllowed (ownType resource operation : String) : Bool :=
  resource = ownType && PROVISIONAL_OPERATIONS.contains operation

end FogNode.Source
