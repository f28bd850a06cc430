import FogNode.Library.Pattern
import FogNode.Source.Schemas

namespace FogNode.Source

open FogNode.Library

def isNameChar (c : Char) : Bool := ('a' ≤ c && c ≤ 'z') || ('0' ≤ c && c ≤ '9') || c = '_'

/-- `^[a-z0-9_]{2,32}$`. -/
def NAME_PATTERN : Pattern := .seq .start (.seq (.times (.one isNameChar) 2 32) .finish)

/-- `NAME_PATTERN.match(name)` for `^[a-z0-9_]{2,32}$`, where `$` also matches
before a line break that ends the text. -/
def nameMatches (name : String) : Bool :=
  let chars := name.toList
  let body := if chars.getLast? = some '\n' then chars.dropLast else chars
  body.all isNameChar && 2 ≤ body.length && body.length ≤ 32

/-- The set in the order of `sorted`. -/
def ALLOWED_ROLES : List String := ["actuator", "controller", "monitor", "sensor"]

def ALLOWED_VENDORS : List String := ["Acme", "Siemens", "Bosch", "ABB", "Honeywell"]

def validateMetadata (body : MetadataRequest) (zone : String) (allowedTypes : List String) :
    List String :=
  (if nameMatches body.deviceName then [] else
    ["device_name must be 2 to 32 chars of a to z, 0 to 9 or underscore"]) ++
  (if allowedTypes.contains body.deviceType then [] else
    [s!"device_type '{body.deviceType}' is not permitted in this zone"]) ++
  (if body.zone = zone then [] else
    [s!"zone '{body.zone}' does not match this fog's zone '{zone}'"]) ++
  (if ALLOWED_ROLES.contains body.role then [] else
    [s!"role '{body.role}' is not one of ['actuator', 'controller', 'monitor', 'sensor']"]) ++
  (if ALLOWED_VENDORS.contains body.vendor then [] else
    [s!"vendor '{body.vendor}' is not an approved vendor"])

end FogNode.Source
