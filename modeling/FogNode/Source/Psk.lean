import FogNode.Library.Dict
import FogNode.Source.Platform

namespace FogNode.Source

open FogNode.Library

variable (P : Platform)

/-- `hash_psk`. -/
def hashPsk (pskHex : String) : Except PyError String :=
  (fromhex pskHex).map fun psk ↦ toHex (P.sha256 psk)

/-- `PSKStore.check` over the stored hashes. -/
def pskCheck (hashes : Dict String String) (provisioningId pskHex : String) : Bool :=
  match hashPsk P pskHex, hashes.get? provisioningId with
  | .ok presented, some stored => presented = stored
  | _, _ => false

def isSpace (c : Char) : Bool :=
  let n := c.toNat
  (9 ≤ n && n ≤ 13) || (28 ≤ n && n ≤ 32) || n = 133 || n = 160 || n = 5760 ||
    (8192 ≤ n && n ≤ 8202) || n = 8232 || n = 8233 || n = 8239 || n = 8287 || n = 12288

/-- `text.strip()`. -/
def strip (l : List Char) : List Char :=
  ((l.dropWhile isSpace).reverse.dropWhile isSpace).reverse

/-- `text.split(c, 1)` where `c` occurs. -/
def splitOnce (c : Char) (l : List Char) : Option (List Char × List Char) :=
  match l.dropWhile (· ≠ c) with
  | [] => none
  | _ :: rest => some (l.takeWhile (· ≠ c), rest)

/-- `parse_authorization`. -/
def parseAuthorization (header : Option String) : Option (String × String) :=
  match header with
  | none => none
  | some header =>
    match splitOnce ' ' (strip header.toList) with
    | none => none
    | some (scheme, rest) =>
      if scheme ≠ "PSK".toList then none
      else
        match splitOnce ':' rest with
        | none => none
        | some (provId, psk) =>
          if provId = [] ∨ psk = [] then none
          else some (String.ofList provId, String.ofList psk)

example : parseAuthorization (some "PSK temp01:ab:cd ") = some ("temp01", "ab:cd") := by decide

end FogNode.Source
