import FogNode.Source.AccessPolicy
import FogNode.Source.CryptoUtils

namespace FogNode.Source

open FogNode.Library

def TOKEN_TTL_SECONDS : ℤ := 120
def TOKEN_ACCESS_LABEL : Bytes := utf8 "IIOT_TOKEN_ACCESS_V1"
def TOKEN_NONCE_PURPOSE : String := "token_access"

variable (P : Platform)

def textOrNull : Option String → Json
  | some s => .str s
  | none => .null

/-- `_signed_fields`. -/
def signedFields (token : List (String × Json)) : List (String × Json) :=
  Json.without "signature" token

/-- The fields of a token before it is signed. -/
def tokenFields (tokenId did publicKeyHex : String) (deviceType role : Option String)
    (epochId ttl : ℤ) (now : ℚ) : List (String × Json) :=
  [("token_id", .str tokenId), ("did", .str did), ("public_key", .str publicKeyHex),
    ("device_type", textOrNull deviceType), ("role", textOrNull role),
    ("scope", .str "provisional"),
    ("allowed_operations", .arr (PROVISIONAL_OPERATIONS.map .str)),
    ("queued_for_epoch", .int epochId), ("issued_at", .float now),
    ("expires_at", .float (now + ttl))]

/-- Returns the token and the message signed for it. -/
def issueToken (tokenId did publicKeyHex : String) (deviceType role : Option String)
    (key : P.PrivateKey) (coins : ℕ) (epochId ttl : ℤ) (now : ℚ) :
    List (String × Json) × Bytes :=
  let fields := tokenFields tokenId did publicKeyHex deviceType role epochId ttl now
  let message := canonicalJson P fields
  (fields ++ [("signature", .str (toHex (sign P key coins message)))], message)

theorem issueToken_message (tokenId did publicKeyHex : String) (deviceType role : Option String)
    (key : P.PrivateKey) (coins : ℕ) (epochId ttl : ℤ) (now : ℚ) :
    (issueToken P tokenId did publicKeyHex deviceType role key coins epochId ttl now).2 =
      canonicalJson P (tokenFields tokenId did publicKeyHex deviceType role epochId ttl now) := by
  simp only [issueToken]

/-- A missing, malformed or wrong signature is no exception. -/
def tokenSignatureValid (token : List (String × Json)) (key : P.PrivateKey) : Bool :=
  match Json.field "signature" token with
  | some (.str signature) =>
    match fromhex signature with
    | .error _ => false
    | .ok sig => verify P (publicKeyBytes P key) (canonicalJson P (signedFields token)) sig
  | _ => false

/-- Only an integer too large for a float escapes as an exception. -/
def tokenExpired (token : List (String × Json)) (now : ℚ) : Except PyError Bool :=
  match pyFloat P ((Json.field "expires_at" token).getD (.int 0)) with
  | .ok deadline => .ok (deadline.exceededBy now)
  | .error (.overflowError e) => .error (.overflowError e)
  | .error _ => .ok true

def join (parts : List Bytes) : Bytes := SEPARATOR.intercalate parts

def accessMessage (tokenId did nonce resource operation : String) : Bytes :=
  join [TOKEN_ACCESS_LABEL, utf8 tokenId, utf8 did, utf8 nonce, utf8 resource, utf8 operation]

/-- Device side helper. -/
def signAccess (key : P.PrivateKey) (coins : ℕ) (tokenId did nonce resource operation : String) :
    String :=
  toHex (sign P key coins (accessMessage tokenId did nonce resource operation))

def accessSignatureValid (token : List (String × Json)) (nonce resource operation : String)
    (signatureHex : String) : Bool :=
  match Json.field "public_key" token, Json.field "token_id" token, Json.field "did" token with
  | some (.str publicKey), some (.str tokenId), some (.str did) =>
    match fromhex publicKey, fromhex signatureHex with
    | .ok pkBytes, .ok sig =>
      verify P pkBytes (accessMessage tokenId did nonce resource operation) sig
    | _, _ => false
  | _, _, _ => false

end FogNode.Source
