import FogNode.Library.Dict
import FogNode.Library.Double
import FogNode.Library.Json

namespace FogNode.Source

open FogNode.Library

def NONCE_TTL_SECONDS : ℤ := 30

inductive NonceStatus
  | ok
  | unknown
  | wrongSubject
  | expired
  | reused
  deriving DecidableEq, Repr

def NonceStatus.value : NonceStatus → String
  | .ok => "ok"
  | .unknown => "nonce_unknown"
  | .wrongSubject => "nonce_not_for_this_request"
  | .expired => "nonce_expired"
  | .reused => "nonce_reused"

structure NonceEntry where
  purpose : String
  subject : String
  expiresAt : ℚ
  used : Bool
  deriving DecidableEq, Repr

abbrev NonceBook := Dict String NonceEntry

namespace NonceBook

variable (book : NonceBook)

def purge (now : ℚ) : NonceBook := book.filter fun _ e ↦ decide (now ≤ e.expiresAt)

/-- `plus` is the addition of floats, which is exact where today's clock and whole
seconds are added. -/
def issue (plus : ℚ → ℚ → ℚ) (ttl now : ℚ) (purpose subject nonce : String) : NonceBook :=
  Dict.set (purge book now) nonce ⟨purpose, subject, plus now ttl, false⟩

/-- The subject of a request is a decoded JSON value, that of an entry is text. -/
def consume (now : ℚ) (purpose : String) (subject : Json) (nonce : String) :
    NonceStatus × NonceBook :=
  match book.get? nonce with
  | none => (.unknown, book)
  | some e =>
    match subject with
    | .str subject =>
      if e.purpose ≠ purpose ∨ e.subject ≠ subject then (.wrongSubject, book)
      else if e.used then (.reused, book)
      else if e.expiresAt < now then (.expired, book.erase nonce)
      else (.ok, book.set nonce { e with used := true })
    | _ => (.wrongSubject, book)

end NonceBook

/-- A call of `issue`, which draws the nonce, or of `consume`, with its clock reading. -/
inductive NonceCall
  | issue (now : ℚ) (purpose subject nonce : String)
  | consume (now : ℚ) (purpose : String) (subject : Json) (nonce : String)

def NonceCall.now : NonceCall → ℚ
  | .issue now _ _ _ => now
  | .consume now _ _ _ => now

/-- The nonce that the call draws. -/
def NonceCall.drawn : NonceCall → Option String
  | .issue _ _ _ nonce => some nonce
  | .consume _ _ _ _ => none

/-- What the call makes of a book with the given `ttl`. -/
def callBook (ttl : ℚ) (book : NonceBook) : NonceCall → NonceBook
  | .issue now purpose subject nonce =>
    NonceBook.issue book Double.add ttl now purpose subject nonce
  | .consume now purpose subject nonce => (NonceBook.consume book now purpose subject nonce).2

structure TokenState where
  issued : Dict String String
  revokedTokenIds : List String
  nonces : NonceBook

namespace TokenState

def empty : TokenState := ⟨∅, [], ∅⟩

variable (state : TokenState)

def recordIssued (tokenId did : String) : TokenState :=
  { state with issued := state.issued.set tokenId did }

def wasIssued (tokenId : String) : Bool := (state.issued.get? tokenId).isSome

def ownerOf (tokenId : String) : Option String := state.issued.get? tokenId

def tokensOf (did : String) : List String :=
  (state.issued.entries.filter fun e ↦ decide (e.2 = did)).map Prod.fst

def revoke (tokenId : String) : TokenState :=
  { state with revokedTokenIds := tokenId :: state.revokedTokenIds }

def isRevoked (tokenId : String) : Bool := state.revokedTokenIds.contains tokenId

end TokenState

end FogNode.Source
