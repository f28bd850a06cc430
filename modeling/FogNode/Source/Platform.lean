import FogNode.Library.CodePoints
import FogNode.Library.Json

namespace FogNode.Source

open FogNode.Library

inductive PyError
  | valueError (msg : String)
  | keyError (key : String)
  | indexError (msg : String)
  | typeError (msg : String)
  | attributeError (msg : String)
  | overflowError (msg : String)
  | validationError (model : String)
  | osError (msg : String)
  | ledgerError (msg : String)
  | epochError (msg : String)
  deriving DecidableEq, Repr

/-- A float as the interpreter compares it. -/
inductive PyFloat
  | finite (q : ℚ)
  | inf
  | negInf
  | nan

/-- `now > deadline`; every comparison with a NaN is false. -/
def PyFloat.exceededBy (now : ℚ) : PyFloat → Bool
  | .finite q => decide (q < now)
  | .inf => false
  | .negInf => true
  | .nan => false

/-- What the fog uses from outside the repository: SHA-256, ECDSA on P256, the
interpreter's text of floats, strings and containers, and pydantic's reading of
an integer field. Signing takes the randomness of the signature as an argument. -/
structure Platform where
  sha256 : Bytes → Bytes
  sha256_length : ∀ data, (sha256 data).length = 32
  PrivateKey : Type
  PublicKey : Type
  publicBytes : PrivateKey → Bytes
  fromEncodedPoint : Bytes → Option PublicKey
  ecdsaSign : PrivateKey → ℕ → Bytes → Bytes
  ecdsaVerify : PublicKey → Bytes → Bytes → Bool
  floats : Json.FloatFormat
  reprCodes : CodePoints → String
  reprContainer : Json → String
  floatOfStr : String → Option PyFloat
  intField : Json → Option ℤ
  intField_int : ∀ n, intField (.int n) = some n
  intField_bool : ∀ b, intField (.bool b) = some (if b then 1 else 0)

variable (P : Platform)

/-- `repr(text)` of a text without surrogates. -/
def Platform.reprStr (s : String) : String := P.reprCodes (.ofString s)

/-- `str(value)` of a decoded JSON value. -/
def pyStr : Json → String
  | .str s => s
  | .null => "None"
  | .bool true => "True"
  | .bool false => "False"
  | .int n => String.ofList (Json.decimal n)
  | .float q => String.ofList (P.floats.repr q)
  | .arr items => P.reprContainer (.arr items)
  | .obj fields => P.reprContainer (.obj fields)

/-- `float(value)` of a decoded JSON value. An integer that rounds to `2 ^ 1024`
or more does not fit. -/
def pyFloat : Json → Except PyError PyFloat
  | .float q => .ok (.finite q)
  | .bool b => .ok (.finite (if b then 1 else 0))
  | .int n => if n.natAbs < 2 ^ 1024 - 2 ^ 970 then .ok (.finite n) else
    .error (.overflowError "int too large to convert to float")
  | .str s =>
    match P.floatOfStr s with
    | some q => .ok q
    | none => .error (.valueError s!"could not convert string to float: {P.reprStr s}")
  | .null | .arr _ | .obj _ =>
    .error (.typeError "float() argument must be a string or a real number")

/-- The most decimal digits between which and an integer the interpreter converts. -/
def INT_MAX_STR_DIGITS : ℕ := 4300

def strDigits (n : ℤ) : ℕ := (Nat.toDigits 10 n.natAbs).length

def tooManyDigits (detail : String) : PyError :=
  .valueError (s!"Exceeds the limit ({INT_MAX_STR_DIGITS} digits) for integer string conversion" ++
    detail ++ "; use sys.set_int_max_str_digits() to increase the limit")

/-- `int(text)` of the decimal text of `n`. -/
def intOfStr (n : ℤ) : Except PyError ℤ :=
  if strDigits n ≤ INT_MAX_STR_DIGITS then .ok n
  else .error (tooManyDigits s!": value has {strDigits n} digits")

/-- `str(n)`. -/
def strOfInt (n : ℤ) : Except PyError String :=
  if strDigits n ≤ INT_MAX_STR_DIGITS then .ok (String.ofList (Json.decimal n))
  else .error (tooManyDigits "")

/-- `fields[key]` on a decoded JSON object. -/
def getItem (fields : List (String × Json)) (key : String) : Except PyError Json :=
  match Json.field key fields with
  | some v => .ok v
  | none => .error (.keyError key)

theorem getItem_ok {fields : List (String × Json)} {key : String} {v : Json} :
    getItem fields key = .ok v ↔ Json.field key fields = some v := by
  unfold getItem
  cases Json.field key fields <;> simp

/-- `bytes.fromhex(text)`. -/
def fromhex (text : String) : Except PyError Bytes :=
  match fromHex text with
  | .ok bytes => .ok bytes
  | .error p => .error (.valueError
      s!"non-hexadecimal number found in fromhex() arg at position {p}")

theorem fromhex_ok {text : String} {bytes : Bytes} :
    fromhex text = .ok bytes ↔ fromHex text = .ok bytes := by
  unfold fromhex
  cases fromHex text <;> simp

theorem fromhex_error {text : String} {e : PyError} (h : fromhex text = .error e) :
    ∃ msg, e = .valueError msg := by
  unfold fromhex at h
  cases hx : fromHex text with
  | error p =>
    rw [hx] at h
    exact ⟨_, (Except.error.inj h).symm⟩
  | ok bytes =>
    rw [hx] at h
    cases h

@[simp] theorem fromhex_toHex (bytes : Bytes) : fromhex (toHex bytes) = .ok bytes :=
  fromhex_ok.mpr (fromHex_toHex bytes)

end FogNode.Source
