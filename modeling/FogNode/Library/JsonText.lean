import FogNode.Library.Dict
import FogNode.Library.Json

namespace FogNode.Library.Json

/-- How a text is laid out: how strings are quoted, what stands before an item of that
depth, and what stands after a colon. -/
structure Layout where
  quote : String → List Char
  gap : ℕ → List Char
  colon : List Char

variable (fmt : FloatFormat) (layout : Layout)

mutual

/-- The text of a value that stands at the given depth. -/
def write : ℕ → Json → List Char
  | _, .null => ['n', 'u', 'l', 'l']
  | _, .bool true => ['t', 'r', 'u', 'e']
  | _, .bool false => ['f', 'a', 'l', 's', 'e']
  | _, .int n => decimal n
  | _, .float q => fmt.repr q
  | _, .str s => layout.quote s
  | _, .arr [] => ['[', ']']
  | d, .arr (x :: items) =>
    '[' :: (layout.gap (d + 1) ++ (write (d + 1) x ++ writeItems d items))
  | _, .obj [] => ['{', '}']
  | d, .obj ((k, v) :: fields) =>
    '{' :: (layout.gap (d + 1) ++ (layout.quote k ++
      ':' :: (layout.colon ++ (write (d + 1) v ++ writeFields d fields))))

def writeItems : ℕ → List Json → List Char
  | d, [] => layout.gap d ++ [']']
  | d, x :: items => ',' :: (layout.gap (d + 1) ++ (write (d + 1) x ++ writeItems d items))

def writeFields : ℕ → List (String × Json) → List Char
  | d, [] => layout.gap d ++ ['}']
  | d, (k, v) :: fields =>
    ',' :: (layout.gap (d + 1) ++ (layout.quote k ++
      ':' :: (layout.colon ++ (write (d + 1) v ++ writeFields d fields))))

end

/-- No white space, and every character that may stand in a string stands for itself. -/
def compact : Layout := ⟨quote, fun _ ↦ [], []⟩

def hex16 (n : ℕ) : List Char :=
  [Hex.digit (n / 4096), Hex.digit (n / 256 % 16), Hex.digit (n / 16 % 16), Hex.digit (n % 16)]

/-- The UTF-16 code units of a character. -/
def utf16 (c : Char) : List ℕ :=
  if c.toNat < 0x10000 then [c.toNat]
  else [0xD800 + (c.toNat - 0x10000) / 0x400, 0xDC00 + (c.toNat - 0x10000) % 0x400]

/-- Only printable ASCII stands for itself. -/
def escapeAscii (c : Char) : List Char :=
  if c = '"' then ['\\', '"']
  else if c = '\\' then ['\\', '\\']
  else if c = '\n' then ['\\', 'n']
  else if c = '\r' then ['\\', 'r']
  else if c = '\t' then ['\\', 't']
  else if c = '\x0c' then ['\\', 'f']
  else if c = '\x08' then ['\\', 'b']
  else if 32 ≤ c.toNat ∧ c.toNat ≤ 126 then [c]
  else (utf16 c).flatMap fun n ↦ '\\' :: 'u' :: hex16 n

def quoteAscii (s : String) : List Char := '"' :: s.toList.flatMap escapeAscii ++ ['"']

/-- One item a line, each level `n` columns further in. -/
def indented (n : ℕ) : Layout :=
  ⟨quoteAscii, fun d ↦ '\n' :: List.replicate (n * d) ' ', [' ']⟩

def isBlank (c : Char) : Bool := c = ' ' || c = '\n' || c = '\r' || c = '\t'

def skip (l : List Char) : List Char := l.dropWhile isBlank

def hexValue (c : Char) : Option ℕ := if c.toNat < 128 then Hex.charValue c else none

def readHex16 (a b c d : Char) : Option ℕ :=
  match hexValue a, hexValue b, hexValue c, hexValue d with
  | some a, some b, some c, some d => some (4096 * a + 256 * b + 16 * c + d)
  | _, _, _, _ => none

/-- The character that a backslash and a letter stand for. -/
def unescapeLetter (c : Char) : Option Char :=
  if c = '"' ∨ c = '\\' ∨ c = '/' then some c
  else if c = 'n' then some '\n'
  else if c = 'r' then some '\r'
  else if c = 't' then some '\t'
  else if c = 'f' then some '\x0c'
  else if c = 'b' then some '\x08'
  else none

/-- The code units up to the quotation mark, and what follows it. -/
def readUnits : List Char → Option (List ℕ × List Char)
  | [] => none
  | '"' :: l => some ([], l)
  | '\\' :: 'u' :: a :: b :: c :: d :: l =>
    match readHex16 a b c d with
    | none => none
    | some n => (readUnits l).map fun out ↦ (n :: out.1, out.2)
  | '\\' :: c :: l =>
    match unescapeLetter c with
    | none => none
    | some c => (readUnits l).map fun out ↦ (c.toNat :: out.1, out.2)
  | c :: l =>
    if c.toNat < 32 then none else (readUnits l).map fun out ↦ (c.toNat :: out.1, out.2)

/-- Every high surrogate with the low one after it is one code point. -/
def joinPairs : List ℕ → List ℕ
  | hi :: lo :: l =>
    if 0xD800 ≤ hi ∧ hi < 0xDC00 ∧ 0xDC00 ≤ lo ∧ lo < 0xE000 then
      (0x10000 + (hi - 0xD800) * 0x400 + (lo - 0xDC00)) :: joinPairs l
    else hi :: joinPairs (lo :: l)
  | l => l

/-- A code point that is no surrogate. -/
def charOf (n : ℕ) : Option Char := if h : n.isValidChar then some (Char.ofNatAux n h) else none

/-- The rest of a string after its opening quotation mark. A string with a lone
surrogate is not read. -/
def readString (l : List Char) : Option (String × List Char) :=
  match readUnits l with
  | none => none
  | some (units, l) => ((joinPairs units).mapM charOf).map fun cs ↦ (String.ofList cs, l)

/-- `0` or digits that do not begin with it. -/
def readWhole : List Char → Option (List Char × List Char)
  | '0' :: l => some (['0'], l)
  | l =>
    match l.takeWhile Char.isDigit with
    | [] => none
    | digits => some (digits, l.dropWhile Char.isDigit)

def readFraction : List Char → List Char × List Char
  | '.' :: l =>
    match l.takeWhile Char.isDigit with
    | [] => ([], '.' :: l)
    | digits => ('.' :: digits, l.dropWhile Char.isDigit)
  | l => ([], l)

def readSign : List Char → List Char × List Char
  | '+' :: l => (['+'], l)
  | '-' :: l => (['-'], l)
  | l => ([], l)

def readExponent : List Char → List Char × List Char
  | e :: l =>
    if e = 'e' ∨ e = 'E' then
      match (readSign l).2.takeWhile Char.isDigit with
      | [] => ([], e :: l)
      | digits => (e :: ((readSign l).1 ++ digits), (readSign l).2.dropWhile Char.isDigit)
    else ([], e :: l)
  | [] => ([], [])

variable (readFloat : List Char → Option ℚ)

/-- A number without a fraction and an exponent is an integer. -/
def readUnsigned (negative : Bool) (l : List Char) : Option (Json × List Char) :=
  match readWhole l with
  | none => none
  | some (whole, l) =>
    let (fraction, l) := readFraction l
    let (exponent, l) := readExponent l
    if fraction = [] ∧ exponent = [] then
      let n : ℤ := Nat.ofDigitChars 10 whole 0
      some (.int (if negative then -n else n), l)
    else
      (readFloat ((if negative then ['-'] else []) ++ (whole ++ (fraction ++ exponent)))).map
        fun q ↦ (.float q, l)

def readNumber : List Char → Option (Json × List Char)
  | '-' :: l => readUnsigned readFloat true l
  | l => readUnsigned readFloat false l

/-- The pairs as a dictionary: the last value of a key, in the place of the first. -/
def asDict (fields : List (String × Json)) : List (String × Json) :=
  fields.foldl (fun d e ↦ Dict.put e.1 e.2 d) []

/-- The key of a field with its colon, and the white space after it. -/
def readKey : List Char → Option (String × List Char)
  | '"' :: l =>
    match readString l with
    | none => none
    | some (k, l) =>
      match skip l with
      | ':' :: l => some (k, skip l)
      | _ => none
  | _ => none

/-- After an item: whether the bracket closes, and what follows it or the comma. -/
def readNext (close : Char) (l : List Char) : Option (Bool × List Char) :=
  match skip l with
  | [] => none
  | c :: l => if c = close then some (true, l) else if c = ',' then some (false, skip l) else none

mutual

/-- The value at the head of the text, and what follows it, read in so many steps. -/
def readValue : ℕ → List Char → Option (Json × List Char)
  | 0, _ => none
  | _ + 1, [] => none
  | n + 1, c :: l =>
    if c = '"' then (readString l).map fun out ↦ (.str out.1, out.2)
    else if c = '{' then
      if (skip l).head? = some '}' then some (.obj [], (skip l).tail)
      else (readFields n (skip l)).map fun out ↦ (.obj (asDict out.1), out.2)
    else if c = '[' then
      if (skip l).head? = some ']' then some (.arr [], (skip l).tail)
      else (readItems n (skip l)).map fun out ↦ (.arr out.1, out.2)
    else if ['n', 'u', 'l', 'l'].isPrefixOf (c :: l) then some (.null, (c :: l).drop 4)
    else if ['t', 'r', 'u', 'e'].isPrefixOf (c :: l) then some (.bool true, (c :: l).drop 4)
    else if ['f', 'a', 'l', 's', 'e'].isPrefixOf (c :: l) then
      some (.bool false, (c :: l).drop 5)
    else readNumber readFloat (c :: l)

def readItems : ℕ → List Char → Option (List Json × List Char)
  | 0, _ => none
  | n + 1, l =>
    match readValue n l with
    | none => none
    | some (x, l) =>
      match readNext ']' l with
      | none => none
      | some (true, l) => some ([x], l)
      | some (false, l) => (readItems n l).map fun out ↦ (x :: out.1, out.2)

def readFields : ℕ → List Char → Option (List (String × Json) × List Char)
  | 0, _ => none
  | n + 1, l =>
    match readKey l with
    | none => none
    | some (k, l) =>
      match readValue n l with
      | none => none
      | some (v, l) =>
        match readNext '}' l with
        | none => none
        | some (true, l) => some ([(k, v)], l)
        | some (false, l) => (readFields n l).map fun out ↦ ((k, v) :: out.1, out.2)

end

/-- The value that the text holds, with white space around it. -/
def loads (text : List Char) : Option Json :=
  match readValue readFloat (2 * (skip text).length) (skip text) with
  | some (j, l) => if skip l = [] then some j else none
  | none => none

end FogNode.Library.Json
