import FogNode.Library.Hex

namespace FogNode.Library.Sha256

/-- The words of the state and of the message schedule are numbers below `2 ^ 32`. -/
def word (n : ℕ) : ℕ := n % 4294967296

def rotr (k x : ℕ) : ℕ := word (x >>> k ||| x <<< (32 - k))

def bigSigma0 (x : ℕ) : ℕ := rotr 2 x ^^^ rotr 13 x ^^^ rotr 22 x

def bigSigma1 (x : ℕ) : ℕ := rotr 6 x ^^^ rotr 11 x ^^^ rotr 25 x

def smallSigma0 (x : ℕ) : ℕ := rotr 7 x ^^^ rotr 18 x ^^^ x >>> 3

def smallSigma1 (x : ℕ) : ℕ := rotr 17 x ^^^ rotr 19 x ^^^ x >>> 10

def choose (x y z : ℕ) : ℕ := (x &&& y) ^^^ ((4294967295 - x) &&& z)

def majority (x y z : ℕ) : ℕ := (x &&& y) ^^^ (x &&& z) ^^^ (y &&& z)

def initial : List ℕ :=
  [0x6a09e667, 0xbb67ae85, 0x3c6ef372, 0xa54ff53a, 0x510e527f, 0x9b05688c, 0x1f83d9ab, 0x5be0cd19]

def constants : List ℕ :=
  [0x428a2f98, 0x71374491, 0xb5c0fbcf, 0xe9b5dba5, 0x3956c25b, 0x59f111f1, 0x923f82a4, 0xab1c5ed5,
    0xd807aa98, 0x12835b01, 0x243185be, 0x550c7dc3, 0x72be5d74, 0x80deb1fe, 0x9bdc06a7, 0xc19bf174,
    0xe49b69c1, 0xefbe4786, 0x0fc19dc6, 0x240ca1cc, 0x2de92c6f, 0x4a7484aa, 0x5cb0a9dc, 0x76f988da,
    0x983e5152, 0xa831c66d, 0xb00327c8, 0xbf597fc7, 0xc6e00bf3, 0xd5a79147, 0x06ca6351, 0x14292967,
    0x27b70a85, 0x2e1b2138, 0x4d2c6dfc, 0x53380d13, 0x650a7354, 0x766a0abb, 0x81c2c92e, 0x92722c85,
    0xa2bfe8a1, 0xa81a664b, 0xc24b8b70, 0xc76c51a3, 0xd192e819, 0xd6990624, 0xf40e3585, 0x106aa070,
    0x19a4c116, 0x1e376c08, 0x2748774c, 0x34b0bcb5, 0x391c0cb3, 0x4ed8aa4a, 0x5b9cca4f, 0x682e6ff3,
    0x748f82ee, 0x78a5636f, 0x84c87814, 0x8cc70208, 0x90befffa, 0xa4506ceb, 0xbef9a3f7, 0xc67178f2]

/-- The bytes of a number, most significant first. -/
def bigEndian : ℕ → ℕ → List ℕ
  | 0, _ => []
  | len + 1, n => bigEndian len (n / 256) ++ [n % 256]

/-- The message, a one bit, zeros, and the length in bits. -/
def pad (data : List ℕ) : List ℕ :=
  data ++ 0x80 :: List.replicate ((119 - data.length % 64) % 64) 0 ++ bigEndian 8 (8 * data.length)

def words : List ℕ → List ℕ
  | a :: b :: c :: d :: l => (((a * 256 + b) * 256 + c) * 256 + d) :: words l
  | _ => []

/-- The message schedule, latest word first. -/
def extend : ℕ → List ℕ → List ℕ
  | 0, ws => ws
  | n + 1, ws =>
    extend n (word (smallSigma1 (ws.getD 1 0) + ws.getD 6 0 + smallSigma0 (ws.getD 14 0) +
      ws.getD 15 0) :: ws)

def schedule (block : List ℕ) : List ℕ := (extend 48 block.reverse).reverse

/-- One round, with its constant and its word of the schedule. -/
def round (state : List ℕ) (kw : ℕ × ℕ) : List ℕ :=
  match state with
  | [a, b, c, d, e, f, g, h] =>
    let t₁ := h + bigSigma1 e + choose e f g + kw.1 + kw.2
    [word (t₁ + bigSigma0 a + majority a b c), a, b, c, word (d + t₁), e, f, g]
  | s => s

def compress (state block : List ℕ) : List ℕ :=
  state.zipWith (fun x y ↦ word (x + y)) ((constants.zip (schedule block)).foldl round state)

def blocks : ℕ → List ℕ → List ℕ → List ℕ
  | 0, state, _ => state
  | n + 1, state, ws => blocks n (compress state (ws.take 16)) (ws.drop 16)

def hash (data : Bytes) : List ℕ :=
  let ws := words (pad (data.map UInt8.toNat))
  blocks (ws.length / 16) initial ws

end FogNode.Library.Sha256

namespace FogNode.Library

/-- SHA-256: the eight words of the last state, four bytes each. -/
def sha256 (data : Bytes) : Bytes :=
  ((List.range 8).flatMap fun i ↦ Sha256.bigEndian 4 ((Sha256.hash data).getD i 0)).map UInt8.ofNat

theorem Sha256.length_bigEndian (len n : ℕ) : (Sha256.bigEndian len n).length = len := by
  induction len generalizing n with
  | zero => rfl
  | succ len ih => simp [Sha256.bigEndian, ih]

theorem sha256_length (data : Bytes) : (sha256 data).length = 32 := by
  simp [sha256, Sha256.length_bigEndian, List.range, List.range.loop]

example : toHex (sha256 (utf8 "abc")) =
    "ba7816bf8f01cfea414140de5dae2223b00361a396177a9cb410ff61f20015ad" := by decide +kernel

end FogNode.Library
