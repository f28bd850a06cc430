import FogNode.Source.Platform

namespace FogNode.Source

open FogNode.Library

def LEAF_PREFIX : Bytes := [0]
def NODE_PREFIX : Bytes := [1]
def SEPARATOR : Bytes := [124]

def HASH_LEN : ℕ := 32
def COMPRESSED_PK_LEN : ℕ := 33
def POP_CONTEXT : Bytes := utf8 "IIOT_POP_V1"
def DID_PREFIX : String := "did:iiot:"

variable (P : Platform)

/-- What `leaf_hash` hashes. -/
def leafInput (did : String) (pkBytes : Bytes) : Bytes :=
  LEAF_PREFIX ++ utf8 did ++ SEPARATOR ++ pkBytes

/-- What `node_hash` hashes. -/
def nodeInput (left right : Bytes) : Bytes := NODE_PREFIX ++ left ++ right

/-- `did.startswith(DID_PREFIX)`. -/
def isDid (did : String) : Bool := (utf8 DID_PREFIX).isPrefixOf (utf8 did)

def leafHash (did : String) (pkBytes : Bytes) : Except PyError Bytes :=
  if isDid did = false then .error (.valueError s!"invalid DID: {P.reprStr did}")
  else if pkBytes.length ≠ COMPRESSED_PK_LEN then
    .error (.valueError "public key must be 33 bytes (compressed P256 point)")
  else .ok (P.sha256 (leafInput did pkBytes))

def nodeHash (left right : Bytes) : Except PyError Bytes :=
  if left.length ≠ HASH_LEN ∨ right.length ≠ HASH_LEN then
    .error (.valueError "child hashes must be 32 bytes")
  else .ok (P.sha256 (nodeInput left right))

def popMessage (challenge : Bytes) (did : String) : Bytes :=
  POP_CONTEXT ++ SEPARATOR ++ challenge ++ SEPARATOR ++ utf8 did

def canonicalJson (fields : List (String × Json)) : Bytes := Json.canonical P.floats (.obj fields)

variable {P}

theorem leafHash_ok {did : String} {pk leaf : Bytes} :
    leafHash P did pk = .ok leaf ↔
      isDid did = true ∧ pk.length = COMPRESSED_PK_LEN ∧ leaf = P.sha256 (leafInput did pk) := by
  unfold leafHash
  split_ifs with hd hp
  · simp [hd]
  · simp [hp]
  · simp only [not_not] at hp
    simp only [Except.ok.injEq, hp, true_and, Bool.not_eq_false] at hd ⊢
    simp [hd, eq_comm]

theorem leafHash_length {did : String} {pk leaf : Bytes} (h : leafHash P did pk = .ok leaf) :
    leaf.length = HASH_LEN := by
  obtain ⟨-, -, rfl⟩ := leafHash_ok.mp h
  exact P.sha256_length _

theorem leafInput_injective {did did' : String} {pk pk' : Bytes}
    (hpk : pk.length = COMPRESSED_PK_LEN) (hpk' : pk'.length = COMPRESSED_PK_LEN)
    (h : leafInput did pk = leafInput did' pk') : did = did' ∧ pk = pk' := by
  unfold leafInput at h
  obtain ⟨hpre, hkey⟩ := List.append_inj' h (by rw [hpk, hpk'])
  obtain ⟨hdid, -⟩ := List.append_inj' hpre rfl
  obtain ⟨-, hdid⟩ := List.append_inj hdid rfl
  exact ⟨utf8_injective hdid, hkey⟩

theorem nodeInput_injective {a b c d : Bytes} (hac : a.length = c.length)
    (h : nodeInput a b = nodeInput c d) : a = c ∧ b = d := by
  unfold nodeInput at h
  rw [List.append_assoc, List.append_assoc] at h
  obtain ⟨-, h⟩ := List.append_inj h rfl
  exact List.append_inj h hac

/-- A leaf is never hashed from what an inner node is hashed from. -/
theorem leafInput_ne_nodeInput (did : String) (pk left right : Bytes) :
    leafInput did pk ≠ nodeInput left right := by
  simp [leafInput, nodeInput, LEAF_PREFIX, NODE_PREFIX]

end FogNode.Source
