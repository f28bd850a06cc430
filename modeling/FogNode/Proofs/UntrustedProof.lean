import FogNode.Source.UntrustedProof

namespace FogNode.Proofs

open FogNode.Library FogNode.Source MerkleTree

variable {P : Platform} {leaf path root : PyValue} {current : Bytes} {items : List Json}

/-- An item of a path is an object with a sibling of 32 bytes and its side. -/
inductive StepOf : Json → Bytes × Side → Prop
  | intro {fields : List (String × Json)} {value : Json} {sibling : Bytes} (side : Side)
      (hsibling : Json.field "sibling" fields = some value)
      (hdecodes : asBytesValue (.json value) = .ok sibling)
      (hlength : sibling.length = HASH_LEN)
      (hside : Json.field "side" fields = some (.str (sideText side))) :
      StepOf (.obj fields) (sibling, side)

/-- `node_hash` of the current node and its sibling. -/
def joinStep (P : Platform) (current : Bytes) (s : Bytes × Side) : Except PyError Bytes :=
  match s.2 with
  | .L => nodeHash P s.1 current
  | .R => nodeHash P current s.1

theorem joinStep_ok (hcurrent : current.length = HASH_LEN) {s : Bytes × Side}
    (hs : s.1.length = HASH_LEN) :
    ∃ n, joinStep P current s = .ok n ∧ n.length = HASH_LEN := by
  obtain ⟨sibling, side⟩ := s
  cases side with
  | L =>
    refine ⟨P.sha256 (nodeInput sibling current), ?_, P.sha256_length _⟩
    simp [joinStep, nodeHash, hcurrent, hs]
  | R =>
    refine ⟨P.sha256 (nodeInput current sibling), ?_, P.sha256_length _⟩
    simp [joinStep, nodeHash, hcurrent, hs]

theorem asBytesValue_error {value : PyValue} {e : PyError} (h : asBytesValue value = .error e) :
    e.isValueOrType = true := by
  cases value with
  | bytes b => cases h
  | json j =>
    cases j with
    | str s =>
      have herror : fromhex s = .error e := h
      obtain ⟨msg, rfl⟩ := fromhex_error herror
      rfl
    | _ =>
      cases h
      rfl

theorem isValueKeyOrType_of {e : PyError} (h : e.isValueOrType = true) :
    e.isValueKeyOrType = true := by
  cases e <;> first | rfl | cases h

theorem subscript_error {key : String} {value : Json} {e : PyError}
    (h : subscript key value = .error e) : e.isValueKeyOrType = true := by
  cases value with
  | obj fields =>
    simp only [subscript, getItem] at h
    split at h
    · cases h
    · cases h
      rfl
  | _ =>
    cases h
    rfl

theorem subscript_ok {key : String} {value v : Json} (h : subscript key value = .ok v) :
    ∃ fields, value = .obj fields ∧ Json.field key fields = some v := by
  cases value with
  | obj fields => exact ⟨fields, rfl, getItem_ok.mp h⟩
  | _ => cases h

theorem iterate_error {value : PyValue} {e : PyError} (h : iterate value = .error e) :
    e.isValueKeyOrType = true := by
  cases value with
  | bytes b => cases h
  | json j =>
    cases j with
    | arr items => cases h
    | obj fields => cases h
    | str s => cases h
    | _ =>
      cases h
      rfl

/-- What one round of the loop does with an item. -/
inductive Round (P : Platform) (current : Bytes) (step : Json) (path : List Json) :
    Except PyError (Option Bytes) → Prop
  | raised {e : PyError} (he : e.isValueKeyOrType = true) (hnot : ∀ s, ¬ StepOf step s) :
      Round P current step path (.error e)
  | refused (hnot : ∀ s, ¬ StepOf step s) : Round P current step path (.ok none)
  | joined {s : Bytes × Side} {n : Bytes} (hs : StepOf step s)
      (hn : joinStep P current s = .ok n) (hlength : n.length = HASH_LEN) :
      Round P current step path (climbItems (nodeHash P) n path)

theorem StepOf.unique {step : Json} {s s' : Bytes × Side} (h : StepOf step s)
    (h' : StepOf step s') : s = s' := by
  cases h with
  | intro side hsibling hdecodes hlength hside =>
    cases h' with
    | intro side' hsibling' hdecodes' hlength' hside' =>
      cases hsibling.symm.trans hsibling'
      cases hdecodes.symm.trans hdecodes'
      have htext := hside.symm.trans hside'
      cases side <;> cases side' <;> first | rfl | simp [sideText] at htext

theorem climbItems_round (hcurrent : current.length = HASH_LEN) (step : Json) (path : List Json) :
    Round P current step path (climbItems (nodeHash P) current (step :: path)) := by
  rw [climbItems]
  cases hsibling : subscript "sibling" step with
  | error e =>
    refine .raised (subscript_error hsibling) fun s hs ↦ ?_
    cases hs with
    | intro _ h _ _ _ =>
      rw [subscript, getItem_ok.mpr h] at hsibling
      cases hsibling
  | ok value =>
    obtain ⟨fields, rfl, hfield⟩ := subscript_ok hsibling
    simp only [Except.bind]
    cases hdecodes : asBytesValue (.json value) with
    | error e =>
      refine .raised (isValueKeyOrType_of (asBytesValue_error hdecodes)) fun s hs ↦ ?_
      cases hs with
      | intro _ h h' _ _ =>
        cases hfield.symm.trans h
        cases hdecodes.symm.trans h'
    | ok sibling =>
      dsimp only
      split_ifs with hlength
      · refine .refused fun s hs ↦ ?_
        cases hs with
        | intro _ h h' h'' _ =>
          cases hfield.symm.trans h
          cases hdecodes.symm.trans h'
          exact hlength h''
      rw [not_not] at hlength
      cases hside : subscript "side" (.obj fields) with
      | error e =>
        refine .raised (subscript_error hside) fun s hs ↦ ?_
        cases hs with
        | intro _ _ _ _ h =>
          rw [subscript, getItem_ok.mpr h] at hside
          cases hside
      | ok side =>
        have hside' : Json.field "side" fields = some side := getItem_ok.mp hside
        dsimp only
        split_ifs with hL hR
        · have hs : StepOf (.obj fields) (sibling, .L) :=
            .intro .L hfield hdecodes hlength (hside'.trans (by rw [equalsText_iff.mp hL]; rfl))
          obtain ⟨n, hn, hlen⟩ := joinStep_ok (P := P) hcurrent (s := (sibling, .L)) hlength
          have hnode : nodeHash P sibling current = .ok n := hn
          rw [hnode]
          exact .joined hs hn hlen
        · have hs : StepOf (.obj fields) (sibling, .R) :=
            .intro .R hfield hdecodes hlength (hside'.trans (by rw [equalsText_iff.mp hR]; rfl))
          obtain ⟨n, hn, hlen⟩ := joinStep_ok (P := P) hcurrent (s := (sibling, .R)) hlength
          have hnode : nodeHash P current sibling = .ok n := hn
          rw [hnode]
          exact .joined hs hn hlen
        · refine .refused fun s hs ↦ ?_
          cases hs with
          | intro side' _ _ _ h =>
            cases hside'.symm.trans h
            cases side' with
            | L => exact hL (equalsText_iff.mpr rfl)
            | R => exact hR (equalsText_iff.mpr rfl)

theorem climbItems_error {e : PyError} (hcurrent : current.length = HASH_LEN)
    (h : climbItems (nodeHash P) current items = .error e) : e.isValueKeyOrType = true := by
  induction items generalizing current with
  | nil => cases h
  | cons step path ih =>
    have hround := climbItems_round (P := P) hcurrent step path
    rw [h] at hround
    generalize hout : Except.error e = out at hround
    cases hround with
    | raised he _ =>
      cases hout
      exact he
    | refused _ => cases hout
    | joined _ _ hlength => exact ih hlength hout.symm

/-- The loop ends on a node just where all items are steps, and that is their fold. -/
theorem climbItems_some_iff (hcurrent : current.length = HASH_LEN) {r : Bytes} :
    climbItems (nodeHash P) current items = .ok (some r) ↔
      ∃ steps, List.Forall₂ StepOf items steps ∧ steps.foldlM (joinStep P) current = .ok r := by
  induction items generalizing current with
  | nil =>
    constructor
    · intro h
      cases h
      exact ⟨[], .nil, rfl⟩
    · rintro ⟨_, ⟨⟩, h⟩
      cases h
      rfl
  | cons step path ih =>
    have hround := climbItems_round (P := P) hcurrent step path
    generalize climbItems (nodeHash P) current (step :: path) = out at hround
    have hnone : (∀ s, ¬ StepOf step s) → ¬ ∃ steps, List.Forall₂ StepOf (step :: path) steps ∧
        steps.foldlM (joinStep P) current = .ok r := by
      rintro hnot ⟨_, hsteps, -⟩
      cases hsteps with
      | cons hs _ => exact hnot _ hs
    cases hround with
    | raised _ hnot => exact ⟨fun h ↦ (by cases h), fun h ↦ absurd h (hnone hnot)⟩
    | refused hnot => exact ⟨fun h ↦ (by cases h), fun h ↦ absurd h (hnone hnot)⟩
    | @joined s n hs hn hlength =>
      rw [ih hlength]
      constructor
      · rintro ⟨steps, hsteps, hfold⟩
        refine ⟨s :: steps, .cons hs hsteps, ?_⟩
        rw [List.foldlM_cons, hn]
        exact hfold
      · rintro ⟨_, hsteps, hfold⟩
        cases hsteps with
        | cons hs' hsteps =>
          cases hs.unique hs'
          rw [List.foldlM_cons, hn] at hfold
          exact ⟨_, hsteps, hfold⟩

theorem tryReconstruct_error {e : PyError}
    (h : tryReconstruct (nodeHash P) leaf path = .error e) : e.isValueKeyOrType = true := by
  unfold tryReconstruct at h
  cases hleaf : asBytesValue leaf with
  | error e' =>
    rw [hleaf] at h
    cases h
    exact isValueKeyOrType_of (asBytesValue_error hleaf)
  | ok current =>
    simp only [hleaf] at h
    split_ifs at h with hlength
    rw [not_not] at hlength
    cases hitems : iterate path with
    | error e' =>
      rw [hitems] at h
      cases h
      exact iterate_error hitems
    | ok items =>
      rw [hitems] at h
      exact climbItems_error hlength h

/-- Whatever the body of the `try` raises ends in `None`. -/
theorem reconstructRootValue_ok (P : Platform) (leaf path : PyValue) :
    reconstructRootValue (nodeHash P) leaf path =
      .ok (tryReconstruct (nodeHash P) leaf path).toOption.join := by
  unfold reconstructRootValue
  cases h : tryReconstruct (nodeHash P) leaf path with
  | ok r => rfl
  | error e =>
    simp only [tryReconstruct_error h, if_true]
    rfl

/-- The value decodes to 32 bytes. -/
def DecodesTo (value : PyValue) (b : Bytes) : Prop :=
  asBytesValue value = .ok b ∧ b.length = HASH_LEN

/-- The path goes through steps only, and folding the node hash over them from the left leads
from `x` to `r`. -/
def LeadsTo (P : Platform) (path : PyValue) (x r : Bytes) : Prop :=
  ∃ items steps, iterate path = .ok items ∧ List.Forall₂ StepOf items steps ∧
    steps.foldlM (joinStep P) x = .ok r

theorem tryReconstruct_some_iff {r : Bytes} :
    tryReconstruct (nodeHash P) leaf path = .ok (some r) ↔
      ∃ x, DecodesTo leaf x ∧ LeadsTo P path x r := by
  unfold tryReconstruct
  cases hleaf : asBytesValue leaf with
  | error e =>
    refine ⟨fun h ↦ (by cases h), ?_⟩
    rintro ⟨x, ⟨hx, -⟩, -⟩
    cases hleaf.symm.trans hx
  | ok current =>
    dsimp only
    split_ifs with hlength
    · refine ⟨fun h ↦ (by cases h), ?_⟩
      rintro ⟨x, ⟨hx, hx'⟩, -⟩
      cases hleaf.symm.trans hx
      exact absurd hx' hlength
    rw [not_not] at hlength
    have hdecodes : ∀ {x}, DecodesTo leaf x → current = x := fun hx ↦
      Except.ok.inj (hleaf.symm.trans hx.1)
    cases hitems : iterate path with
    | error e =>
      refine ⟨fun h ↦ (by cases h), ?_⟩
      rintro ⟨x, -, items, steps, hitems', -⟩
      cases hitems.symm.trans hitems'
    | ok items =>
      dsimp only
      rw [climbItems_some_iff hlength]
      constructor
      · rintro ⟨steps, hsteps, hfold⟩
        exact ⟨current, ⟨hleaf, hlength⟩, items, steps, hitems, hsteps, hfold⟩
      · rintro ⟨x, hx, items', steps, hitems', hsteps, hfold⟩
        cases hdecodes hx
        cases hitems.symm.trans hitems'
        exact ⟨steps, hsteps, hfold⟩

theorem reconstructRootValue_some_iff {r : Bytes} :
    reconstructRootValue (nodeHash P) leaf path = .ok (some r) ↔
      ∃ x, DecodesTo leaf x ∧ LeadsTo P path x r := by
  rw [← tryReconstruct_some_iff]
  unfold reconstructRootValue
  cases h : tryReconstruct (nodeHash P) leaf path with
  | ok r' => rfl
  | error e => simp [tryReconstruct_error h]

/-- `verify_proof` answers whatever it is given, and with `True` just for the right path from
a decodable leaf to a decodable root. -/
theorem verify_proof_total (P : Platform) (leaf path root : PyValue) :
    (∃ b, verifyProofValue (nodeHash P) leaf path root = .ok b) ∧
    (verifyProofValue (nodeHash P) leaf path root = .ok true ↔
      ∃ x r, DecodesTo leaf x ∧ DecodesTo root r ∧ LeadsTo P path x r) := by
  unfold verifyProofValue
  cases hroot : asBytesValue root with
  | error e =>
    simp only [asBytesValue_error hroot, if_true]
    refine ⟨⟨false, rfl⟩, fun h ↦ (by cases h), ?_⟩
    rintro ⟨x, r, -, ⟨hr, -⟩, -⟩
    cases hroot.symm.trans hr
  | ok expected =>
    dsimp only
    split_ifs with hlength
    · refine ⟨⟨false, rfl⟩, fun h ↦ (by cases h), ?_⟩
      rintro ⟨x, r, -, ⟨hr, hr'⟩, -⟩
      cases hroot.symm.trans hr
      exact absurd hr' hlength
    rw [not_not] at hlength
    have hrec := reconstructRootValue_ok P leaf path
    generalize (tryReconstruct (nodeHash P) leaf path).toOption.join = reconstructed at hrec
    simp only [hrec]
    refine ⟨⟨_, rfl⟩, ?_⟩
    constructor
    · intro h
      have hsome : reconstructed = some expected := of_decide_eq_true (Except.ok.inj h)
      rw [hsome, reconstructRootValue_some_iff] at hrec
      obtain ⟨x, hx, hleads⟩ := hrec
      exact ⟨x, expected, hx, ⟨hroot, hlength⟩, hleads⟩
    · rintro ⟨x, r, hx, ⟨hr, -⟩, hleads⟩
      cases hroot.symm.trans hr
      have hsome := reconstructRootValue_some_iff.mpr ⟨x, hx, hleads⟩
      cases hrec.symm.trans hsome
      simp

section typed

/-- A leaf or root of the right type. -/
def HexOrBytes.value : HexOrBytes → PyValue
  | .hex text => .json (.str text)
  | .bytes b => .bytes b

def PathStep.value (step : PathStep) : Json :=
  .obj [("sibling", .str step.sibling), ("side", .str step.side)]

theorem asBytesValue_value (v : HexOrBytes) : asBytesValue (HexOrBytes.value v) = asBytes v := by
  cases v <;> rfl

theorem climbItems_typed (current : Bytes) (path : List PathStep) :
    (climbItems (nodeHash P) current (path.map PathStep.value)).toOption.join =
      climbPath (nodeHash P) current path := by
  induction path generalizing current with
  | nil => rfl
  | cons step path ih =>
    have hsibling : subscript "sibling" (PathStep.value step) = .ok (.str step.sibling) := rfl
    have hside : subscript "side" (PathStep.value step) = .ok (.str step.side) := rfl
    simp only [List.map_cons, climbItems, climbPath, hsibling, hside, Except.bind, asBytesValue,
      fromhexJson, equalsText, decide_eq_true_eq]
    cases fromhex step.sibling with
    | error e => rfl
    | ok sibling =>
      dsimp only
      split_ifs
      · rfl
      · cases nodeHash P sibling current with
        | error e => rfl
        | ok n => exact ih n
      · cases nodeHash P current sibling with
        | error e => rfl
        | ok n => exact ih n
      · rfl

/-- On values of the right types this is the verifier of the typed model. -/
theorem verifyProofValue_typed (leaf root : HexOrBytes) (path : List PathStep) :
    verifyProofValue (nodeHash P) (HexOrBytes.value leaf) (.json (.arr (path.map PathStep.value)))
      (HexOrBytes.value root) = .ok (verifyProof (nodeHash P) leaf path root) := by
  have hrec : reconstructRootValue (nodeHash P) (HexOrBytes.value leaf)
      (.json (.arr (path.map PathStep.value))) = .ok (reconstructRoot (nodeHash P) leaf path) := by
    rw [reconstructRootValue_ok, tryReconstruct, reconstructRoot, asBytesValue_value]
    cases asBytes leaf with
    | error e => rfl
    | ok current =>
      dsimp only
      split_ifs
      · rfl
      · exact congrArg Except.ok (climbItems_typed current path)
  unfold verifyProofValue verifyProof
  rw [asBytesValue_value]
  cases hroot : asBytes root with
  | error e =>
    have he := asBytesValue_error ((asBytesValue_value root).trans hroot)
    simp [he]
  | ok expected =>
    dsimp only
    split_ifs
    · rfl
    · rw [hrec]

end typed

end FogNode.Proofs
