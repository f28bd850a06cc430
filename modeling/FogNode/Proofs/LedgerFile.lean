import FogNode.Library.Lists
import FogNode.Proofs.LedgerChain
import FogNode.Source.LedgerFile

namespace FogNode.Proofs

open FogNode.Library FogNode.Source

variable {P : Platform} {pk : Bytes} {i : ℕ} {prev : String} {b body : FileBlock}
  {blocks : List FileBlock}

/-- No integer of the file has too many digits to be read. -/
def Readable (blocks : List FileBlock) : Prop :=
  ∀ b ∈ blocks, ∀ e ∈ b, ∀ n, e.2 = .int n → strDigits n ≤ INT_MAX_STR_DIGITS

theorem loads_ok {v w : FileValue} :
    v.loads = .ok w ↔ w = v ∧ ∀ n, v = .int n → strDigits n ≤ INT_MAX_STR_DIGITS := by
  cases v with
  | int n =>
    rw [FileValue.loads, intOfStr]
    split_ifs with h
    · simp [Except.map, h, eq_comm]
    · simp [Except.map, h]
  | text codes => simp [FileValue.loads, eq_comm]

/-- `json.loads` gives back the blocks as they stand in the file, if it reads the file. -/
theorem loadsFile_ok {read : List FileBlock} :
    loadsFile blocks = .ok read ↔ read = blocks ∧ Readable blocks := by
  have hentry : ∀ e e' : String × FileValue,
      (e.2.loads.map fun v ↦ (e.1, v)) = .ok e' ↔
        e' = e ∧ ∀ n, e.2 = .int n → strDigits n ≤ INT_MAX_STR_DIGITS := by
    intro e e'
    rw [map_eq_ok]
    constructor
    · rintro ⟨v, hv, rfl⟩
      obtain ⟨rfl, hdigits⟩ := loads_ok.mp hv
      exact ⟨rfl, hdigits⟩
    · rintro ⟨rfl, hdigits⟩
      exact ⟨e'.2, loads_ok.mpr ⟨rfl, hdigits⟩, rfl⟩
  have hblock : ∀ b b' : FileBlock,
      (b.mapM fun e ↦ e.2.loads.map fun v ↦ (e.1, v)) = .ok b' ↔
        b' = b ∧ ∀ e ∈ b, ∀ n, e.2 = .int n → strDigits n ≤ INT_MAX_STR_DIGITS := by
    intro b b'
    rw [mapM_eq_self fun e e' h ↦ ((hentry e e').mp h).1]
    simp only [hentry, true_and]
  rw [loadsFile, mapM_eq_self fun b b' h ↦ ((hblock b b').mp h).1]
  simp only [hblock, true_and, Readable]

theorem fileItem_error {key : String} {e : PyError} (h : fileItem b key = .error e) :
    e = .keyError key := by
  unfold fileItem at h
  cases hkey : b.lookup key with
  | none =>
    rw [hkey] at h
    exact (Except.error.inj h).symm
  | some v =>
    rw [hkey] at h
    cases h

theorem fileItem_ok {key : String} {v : FileValue} :
    fileItem b key = .ok v ↔ b.lookup key = some v := by
  unfold fileItem
  cases b.lookup key <;> simp

theorem fileBody_error {e : PyError} (h : fileBody b = .error e) : ∃ k, e = .keyError k := by
  obtain ⟨k, -, hk⟩ := mapM_error h
  cases hitem : fileItem b k with
  | error e' =>
    rw [hitem] at hk
    cases hk
    exact ⟨k, fileItem_error hitem⟩
  | ok v =>
    rw [hitem] at hk
    cases hk

theorem fileBody_present (h : fileBody b = .ok body) {k : String} (hk : k ∈ BODY_FIELDS) :
    ∃ v, fileItem b k = .ok v := by
  obtain ⟨e, -, he⟩ := mapM_ok h hk
  cases hitem : fileItem b k with
  | error e' =>
    rw [hitem] at he
    cases he
  | ok v => exact ⟨v, rfl⟩

theorem canonicalFile_ok {fields : List (String × Json)} (h : json? body = some fields) :
    canonicalFile P body = .ok (canonicalJson P fields) := by
  rw [canonicalFile, h]

@[simp] theorem fromhexCodes_ofString (s : String) : fromhexCodes (.ofString s) = fromhex s := by
  rw [fromhexCodes, CodePoints.decode?_ofString]

theorem fromhexCodes_ok {codes : CodePoints} {sig : Bytes} (h : fromhexCodes codes = .ok sig) :
    ∃ s, codes = .ofString s ∧ fromhex s = .ok sig := by
  cases hcodes : codes.decode? with
  | none =>
    rw [fromhexCodes, hcodes] at h
    cases h
  | some s =>
    rw [fromhexCodes, hcodes] at h
    exact ⟨s, CodePoints.decode?_eq_some.mp hcodes, h⟩

theorem fromhexCodes_error {codes : CodePoints} {e : PyError} (h : fromhexCodes codes = .error e) :
    ∃ msg, e = .valueError msg := by
  cases hcodes : codes.decode? with
  | none =>
    rw [fromhexCodes, hcodes] at h
    exact ⟨_, (Except.error.inj h).symm⟩
  | some s =>
    rw [fromhexCodes, hcodes] at h
    exact fromhex_error h

theorem fromhexFile_text (s : String) : fromhexFile (.text (.ofString s)) = fromhex s :=
  fromhexCodes_ofString s

theorem fromhexFile_ok {value : FileValue} {sig : Bytes} (h : fromhexFile value = .ok sig) :
    ∃ s, value = .text (.ofString s) ∧ fromhex s = .ok sig := by
  cases value with
  | int n => cases h
  | text codes =>
    obtain ⟨s, rfl, hs⟩ := fromhexCodes_ok h
    exact ⟨s, rfl, hs⟩

section typed

variable {typed fields : List (String × Json)} {v : FileValue} {w : Json}

/-- An access to a field of a file and the same access where there are no surrogates. -/
inductive SameItem : Except PyError FileValue → Except PyError Json → Prop
  | missing (e : PyError) : SameItem (.error e) (.error e)
  | present {v : FileValue} {w : Json} (h : v.json? = some w) : SameItem (.ok v) (.ok w)

theorem json?_cons {k : String} {fields : List (String × Json)}
    (h : json? ((k, v) :: b) = some fields) :
    ∃ w rest, v.json? = some w ∧ json? b = some rest ∧ fields = (k, w) :: rest := by
  obtain ⟨e, rest, he, hrest, rfl⟩ := mapM_cons_eq_some.mp h
  obtain ⟨w, hw, rfl⟩ := Option.map_eq_some_iff.mp he
  exact ⟨w, rest, hw, hrest, rfl⟩

theorem sameItem (h : json? b = some typed) (key : String) :
    SameItem (fileItem b key) (getItem typed key) := by
  induction b generalizing typed with
  | nil =>
    cases h
    exact .missing (.keyError key)
  | cons e b ih =>
    obtain ⟨k, v⟩ := e
    obtain ⟨w, rest, hw, hrest, rfl⟩ := json?_cons h
    by_cases hk : key = k
    · subst hk
      have hv : fileItem ((key, v) :: b) key = .ok v := fileItem_ok.mpr (by simp)
      have hj : getItem ((key, w) :: rest) key = .ok w := getItem_ok.mpr (if_pos rfl)
      rw [hv, hj]
      exact .present hw
    · have hv : fileItem ((k, v) :: b) key = fileItem b key := by
        simp [fileItem, List.lookup_cons, beq_eq_false_iff_ne.mpr hk]
      have hj : getItem ((k, w) :: rest) key = getItem rest key := by
        simp [getItem, Json.field, Ne.symm hk]
      rw [hv, hj]
      exact ih hrest

theorem sameItems (h : json? b = some typed) (keys : List String) :
    (∃ e, keys.mapM (fun k ↦ (fileItem b k).map fun v ↦ (k, v)) = .error e ∧
        keys.mapM (fun k ↦ (getItem typed k).map fun v ↦ (k, v)) = .error e) ∨
      ∃ body fields, keys.mapM (fun k ↦ (fileItem b k).map fun v ↦ (k, v)) = .ok body ∧
        keys.mapM (fun k ↦ (getItem typed k).map fun v ↦ (k, v)) = .ok fields ∧
        json? body = some fields := by
  induction keys with
  | nil => exact .inr ⟨[], [], rfl, rfl, rfl⟩
  | cons k keys ih =>
    simp only [List.mapM_cons]
    have hitem := sameItem h k
    generalize fileItem b k = item at hitem
    generalize getItem typed k = item' at hitem
    cases hitem with
    | missing e => exact .inl ⟨e, rfl, rfl⟩
    | @present v w hw =>
      rcases ih with ⟨e, hb, ht⟩ | ⟨body, fields, hb, ht, hfields⟩
      · rw [hb, ht]
        exact .inl ⟨e, rfl, rfl⟩
      · rw [hb, ht]
        refine .inr ⟨(k, v) :: body, (k, w) :: fields, rfl, rfl, ?_⟩
        exact mapM_cons_eq_some.mpr ⟨(k, w), fields, by rw [hw]; rfl, hfields, rfl⟩

theorem json?_eq_some : v.json? = some w ↔
    (∃ n, v = .int n ∧ w = .int n) ∨ ∃ s, v = .text (.ofString s) ∧ w = .str s := by
  cases v with
  | int n => simp [FileValue.json?, eq_comm]
  | text codes =>
    simp only [FileValue.json?, Option.map_eq_some_iff, CodePoints.decode?_eq_some]
    simp [eq_comm]

theorem json?_text (s : String) : (FileValue.text (.ofString s)).json? = some (.str s) :=
  json?_eq_some.mpr (.inr ⟨s, rfl, rfl⟩)

theorem int_iff (h : v.json? = some w) : v = .int i ↔ equalsIndex i w = true := by
  rcases json?_eq_some.mp h with ⟨n, rfl, rfl⟩ | ⟨s, rfl, rfl⟩
  · simp [equalsIndex]
  · simp [equalsIndex]

theorem text_iff (h : v.json? = some w) :
    v = .text (.ofString prev) ↔ equalsText prev w = true := by
  rcases json?_eq_some.mp h with ⟨n, rfl, rfl⟩ | ⟨s, rfl, rfl⟩
  · simp [equalsText]
  · simp [equalsText, CodePoints.ofString_injective.eq_iff]

theorem pyStr_typed (h : v.json? = some w) : v.pyStr = .ofString (pyStr P w) := by
  rcases json?_eq_some.mp h with ⟨n, rfl, rfl⟩ | ⟨s, rfl, rfl⟩
  · rfl
  · rfl

theorem fromhex_typed (h : v.json? = some w) : fromhexFile v = fromhexJson w := by
  rcases json?_eq_some.mp h with ⟨n, rfl, rfl⟩ | ⟨s, rfl, rfl⟩
  · rfl
  · exact fromhexFile_text s

theorem json?_append (hbody : json? body = some fields) (key : String) (h : v.json? = some w) :
    json? (body ++ [(key, v)]) = some (fields ++ [(key, w)]) := by
  unfold json? at hbody ⊢
  rw [List.mapM_append, hbody]
  simp [h]

theorem hash_typed (hbody : json? body = some fields) (h : v.json? = some w) :
    fileBlockHash P body v = .ok (blockHashJson P fields w) := by
  rw [fileBlockHash, canonicalFile_ok (json?_append hbody "signature" h)]
  rfl

/-- What the loop over typed blocks comes to, as the loop over a file has it. -/
abbrev asFile (out : Except PyError (Option String)) : Except PyError (Option CodePoints) :=
  out.map (Option.map CodePoints.ofString)

theorem SameItem.bind {item : Except PyError FileValue} {item' : Except PyError Json}
    (h : SameItem item item') {f : FileValue → Except PyError (Option CodePoints)}
    {g : Json → Except PyError (Option String)}
    (hnext : ∀ v w, v.json? = some w → f v = asFile (g w)) :
    (item >>= f) = asFile (item' >>= g) := by
  cases h with
  | missing e => rfl
  | present hv => exact hnext _ _ hv

theorem bind_asFile {bytes : Except PyError Bytes}
    {f : Bytes → Except PyError (Option CodePoints)} {g : Bytes → Except PyError (Option String)}
    (hnext : ∀ sig, f sig = asFile (g sig)) : (bytes >>= f) = asFile (bytes >>= g) := by
  cases bytes with
  | error e => rfl
  | ok sig => exact hnext sig

/-- A check that stops the two loops with one message. -/
theorem same_check {p : Prop} [Decidable p] {passes : Bool} (hp : p ↔ passes = true)
    {message : CodePoints} {text : String} (hmessage : message = .ofString text)
    {file : Except PyError (Option CodePoints)} {out : Except PyError (Option String)}
    (hnext : file = asFile out) : (if ¬ p then pure (some message) else file) =
      asFile (if passes = false then pure (some text) else out) := by
  subst hmessage hnext
  cases passes with
  | false =>
    rw [if_pos (hp.not.mpr Bool.false_ne_true), if_pos rfl]
    rfl
  | true => rw [if_neg (not_not.mpr (hp.mpr rfl)), if_neg Bool.false_ne_true.symm]

/-- Without surrogates the loop does what it does over typed blocks. -/
theorem verifyFile_typed {typed : List (List (String × Json))}
    (h : blocks.mapM json? = some typed) : verifyFile P pk i prev blocks =
      (verifyBlocks P pk i prev typed).map (Option.map CodePoints.ofString) := by
  induction blocks generalizing i prev typed with
  | nil =>
    cases h
    rfl
  | cons b blocks ih =>
    obtain ⟨t, rest, ht, hrest, rfl⟩ := mapM_cons_eq_some.mp h
    unfold verifyFile verifyBlocks
    rcases sameItems ht BODY_FIELDS with ⟨e, hb, hj⟩ | ⟨body, fields, hb, hj, hfields⟩
    · rw [← fileBody] at hb
      rw [← bodyOf] at hj
      obtain ⟨k, rfl⟩ := fileBody_error hb
      rw [hb, hj]
      rfl
    rw [← fileBody] at hb
    rw [← bodyOf] at hj
    simp only [hb, hj]
    refine (sameItem ht _).bind fun index index' hindex ↦ same_check (int_iff hindex) ?_ ?_
    · rw [pyStr_typed (P := P) hindex, ← CodePoints.ofString_append]
      rfl
    refine (sameItem ht _).bind fun link link' hlink ↦ same_check (text_iff hlink) rfl ?_
    rw [canonicalFile_ok hfields]
    refine (sameItem ht _).bind fun signature signature' hsignature ↦ ?_
    rw [fromhex_typed hsignature, hash_typed hfields hsignature]
    refine bind_asFile fun sig ↦ ?_
    split
    · rfl
    · exact (sameItem ht _).bind fun hash hash' hhash ↦
        same_check (text_iff hhash) rfl (ih hrest)

theorem length_typed {typed : List (List (String × Json))}
    (h : blocks.mapM json? = some typed) : typed.length = blocks.length := by
  induction blocks generalizing typed with
  | nil =>
    cases h
    rfl
  | cons b blocks ih =>
    obtain ⟨t, rest, -, hrest, rfl⟩ := mapM_cons_eq_some.mp h
    rw [List.length_cons, List.length_cons, ih hrest]

theorem verifyChain_key (fogPk : Bytes) (trustedFogPk : Option Bytes)
    (file : Option (List (List (String × Json)))) : verifyChain P fogPk trustedFogPk file =
      verifyChain P (chainKey fogPk trustedFogPk) none file := by
  cases trustedFogPk with
  | none => rfl
  | some key => cases key <;> rfl

/-- Without surrogates `verify_chain` is what it is over typed blocks. -/
theorem verifyChainFile_typed {typed : List (List (String × Json))}
    (h : blocks.mapM json? = some typed) (hread : Readable blocks) (fogPk : Bytes)
    (trustedFogPk : Option Bytes) :
    verifyChainFile P fogPk trustedFogPk (some blocks) =
      (verifyChain P fogPk trustedFogPk (some typed)).map (Prod.map id CodePoints.ofString) := by
  rw [verifyChain_key]
  simp only [verifyChainFile, Option.getD_some, loadsFile_ok.mpr ⟨rfl, hread⟩, bind, Except.bind,
    verifyChain, verifyFile_typed h, ← length_typed h]
  cases verifyBlocks P (chainKey fogPk trustedFogPk) 0 GENESIS_PREV_HASH typed with
  | error e => rfl
  | ok out => cases out <;> rfl

end typed

end FogNode.Proofs
