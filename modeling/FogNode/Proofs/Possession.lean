import FogNode.Proofs.Steps

namespace FogNode.Proofs

open FogNode.Library FogNode.Source

variable {P : Platform} {node : Node P} {env : Env} {fog fog' : Fog} {request : Request}
  {r : Response} {id did publicKey : String} {s s' : Session} {events : List Event}

/-- A session waits for a proof of possession exactly while its challenge is unused. -/
structure ChallengeOk (s : Session) : Prop where
  unused_iff : s.state = .keySubmitted ↔ s.challengeUsed = false
  active : s.state = .keySubmitted → ∃ challenge, s.challenge = some (toHex challenge)

abbrev ChallengesOk (sessions : SessionStore) : Prop := Everywhere ChallengeOk sessions.get?

theorem ChallengesOk.lapse {sessions sessions' : SessionStore} (h : ChallengesOk sessions)
    (hl : Lapsed sessions sessions') : ChallengesOk sessions' := by
  rcases hl with rfl | ⟨id, rfl⟩
  · exact h
  · intro j s hs
    rw [Table.get?_erase] at hs
    split at hs
    · cases hs
    · exact h j s hs

theorem ChallengesOk.add {sessions : SessionStore} (h : ChallengesOk sessions)
    (hs : ChallengeOk s) : ChallengesOk (sessions.add s) :=
  h.insert (Table.get?_add sessions s) hs

/-- A session that does not wait for a proof of possession has no unused challenge. -/
theorem challengeOk_of_used (hstate : s.state ≠ .keySubmitted) (hused : s.challengeUsed = true) :
    ChallengeOk s :=
  ⟨by simp [hstate, hused], fun h ↦ absurd h hstate⟩

/-- With a challenge and a key on record the check of a signature cannot fail otherwise. -/
theorem verifyPop_answers {pk challenge : Bytes} {signatureHex : String} {now : ℚ}
    (hdid : s.did = some did) (hkey : s.publicKey = some publicKey)
    (hpk : fromhex publicKey = .ok pk) (hchallenge : s.challenge = some (toHex challenge)) :
    ∃ answer, (verifyPop P s signatureHex now).1 = .ok answer := by
  unfold verifyPop
  split_ifs
  · exact ⟨_, rfl⟩
  dsimp only
  split_ifs
  · exact ⟨_, rfl⟩
  cases fromhex signatureHex with
  | error e => exact ⟨_, rfl⟩
  | ok signature =>
    simp only [hdid, hkey, hpk, hchallenge, Option.getD_some, fromhex_toHex]
    split_ifs
    · exact ⟨_, rfl⟩
    · exact ⟨_, rfl⟩

theorem Inv.no_fault (h : Inv node fog) (hc : ChallengesOk fog.sessions)
    (hs : fog.sessions.get? id = some s) (hstate : s.state = .keySubmitted) {signatureHex : String}
    {now : ℚ} {e : PyError} : (verifyPop P s signatureHex now).1 ≠ .error e := by
  obtain ⟨did, key, pk, hb⟩ := h.sessions.bound id s hs (by simp [hstate])
  obtain ⟨challenge, hchallenge⟩ := (hc id s hs).active hstate
  have hanswers : ∃ answer, (verifyPop P s signatureHex now).1 = .ok answer :=
    verifyPop_answers hb.did_eq hb.key_eq hb.hex hchallenge
  obtain ⟨answer, hanswer⟩ := hanswers
  rw [hanswer]
  exact nofun

theorem Inv.challenges (h : Inv node fog) (hc : ChallengesOk fog.sessions)
    (he : Effect node env fog request r fog') : ChallengesOk fog'.sessions := by
  cases he with
  | refused hr hs => exact hc.lapse hs
  | started => exact hc.add (challengeOk_of_used (by simp [Session.new]) rfl)
  | submitted =>
    exact hc.add ⟨by simp [Proofs.submitted, issueChallenge],
      fun _ ↦ ⟨(env.draw 32).1, by simp [Proofs.submitted, issueChallenge, Env.tokenHex]⟩⟩
  | popFailed hs hstate hr hid hdid hkey hstate' hused hfault =>
    refine hc.add ?_
    rcases hfault with hfault | ⟨e, he⟩
    · obtain ⟨challenge, hchallenge⟩ := (hc _ _ hs).active hstate
      exact challengeOk_of_used (by simp [hfault]) (hused.resolve_left (by simp [hchallenge]))
    · exact absurd he (h.no_fault hc hs hstate)
  | popPassed hs hstate hid hsdid hskey hdid hkey hstate' hpop hused =>
    exact hc.add (challengeOk_of_used (by simp [hstate']) hused)
  | queued hs hstate hdid hrec hvalid hkey hpk hnew hleaf hid hdid' hkey' hstate' hr hused =>
    refine hc.add (challengeOk_of_used (by simp [hstate']) (hused.trans ?_))
    have hiff := (hc _ _ hs).unused_iff
    rw [hstate] at hiff
    simpa using hiff
  | finalizing hf => cases hf <;> exact hc
  | _ => exact hc

theorem challenges_afterActions (node : Node P) (actions : List Action) :
    ChallengesOk (afterActions node Fog.init actions).sessions := by
  have hcreate : ∀ file signed, ChallengesOk (Fog.create file signed).sessions :=
    fun file signed id s hs ↦ by simp [Fog.create] at hs
  exact afterActions_invariant (I := fun fog ↦ ChallengesOk fog.sessions) (hcreate none [])
    (fun fog e hinv hc ↦ hinv.challenges hc (step_effect node fog e))
    (fun fog _ _ ↦ hcreate fog.ledger.file fog.signed) actions

theorem challenges_after (node : Node P) (events : List Event) :
    Inv node (after node Fog.init events) ∧
      ChallengesOk (after node Fog.init events).sessions := by
  rw [← afterActions_requests]
  exact ⟨inv_afterActions _, challenges_afterActions node _⟩

/-- The fog judges the challenge of the session when it handles the request. -/
def Judges (node : Node P) (fog : Fog) (e : Event) (id : String) : Prop :=
  ∃ signature s, e.request = .registerPop ⟨id, signature⟩ ∧
    SessionStore.get fog.sessions node.sessionTtl e.env.now id = (some s, fog.sessions) ∧
    s.state = .keySubmitted

theorem registerPop_judged (signature : String)
    (hget : SessionStore.get fog.sessions node.sessionTtl env.now id = (some s, fog.sessions))
    (hstate : s.state = .keySubmitted) :
    ∃ s', (registerPop node env ⟨id, signature⟩ fog).2.sessions = fog.sessions.add s' ∧
      s'.sessionId = id ∧
      (s'.state = .keySubmitted → ∃ e, (verifyPop P s signature env.later).1 = .error e) := by
  have hs := (session_found hget).1
  unfold registerPop
  simp only [hget, hstate, ne_eq, not_true_eq_false, if_false]
  obtain ⟨out, s', hpop⟩ : ∃ out s', verifyPop P s signature env.later = (out, s') :=
    ⟨_, _, rfl⟩
  have hid : s'.sessionId = s.sessionId := by
    rcases hpop ▸ verifyPop_session (P := P) s signature env.later with ⟨rfl, -⟩ | rfl <;> rfl
  have hkey : s.sessionId = id := Table.key_of_get? hs
  rw [hpop]
  match out with
  | .error e => exact ⟨s', session_write hs s' hid, hid.trans hkey, fun _ ↦ ⟨e, rfl⟩⟩
  | .ok (false, reason) =>
    exact ⟨_, session_write hs { s' with state := .authenticated } hid, hid.trans hkey, nofun⟩
  | .ok (true, reason) =>
    have hw := session_write hs { s' with state := .popVerified } hid
    refine ⟨{ s' with state := .popVerified }, ?_, hid.trans hkey, nofun⟩
    dsimp only
    split <;> exact hw

/-- No session waits on a challenge that was judged. -/
theorem Inv.judged (h : Inv node fog) (hc : ChallengesOk fog.sessions) {e : Event}
    (hj : Judges node fog e id) (hs : (step node fog e).sessions.get? id = some s) :
    s.state ≠ .keySubmitted := by
  obtain ⟨env, request⟩ := e
  obtain ⟨signature, t, hreq, hget, hstate⟩ := hj
  dsimp only at hreq hget
  subst hreq
  obtain ⟨s', hsessions, hid, hfault⟩ := registerPop_judged signature hget hstate
  change (registerPop node env ⟨id, signature⟩ fog).2.sessions.get? id = some s at hs
  rw [hsessions, Table.get?_add, if_pos hid.symm] at hs
  cases hs
  intro hs'
  obtain ⟨e, he⟩ := hfault hs'
  exact h.no_fault hc ((session_found hget).1) hstate he

/-- The request submits a DID with its key in the session and obtains the challenge. -/
structure Submits (node : Node P) (fog : Fog) (e : Event) (id did publicKey : String)
    (challenge : Bytes) : Prop where
  request_eq : e.request = .registerPubkey ⟨id, did, publicKey⟩
  answers : (answer node fog e).field "challenge" = some (.str (toHex challenge))

/-- The request opens the session with a valid PSK. -/
structure Starts (node : Node P) (fog : Fog) (e : Event) (id : String) : Prop where
  request_eq : ∃ authorization provId psk, e.request = .registerStart authorization ∧
    parseAuthorization authorization = some (provId, psk) ∧
    pskCheck P node.pskStore provId psk = true
  answers : (answer node fog e).field "session_id" = some (.str id)

/-- A session that waits for a proof waited before, or got its challenge just now. -/
theorem Inv.waiting (h : Inv node fog) (hc : ChallengesOk fog.sessions) {e : Event}
    (hs : (step node fog e).sessions.get? id = some s) (hstate : s.state = .keySubmitted) :
    (fog.sessions.get? id = some s ∧ ¬ Judges node fog e id) ∨
      ∃ t did publicKey challenge, fog.sessions.get? id = some t ∧
        Submits node fog e id did publicKey challenge ∧ s.did = some did ∧
        s.publicKey = some publicKey ∧ s.challenge = some (toHex challenge) ∧
        s.challengeExpires = e.env.later + node.challengeTtl := by
  have hjudges : ¬ Judges node fog e id := fun hj ↦ h.judged hc hj hs hstate
  suffices hsplit : fog.sessions.get? id = some s ∨ ∃ t did publicKey challenge,
      fog.sessions.get? id = some t ∧ Submits node fog e id did publicKey challenge ∧
      s.did = some did ∧ s.publicKey = some publicKey ∧ s.challenge = some (toHex challenge) ∧
      s.challengeExpires = e.env.later + node.challengeTtl from
    hsplit.imp_left fun hold ↦ ⟨hold, hjudges⟩
  clear hjudges
  obtain ⟨env, request⟩ := e
  have he := step_effect node fog ⟨env, request⟩
  dsimp only at he ⊢
  generalize hr : answer node fog ⟨env, request⟩ = r at he
  generalize step node fog ⟨env, request⟩ = fog' at he hs
  have hadd : ∀ t : Session, (fog.sessions.add t).get? id = some s → t.state ≠ .keySubmitted →
      fog.sessions.get? id = some s := by
    intro t ht hne
    rw [Table.get?_add] at ht
    split at ht
    case isTrue =>
      cases ht
      exact absurd hstate hne
    case isFalse => exact ht
  cases he with
  | refused hrefused hlapsed =>
    rcases hlapsed with rfl | ⟨j, rfl⟩
    · exact .inl hs
    · rw [Table.get?_erase] at hs
      split at hs
      · cases hs
      · exact .inl hs
  | started => exact .inl (hadd _ hs (by simp [Session.new]))
  | @submitted body _ t pk ht hstate' hpk hlen hdid hnew huse hanswer =>
    rw [Table.get?_add] at hs
    split at hs
    case isTrue hid =>
      cases hs
      have hkey : t.sessionId = body.sessionId := Table.key_of_get? ht
      obtain rfl : id = body.sessionId := hid.trans hkey
      exact .inr ⟨t, body.did, body.publicKey, (env.draw 32).1, ht, ⟨rfl, hr ▸ hanswer⟩, rfl, rfl,
        rfl, rfl⟩
    case isFalse => exact .inl hs
  | @popFailed body _ t t' ht hstate' _ _ _ _ _ _ hfault =>
    rcases hfault with hfault | ⟨e, he⟩
    · exact .inl (hadd _ hs (by simp [hfault]))
    · exact absurd he (h.no_fault hc ht hstate')
  | popPassed _ _ _ _ _ _ _ hstate' => exact .inl (hadd _ hs (by simp [hstate']))
  | queued _ _ _ _ _ _ _ _ _ _ _ _ hstate' => exact .inl (hadd _ hs (by simp [hstate']))
  | finalizing hf => cases hf <;> exact .inl hs
  | _ => exact .inl hs

/-- A session that is stored was stored before, or is opened just now. -/
theorem session_opened {e : Event} (hs : (step node fog e).sessions.get? id = some s) :
    (∃ t, fog.sessions.get? id = some t) ∨ Starts node fog e id := by
  obtain ⟨env, request⟩ := e
  have he := step_effect node fog ⟨env, request⟩
  dsimp only at he
  generalize hr : answer node fog ⟨env, request⟩ = r at he
  generalize step node fog ⟨env, request⟩ = fog' at he hs
  have hadd : ∀ (j : String) (t t' : Session), fog.sessions.get? j = some t →
      t'.sessionId = t.sessionId → (fog.sessions.add t').get? id = some s →
      ∃ t, fog.sessions.get? id = some t := by
    intro j t t' ht hid hs
    rw [Table.get?_add] at hs
    split at hs
    case isTrue heq =>
      rw [heq, hid]
      exact ⟨t, Table.get?_key ht⟩
    case isFalse => exact ⟨s, hs⟩
  cases he with
  | refused _ hlapsed =>
    rcases hlapsed with rfl | ⟨j, rfl⟩
    · exact .inl ⟨s, hs⟩
    · rw [Table.get?_erase] at hs
      split at hs
      · cases hs
      · exact .inl ⟨s, hs⟩
  | started hauth hpsk hanswer =>
    rw [Table.get?_add] at hs
    split at hs
    case isTrue hid =>
      rw [hid]
      exact .inr ⟨⟨_, _, _, rfl, hauth, hpsk⟩, hr ▸ hanswer⟩
    case isFalse => exact .inl ⟨s, hs⟩
  | @submitted body _ t _ ht => exact .inl (hadd _ t (submitted node env t body) ht rfl hs)
  | popFailed ht _ _ hid => exact .inl (hadd _ _ _ ht hid hs)
  | popPassed ht _ hid => exact .inl (hadd _ _ _ ht hid hs)
  | queued ht _ _ _ _ _ _ _ _ hid => exact .inl (hadd _ _ _ ht hid hs)
  | finalizing hf => cases hf <;> exact .inl ⟨s, hs⟩
  | _ => exact .inl ⟨s, hs⟩

/-- The session was opened with a valid PSK earlier in the run. -/
def Opened (node : Node P) (events : List Event) (id : String) : Prop :=
  ∃ earlier start later, events = earlier ++ start :: later ∧
    Starts node (after node Fog.init earlier) start id

theorem opened_of_session (hs : (after node Fog.init events).sessions.get? id = some s) :
    Opened node events id := by
  obtain ⟨earlier, e, later, hsplit, hbefore, t, ht⟩ := exists_first
    (p := fun fog : Fog ↦ ∃ t, fog.sessions.get? id = some t)
    (by simp [Fog.init, Fog.create]) ⟨s, hs⟩
  exact ⟨earlier, e, later, hsplit, (session_opened ht).resolve_left hbefore⟩

/-- The challenge was issued to the opened session when the DID and the key were
submitted in it, and has not been judged since. -/
def Challenged (node : Node P) (events : List Event) (id did publicKey : String)
    (challenge : Bytes) (deadline : ℚ) : Prop :=
  ∃ earlier sub later, events = earlier ++ sub :: later ∧ Opened node earlier id ∧
    Submits node (after node Fog.init earlier) sub id did publicKey challenge ∧
    deadline = sub.env.later + node.challengeTtl ∧
    ∀ l₁ e l₂, later = l₁ ++ e :: l₂ →
      ¬ Judges node (after node Fog.init (earlier ++ sub :: l₁)) e id

theorem challenged_of_waiting (events : List Event) :
    ∀ s, (after node Fog.init events).sessions.get? id = some s → s.state = .keySubmitted →
      ∃ did publicKey challenge, s.did = some did ∧ s.publicKey = some publicKey ∧
        s.challenge = some (toHex challenge) ∧
        Challenged node events id did publicKey challenge s.challengeExpires := by
  refine run_history (fun l (fog : Fog) ↦ ∀ s, fog.sessions.get? id = some s →
    s.state = .keySubmitted → ∃ did publicKey challenge, s.did = some did ∧
      s.publicKey = some publicKey ∧ s.challenge = some (toHex challenge) ∧
      Challenged node l id did publicKey challenge s.challengeExpires)
    (fun s hs ↦ by simp [Fog.init, Fog.create] at hs) (fun l e ih s hs hstate ↦ ?_) events
  obtain ⟨hinv, hc⟩ := challenges_after node l
  rcases hinv.waiting hc hs hstate with
    ⟨hold, hjudges⟩ | ⟨t, did, publicKey, challenge, ht, hsub, hdid, hkey, hch, hexpires⟩
  · obtain ⟨did, publicKey, challenge, hdid, hkey, hch, earlier, sub, later, rfl, hopened, hsub,
      hdeadline, hnot⟩ := ih s hold hstate
    refine ⟨did, publicKey, challenge, hdid, hkey, hch, earlier, sub, later ++ [e], by simp,
      hopened, hsub, hdeadline, fun l₁ e' l₂ hsplit ↦ ?_⟩
    rcases List.eq_nil_or_concat' l₂ with rfl | ⟨l₂, e'', rfl⟩
    · obtain ⟨rfl, he⟩ := List.append_inj' hsplit rfl
      cases he
      exact hjudges
    · rw [← List.cons_append, ← List.append_assoc] at hsplit
      obtain ⟨rfl, -⟩ := List.append_inj' hsplit rfl
      exact hnot l₁ e' l₂ rfl
  · exact ⟨did, publicKey, challenge, hdid, hkey, hch, l, e, [], rfl, opened_of_session ht, hsub,
      hexpires, fun l₁ e' l₂ hsplit ↦ by simp at hsplit⟩

/-- A proof of possession passes in the session with the DID and the key. -/
structure Passes (P : Platform) (fog : Fog) (env : Env) (request : Request) (r : Response)
    (id did publicKey : String) (s : Session) (pk challenge signature : Bytes) : Prop where
  request_eq : ∃ text, request = .registerPop ⟨id, text⟩ ∧
    PopPassed P s text env.later did publicKey pk challenge signature
  answers : r.field "did" = some (.str did)
  get : fog.sessions.get? id = some s
  waiting : s.state = .keySubmitted

theorem record_modified {devices : DeviceStore} {f : DeviceRecord → DeviceRecord}
    {x : Option DeviceRecord} {rec' : DeviceRecord} {j : String}
    (hx : x = if did = j then (devices.get? j).map f else devices.get? did)
    (hf : ∀ rec, (f rec).publicKey = rec.publicKey) (h : x = some rec') :
    ∃ rec, devices.get? did = some rec ∧ rec.publicKey = rec'.publicKey := by
  rw [hx] at h
  split at h
  case isTrue hj =>
    obtain ⟨rec, hrec, rfl⟩ := Option.map_eq_some_iff.mp h
    exact ⟨rec, hj ▸ hrec, (hf rec).symm⟩
  case isFalse => exact ⟨rec', h, rfl⟩

theorem Effect.record (he : Effect node env fog request r fog') {rec' : DeviceRecord}
    (hrec : fog'.devices.get? did = some rec') :
    (∃ rec, fog.devices.get? did = some rec ∧ rec.publicKey = rec'.publicKey) ∨
      ∃ id s pk challenge signature,
        Passes P fog env request r id did rec'.publicKey s pk challenge signature := by
  cases he with
  | @popPassed body _ s _ _ _ _ _ _ hs hstate _ _ _ _ _ _ hpop _ hr =>
    rw [get?_upsert] at hrec
    split at hrec
    case isTrue hd =>
      cases hrec
      subst hd
      exact .inr ⟨body.sessionId, s, _, _, _, ⟨⟨body.signature, rfl, hpop⟩, hr, hs, hstate⟩⟩
    case isFalse => exact .inl ⟨rec', hrec, rfl⟩
  | unqueued => exact .inl (record_modified (get?_setMetadata _ _ _ did) (fun _ ↦ rfl) hrec)
  | queued =>
    obtain ⟨rec, hget, hkey⟩ := record_modified (get?_setLeaf _ _ _ did) (fun _ ↦ rfl) hrec
    obtain ⟨rec₀, hget₀, hkey₀⟩ :=
      record_modified (get?_setMetadata _ _ _ did) (fun _ ↦ rfl) hget
    exact .inl ⟨rec₀, hget₀, hkey₀.trans hkey⟩
  | issued => exact .inl (record_modified (get?_setStatus _ _ _ did) (fun _ ↦ rfl) hrec)
  | deviceRevoked => exact .inl (record_modified (get?_setStatus _ _ _ did) (fun _ ↦ rfl) hrec)
  | finalizing hf =>
    cases hf with
    | closed =>
      rcases commitDevices_cases (Table.nodup_keys _) fog.devices did with
        ⟨h, -⟩ | ⟨pkg, -, -, h⟩
      · exact .inl ⟨rec', h ▸ hrec, rfl⟩
      · obtain ⟨rec, hget, rfl⟩ := Option.map_eq_some_iff.mp (h.symm.trans hrec)
        exact .inl ⟨rec, hget, rfl⟩
    | _ => exact .inl ⟨rec', hrec, rfl⟩
  | _ => exact .inl ⟨rec', hrec, rfl⟩

/-- A proof of possession for the DID and the key passed in the run: in a session opened
with a PSK, over the challenge that this session obtained for them, in time and before any
other judgement of that challenge. -/
def PossessionProved (node : Node P) (events : List Event) (did publicKey : String)
    (pk : Bytes) : Prop :=
  ∃ earlier pop later id text challenge signature deadline,
    events = earlier ++ pop :: later ∧ pop.request = .registerPop ⟨id, text⟩ ∧
    (answer node (after node Fog.init earlier) pop).field "did" = some (.str did) ∧
    fromhex text = .ok signature ∧ verify P pk (popMessage challenge did) signature = true ∧
    Challenged node earlier id did publicKey challenge deadline ∧ pop.env.later ≤ deadline

/-- Every record was entered by a proof of possession. -/
theorem record_proved {rec : DeviceRecord}
    (hrec : (after node Fog.init events).devices.get? did = some rec) :
    ∃ pk, fromhex rec.publicKey = .ok pk ∧ did = deriveDid P pk ∧
      PossessionProved node events did rec.publicKey pk := by
  obtain ⟨earlier, pop, later, hsplit, hbefore, rec', hrec', hkey⟩ := exists_first
    (p := fun fog : Fog ↦ ∃ rec', fog.devices.get? did = some rec' ∧
      rec'.publicKey = rec.publicKey)
    (by simp [Fog.init, Fog.create]) ⟨rec, hrec, rfl⟩
  rcases (step_effect node _ pop).record hrec' with
    ⟨rec₀, hrec₀, hkey₀⟩ | ⟨id, s, pk, challenge, signature, hpasses⟩
  · exact absurd ⟨rec₀, hrec₀, hkey₀.trans hkey⟩ hbefore
  · rw [hkey] at hpasses
    obtain ⟨text, hreq, hpop⟩ := hpasses.request_eq
    obtain ⟨did', publicKey', challenge', hdid, hpublic, hch, hchallenged⟩ :=
      challenged_of_waiting earlier s hpasses.get hpasses.waiting
    rw [hpop.did_eq] at hdid
    rw [hpop.key_eq] at hpublic
    cases hdid
    cases hpublic
    obtain ⟨text', htext', hbytes⟩ := hpop.active
    rw [hch] at htext'
    cases htext'
    rw [fromhex_toHex] at hbytes
    cases hbytes
    obtain ⟨pk', hpk', -, hderived⟩ := (inv_after events).records did rec hrec |>.identity
    rw [Table.key_of_get? hrec] at hderived
    obtain rfl : pk' = pk := Except.ok.inj (hpk'.symm.trans hpop.key)
    exact ⟨pk', hpk', hderived, earlier, pop, later, id, text, challenge, signature,
      s.challengeExpires, hsplit, hreq, hpasses.answers, hpop.sent, hpop.valid, hchallenged,
      hpop.in_time⟩

/-- Between two judgements in a session it obtains a new challenge. -/
theorem judged_again {earlier later : List Event} {e e' : Event}
    (hj : Judges node (after node Fog.init earlier) e id)
    (hj' : Judges node (after node Fog.init (earlier ++ e :: later)) e' id) :
    ∃ l₁ sub l₂ did publicKey challenge, later = l₁ ++ sub :: l₂ ∧
      Submits node (after node Fog.init (earlier ++ e :: l₁)) sub id did publicKey challenge := by
  obtain ⟨hinv, hc⟩ := challenges_after node earlier
  obtain ⟨_, s, -, hget, hstate⟩ := hj'
  have hstart : ¬ ∃ s, (step node (after node Fog.init earlier) e).sessions.get? id = some s ∧
      s.state = .keySubmitted := by
    rintro ⟨t, ht, ht'⟩
    exact hinv.judged hc hj ht ht'
  have hend : ∃ s, (after node (step node (after node Fog.init earlier) e) later).sessions.get? id
      = some s ∧ s.state = .keySubmitted := by
    refine ⟨s, ?_, hstate⟩
    have hs := (session_found hget).1
    rwa [after, run_append, run_cons] at hs
  obtain ⟨l₁, sub, l₂, rfl, hbefore, t, ht, ht'⟩ := exists_first
    (p := fun fog : Fog ↦ ∃ s, fog.sessions.get? id = some s ∧ s.state = .keySubmitted) hstart hend
  have hfog : run (step node) (step node (after node Fog.init earlier) e) l₁ =
      after node Fog.init (earlier ++ e :: l₁) := by
    simp only [after, run_append, run_cons]
  rw [hfog] at hbefore ht
  obtain ⟨hinv', hc'⟩ := challenges_after node (earlier ++ e :: l₁)
  rcases hinv'.waiting hc' ht ht' with ⟨hold, -⟩ | ⟨_, did, publicKey, challenge, -, hsub, -⟩
  · exact absurd ⟨t, hold, ht'⟩ hbefore
  · exact ⟨l₁, sub, l₂, did, publicKey, challenge, rfl, hsub⟩

/-- What is true of sessions, records and queued leaves after the listed requests. -/
structure PossessionHolds (node : Node P) (events : List Event) (fog : Fog) : Prop where
  proved : ∀ did (rec : DeviceRecord), fog.devices.get? did = some rec →
    ∃ pk, fromhex rec.publicKey = .ok pk ∧ did = deriveDid P pk ∧
      PossessionProved node events did rec.publicKey pk
  judged_once : ∀ id earlier e later e' rest, events = earlier ++ e :: later ++ e' :: rest →
    Judges node (after node Fog.init earlier) e id →
    Judges node (after node Fog.init (earlier ++ e :: later)) e' id →
    ∃ l₁ sub l₂ did publicKey challenge, later = l₁ ++ sub :: l₂ ∧
      Submits node (after node Fog.init (earlier ++ e :: l₁)) sub id did publicKey challenge
  unused_iff : ∀ id (s : Session), fog.sessions.get? id = some s →
    (s.state = .keySubmitted ↔ s.challengeUsed = false)
  queued : ∀ earlier later did (entry : PendingEntry), events = earlier ++ later →
    (after node Fog.init earlier).epochs.pending.get? did = some entry →
    ∃ rec, fog.devices.get? entry.did = some rec ∧ rec.leaf = some (toHex entry.leaf) ∧
      fromhex entry.publicKey = fromhex rec.publicKey

/-- No identity without a proof of possession. -/
theorem possession_holds (node : Node P) (events : List Event) :
    PossessionHolds node events (after node Fog.init events) := by
  obtain ⟨-, hc⟩ := challenges_after node events
  refine ⟨fun did rec ↦ record_proved,
    fun id earlier e later e' rest _ hj hj' ↦ judged_again hj hj',
    fun id s hs ↦ (hc id s hs).unused_iff, fun earlier later did entry hsplit hentry ↦ ?_⟩
  have hinv : Inv node (after node Fog.init earlier) := inv_after earlier
  obtain ⟨rec, hrec, hleaf, hkey, -⟩ := hinv.queue did entry hentry
  obtain ⟨rec', hrec', hadv⟩ := (keeps_after hinv later).devices entry.did rec hrec
  rw [hsplit, after, run_append]
  exact ⟨rec', hrec', hadv.leaf_eq _ hleaf, by rw [hkey, hadv.key_eq]⟩

end FogNode.Proofs
