import FogNode.Proofs.Messages
import FogNode.Proofs.Steps

namespace FogNode.Proofs

open FogNode.Library FogNode.Source

variable {P : Platform} {node : Node P} {env : Env} {fog fog' : Fog} {n : String}
  {events : List Event}

/-- Where the entry of a nonce after a request comes from. -/
inductive NonceStep (env : Env) (fog : Fog) (request : Request) (r : Response) (n : String) :
    NonceEntry → Prop
  | kept {entry : NonceEntry} (h : fog.tokenState.nonces.get? n = some entry) :
      NonceStep env fog request r n entry
  | spent {entry : NonceEntry} (h : fog.tokenState.nonces.get? n = some entry) :
      NonceStep env fog request r n { entry with used := true }
  | issued {purpose subject : String} (hask : AsksNonce fog purpose subject request)
      (hr : r.text "nonce" = some n) (hn : n = env.tokenHex 16) :
      NonceStep env fog request r n ⟨purpose, subject, env.now + NONCE_TTL_SECONDS, false⟩

theorem Effect.nonce {request : Request} {r : Response} (he : Effect node env fog request r fog')
    {entry : NonceEntry} (h : fog'.tokenState.nonces.get? n = some entry) :
    NonceStep env fog request r n entry := by
  cases he with
  | challenged hask hr =>
    change (Dict.set _ _ _).get? n = some entry at h
    rw [Dict.get?_set] at h
    split at h
    case isTrue hn =>
      cases h
      subst hn
      exact .issued hask (by simp [Response.text, hr, strField]) rfl
    case isFalse =>
      rw [NonceBook.purge, Dict.get?_filter] at h
      obtain ⟨hget, -⟩ := Option.filter_eq_some_iff.mp h
      exact .kept hget
  | presented hp hspent =>
    rcases hspent with rfl | ⟨m, rfl⟩ | ⟨m, entry', hget, -, rfl⟩
    · exact .kept h
    · exact .kept (Dict.get?_erase_some h).2
    · change (Dict.set _ _ _).get? n = some entry at h
      rw [Dict.get?_set] at h
      split at h
      case isTrue hn =>
        cases h
        exact .spent (hn ▸ hget)
      case isFalse => exact .kept h
  | tokenRevoked hbody hr => exact .kept (hr.nonces_eq ▸ h)
  | deviceRevoked hbody hrec hr => exact .kept (hr.nonces_eq ▸ h)
  | finalizing hf => cases hf <;> exact .kept h
  | _ => exact .kept h

/-- The nonce that the fog hands out when it answers the request. -/
def issuedNonce (node : Node P) (fog : Fog) (e : Event) : Option String :=
  match e.request with
  | .tokensNonce _ | .verifyNonce _ => (answer node fog e).text "nonce"
  | _ => none

/-- All nonces handed out in a run. -/
abbrev issuedNonces (node : Node P) (events : List Event) : List String :=
  outputs (step node) (issuedNonce node) Fog.init events

theorem issuedNonce_eq {e : Event} {purpose subject : String}
    (h : AsksNonce fog purpose subject e.request) :
    issuedNonce node fog e = (answer node fog e).text "nonce" := by
  obtain ⟨env, request⟩ := e
  cases request with
  | tokensNonce tokenId => rfl
  | verifyNonce did => rfl
  | _ => exact h.elim

/-- The request is the one with which the nonce is accepted. -/
def Takes (node : Node P) (fog : Fog) (e : Event) (n : String) : Prop :=
  (∃ entry, fog.tokenState.nonces.get? n = some entry ∧ entry.used = false) ∧
    ∃ entry, (step node fog e).tokenState.nonces.get? n = some entry ∧ entry.used = true

/-- Every nonce was issued earlier in the run, for its purpose and its subject. -/
theorem nonce_origin {entry : NonceEntry}
    (h : (after node Fog.init events).tokenState.nonces.get? n = some entry) :
    ∃ earlier e later, events = earlier ++ e :: later ∧
      AsksNonce (after node Fog.init earlier) entry.purpose entry.subject e.request ∧
      (answer node (after node Fog.init earlier) e).text "nonce" = some n ∧
      n = e.env.tokenHex 16 ∧ entry.expiresAt = e.env.now + NONCE_TTL_SECONDS := by
  obtain ⟨earlier, e, later, hsplit, hbefore, entry', hget, hpurpose, hsubject, hexpires⟩ :=
    exists_first (p := fun fog : Fog ↦ ∃ en, fog.tokenState.nonces.get? n = some en ∧
      en.purpose = entry.purpose ∧ en.subject = entry.subject ∧ en.expiresAt = entry.expiresAt)
      (by simp [Fog.init, Fog.create, TokenState.empty]) ⟨entry, h, rfl, rfl, rfl⟩
  refine ⟨earlier, e, later, hsplit, ?_⟩
  cases (step_effect node _ e).nonce hget with
  | kept hold => exact absurd ⟨_, hold, hpurpose, hsubject, hexpires⟩ hbefore
  | spent hold => exact absurd ⟨_, hold, hpurpose, hsubject, hexpires⟩ hbefore
  | issued hask hr hn =>
    rw [← hpurpose, ← hsubject, ← hexpires]
    exact ⟨hask, hr, hn, rfl⟩

theorem nonce_plain {entry : NonceEntry}
    (h : (after node Fog.init events).tokenState.nonces.get? n = some entry) : Plain n := by
  obtain ⟨-, e, -, -, -, -, rfl, -⟩ := nonce_origin h
  exact plain_toHex _

theorem Inv.plain_did (h : Inv node fog) {did : String} {rec : DeviceRecord}
    (hrec : fog.devices.get? did = some rec) : Plain did := by
  obtain ⟨pk, -, -, hdid⟩ := (h.records did rec hrec).identity
  rw [← Table.key_of_get? hrec, hdid]
  exact plain_deriveDid P pk

theorem nonce_mem {entry : NonceEntry}
    (h : (after node Fog.init events).tokenState.nonces.get? n = some entry) :
    n ∈ issuedNonces node events := by
  obtain ⟨earlier, e, later, rfl, hask, hr, -, -⟩ := nonce_origin h
  exact mem_outputs ((issuedNonce_eq hask).trans hr) later

/-- A nonce that is unused after a run from where it was not is issued in that run. -/
theorem unused_mem {entry : NonceEntry}
    (hstart : ∀ en, fog.tokenState.nonces.get? n = some en → en.used = true)
    (h : (after node fog events).tokenState.nonces.get? n = some entry)
    (hunused : entry.used = false) : n ∈ outputs (step node) (issuedNonce node) fog events := by
  have hnot : ¬ ∃ en, fog.tokenState.nonces.get? n = some en ∧ en.used = false := by
    rintro ⟨en, hen, hu⟩
    rw [hstart en hen] at hu
    cases hu
  obtain ⟨earlier, e, later, rfl, hbefore, en, hen, hu⟩ := exists_first
    (p := fun fog : Fog ↦ ∃ en, fog.tokenState.nonces.get? n = some en ∧ en.used = false)
    hnot ⟨entry, h, hunused⟩
  cases (step_effect node _ e).nonce hen with
  | kept hold => exact absurd ⟨en, hold, hu⟩ hbefore
  | spent hold => cases hu
  | issued hask hr => exact mem_outputs ((issuedNonce_eq hask).trans hr) later

/-- When no nonce is issued twice, one that is unused has never been accepted. -/
theorem nonce_untaken (hdistinct : (issuedNonces node events).Nodup) {entry : NonceEntry}
    (h : (after node Fog.init events).tokenState.nonces.get? n = some entry)
    (hunused : entry.used = false) {earlier later : List Event} {e : Event}
    (hsplit : events = earlier ++ e :: later) :
    ¬ Takes node (after node Fog.init earlier) e n := by
  rintro ⟨⟨en, hen, -⟩, en', hen', hused⟩
  rw [hsplit, List.append_cons] at h hdistinct
  rw [after, run_append, run_snoc] at h
  have hlater := unused_mem (fun d hd ↦ by rw [hen'] at hd; cases hd; exact hused) h hunused
  have hbefore : n ∈ issuedNonces node (earlier ++ [e]) := by
    rw [issuedNonces, outputs_append]
    exact List.mem_append_left _ (nonce_mem hen)
  refine not_again hdistinct hbefore ?_
  rw [run_snoc]
  exact hlater

/-- The nonce was handed out in answer to the request, is in time, and has never been
accepted. -/
structure Fresh (node : Node P) (events : List Event) (request : Request) (nonce : String)
    (now : ℚ) : Prop where
  issued : ∃ earlier e later, events = earlier ++ e :: later ∧ e.request = request ∧
    (answer node (after node Fog.init earlier) e).text "nonce" = some nonce ∧
    now ≤ e.env.now + NONCE_TTL_SECONDS
  untaken : ∀ earlier e later, events = earlier ++ e :: later →
    ¬ Takes node (after node Fog.init earlier) e nonce

theorem Accepts.fresh {now : ℚ} {purpose subject nonce : String} {entry : NonceEntry}
    (h : Accepts (after node Fog.init events).tokenState.nonces now purpose subject nonce entry)
    (hdistinct : (issuedNonces node events).Nodup) {request : Request}
    (hasks : ∀ fog r, AsksNonce fog purpose subject r → r = request) :
    Fresh node events request nonce now where
  issued := by
    obtain ⟨earlier, e, later, hsplit, hask, hr, -, hexpires⟩ := nonce_origin h.get
    rw [h.purpose_eq, h.subject_eq] at hask
    exact ⟨earlier, e, later, hsplit, hasks _ _ hask, hr, hexpires ▸ h.in_time⟩
  untaken _ _ _ hsplit := nonce_untaken hdistinct h.get h.unused hsplit

theorem takes_of_consume {e : Event} {now : ℚ} {purpose : String} {subject : Json}
    (hok : (NonceBook.consume fog.tokenState.nonces now purpose subject n).1 = .ok)
    (hstep : (step node fog e).tokenState.nonces =
      (NonceBook.consume fog.tokenState.nonces now purpose subject n).2) : Takes node fog e n := by
  obtain ⟨text, entry, -, haccepts, hset⟩ := consume_ok hok
  refine ⟨⟨entry, haccepts.get, haccepts.unused⟩, { entry with used := true }, ?_, rfl⟩
  rw [hstep, hset, Dict.get?_set_self]

theorem asks_verify (fog : Fog) {did : String} (r : Request)
    (h : AsksNonce fog VERIFY_NONCE_PURPOSE did r) : r = .verifyNonce did := by
  cases r with
  | tokensNonce tokenId => exact absurd h.1 (by decide)
  | verifyNonce did' => rw [h.2.1]
  | _ => exact h.elim

theorem asks_token (fog : Fog) {tokenId : String} (r : Request)
    (h : AsksNonce fog TOKEN_NONCE_PURPOSE tokenId r) : r = .tokensNonce tokenId := by
  cases r with
  | tokensNonce tokenId' => rw [h.2.1]
  | verifyNonce did => exact absurd h.1 (by decide)
  | _ => exact h.elim

end FogNode.Proofs
