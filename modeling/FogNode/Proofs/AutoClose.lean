import FogNode.Proofs.RegistryRefinement
import FogNode.Source.AutoClose

namespace FogNode.Proofs

open FogNode.Library FogNode.Source

variable {P : Platform} {node : Node P} {env : Env} {excludeDids : List String} {fog fog' : Fog}
  {did : String}

section finalize

variable {out : Except PyError EpochResult}

/-- A device that waits is due, if it is neither excluded nor revoked. -/
theorem Settled.due_or_decided (h : Settled fog did) (hfree : did ∉ excludeDids) :
    Due node excludeDids fog did ∨ Decided fog did := by
  rcases h with hpending | hdecided
  · by_cases hrevoked : Revoked fog did
    · obtain ⟨rec, hrec, hstatus⟩ := hrevoked
      exact .inr ⟨rec, hrec, .inr hstatus⟩
    · exact .inl ⟨hfree, fun rec hrec hstatus ↦ hrevoked ⟨rec, hrec, hstatus⟩, .inl hpending⟩
  · exact .inr hdecided

/-- A close that fails removes nobody from the batch. -/
theorem Inv.settled_finalizing (h : Inv node fog)
    (hf : Finalizing node env excludeDids fog out fog') (hfree : did ∉ excludeDids)
    (hs : Settled fog did) : Settled fog' did := by
  cases out with
  | ok result => exact .inr (h.decided_closed hf hfree hs)
  | error e =>
    cases hf with
    | _ => exact hs

theorem Inv.settled_step (h : Inv node fog) (hs : Settled fog did) {e : Event}
    (hfree : ∀ excludeDids, e.request = .epochClose excludeDids (some node.adminKey) →
      did ∉ excludeDids) : Settled (step node fog e) did := by
  have he := step_effect node fog e
  have hadv := (h.effect he).2.devices
  obtain ⟨env, request⟩ := e
  generalize answer node fog ⟨env, request⟩ = r at he
  generalize step node fog ⟨env, request⟩ = fog' at he hadv ⊢
  dsimp only at he
  cases he with
  | queued => exact hs.advance hadv fun hp ↦ by rw [Table.get?_add]; split <;> simp [hp]
  | finalizing hf _ _ hadmin =>
    exact h.settled_finalizing hf (hfree _ (by rw [hadmin])) hs
  | _ => exact hs.advance hadv id

/-- The leaves of a close that gets no tree repeat. -/
theorem Inv.duplicate_leaf (h : Inv node fog) {members : Batch} {new carried : ℕ} {e : PyError}
    (hm : collectMembers node fog (blockedDids fog.devices excludeDids) =
      .ok (members, new, carried))
    (he : members.values ≠ [])
    (ht : MerkleTree.init (nodeHash P) (sortedLeaves members) false = .error e) :
    e = .valueError "duplicate leaf detected" := by
  have hne : sortedLeaves members ≠ [] := by
    rw [Ne, ← List.length_eq_zero_iff, (sortedLeaves_perm members).length_eq]
    simpa using he
  have hlen : ∀ b ∈ sortedLeaves members, b.length = HASH_LEN := sortedLeaves_length fun e he ↦
    (h.member_ok (member_of_collect hm (Table.mem_values.mp he))).choose_spec.entry
  have hnd : ¬ (sortedLeaves members).Nodup := by
    intro hnd
    obtain ⟨tree, hok, -⟩ := init_ok (computes_nodeHash P) false hne hlen hnd
    rw [ht] at hok
    cases hok
  rw [MerkleTree.init, if_neg (by simpa using hne), if_neg (by simpa using hlen),
    if_pos hnd] at ht
  cases ht
  rfl

/-- What the thread does not survive: devices are due, but their epoch is not saved. -/
def Fails (node : Node P) (fog : Fog) (env : Env) : Prop :=
  (∃ did, Due node [] fog did) ∧ ¬ (ReachesFile node [] fog ∧ env.disk = none)

theorem Inv.due_of_members (h : Inv node fog) {members : Batch} {new carried : ℕ}
    (hm : collectMembers node fog (blockedDids fog.devices excludeDids) =
      .ok (members, new, carried)) :
    (∃ did, Due node excludeDids fog did) ↔ members.values ≠ [] := by
  rw [← h.exists_joins_iff hm]
  constructor
  · rintro ⟨did, hdue⟩
    obtain ⟨rec, hj, -⟩ := h.due_iff.mp hdue
    exact ⟨rec, hj⟩
  · rintro ⟨rec, hj⟩
    exact ⟨rec.did, h.due_iff.mpr ⟨rec, hj, rfl⟩⟩

theorem Inv.not_saved (h : Inv node fog) {e : PyError}
    (hf : Finalizing node env excludeDids fog (.error e) fog') :
    ¬ (ReachesFile node excludeDids fog ∧ env.disk = none) := by
  rintro ⟨hfar, hdisk⟩
  rcases h.raises_cases hf with ⟨-, hnot⟩ | ⟨-, hfault, -⟩
  · exact hnot hfar
  · exact hfault hdisk

theorem Inv.resume_iff (h : Inv node fog) (hf : Finalizing node env [] fog out fog') :
    (∃ e, TimerPhase.resume out = .died e) ↔ Fails node fog env := by
  cases hf with
  | unreadable hm =>
    obtain ⟨members, new, carried, hok⟩ := h.collect_total (blockedDids fog.devices [])
    rw [hm] at hok
    cases hok
  | empty hm he =>
    refine iff_of_false (by simp [TimerPhase.resume]) ?_
    rintro ⟨hdue, -⟩
    exact (h.due_of_members hm).mp hdue he
  | badLeaves hm he ht =>
    obtain rfl := h.duplicate_leaf hm he ht
    exact iff_of_true ⟨_, rfl⟩ ⟨(h.due_of_members hm).mpr he, h.not_saved (.badLeaves hm he ht)⟩
  | anchored hm he ht hr =>
    exact iff_of_true ⟨_, rfl⟩ ⟨(h.due_of_members hm).mpr he, h.not_saved (.anchored hm he ht hr)⟩
  | @unsaved _ _ _ _ fault hm he ht hr hd =>
    exact iff_of_true ⟨fault.error, by cases fault <;> rfl⟩
      ⟨(h.due_of_members hm).mpr he, h.not_saved (.unsaved hm he ht hr hd)⟩
  | closed hm he ht hr hd =>
    refine iff_of_false (by simp [TimerPhase.resume]) ?_
    rintro ⟨-, hnot⟩
    exact hnot ⟨h.reaches_file hm he ht hr, hd⟩

/-- The thread goes on after a close only if it leaves no device waiting. -/
theorem Inv.decided_resumed (h : Inv node fog) (hf : Finalizing node env [] fog out fog')
    (halive : ∀ e, TimerPhase.resume out ≠ .died e) (hs : Settled fog did) :
    Decided fog' did := by
  cases out with
  | ok result => exact h.decided_closed hf List.not_mem_nil hs
  | error e =>
    have hcases : Due node [] fog did ∨ Decided fog did := hs.due_or_decided List.not_mem_nil
    rcases hcases with hdue | hdecided
    · obtain ⟨err, hdied⟩ := (h.resume_iff hf).mpr ⟨⟨did, hdue⟩, h.not_saved hf⟩
      exact absurd hdied (halive err)
    · exact hdecided.advance (h.finalizing hf).2.devices

end finalize

section runs

variable {s : TimedFog} {m : TimedMove} {l first rest : List TimedMove}

/-- The fog with its timer thread after a run from its first start. -/
abbrev timedAfter (node : Node P) (l : List TimedMove) : TimedFog :=
  run (timedStep node) ⟨Fog.init, .sleeping⟩ l

/-- A close by the thread is a request of the administrator that excludes nobody. -/
def closeEvent (node : Node P) (env : Env) : Event := ⟨env, .epochClose [] (some node.adminKey)⟩

theorem step_closeEvent (node : Node P) (env : Env) (fog : Fog) :
    step node fog (closeEvent node env) = (finalizeEpoch node env [] fog).2 :=
  epochClose_finalizes node env [] fog

/-- What the thread and the requests do to the fog are requests. -/
theorem timedStep_fog (node : Node P) (s : TimedFog) (m : TimedMove) :
    (timedStep node s m).fog = s.fog ∨ ∃ a, (timedStep node s m).fog = act node s.fog a ∧
      (a = .restart → m = .action .restart) := by
  cases m with
  | timer env =>
    obtain ⟨fog, timer⟩ := s
    cases timer with
    | closing =>
      exact .inr ⟨.request (closeEvent node env), (step_closeEvent node env fog).symm, by simp⟩
    | _ => exact .inl rfl
  | action a =>
    cases a with
    | request e => exact .inr ⟨.request e, rfl, by simp⟩
    | restart => exact .inr ⟨.restart, rfl, fun _ ↦ rfl⟩

/-- A run with the thread leads to a fog that a run without it leads to. -/
theorem timedAfter_fog (node : Node P) (l : List TimedMove) :
    ∃ actions, (timedAfter node l).fog = afterActions node Fog.init actions := by
  refine run_history (fun _ (s : TimedFog) ↦ ∃ actions,
    s.fog = afterActions node Fog.init actions) ⟨[], rfl⟩ (fun l m ih ↦ ?_) l
  obtain ⟨actions, hfog⟩ := ih
  rcases timedStep_fog node (run (timedStep node) ⟨Fog.init, .sleeping⟩ l) m with
    hsame | ⟨a, hact, -⟩
  · exact ⟨actions, hsame.trans hfog⟩
  · exact ⟨actions ++ [a], by rw [hact, hfog, afterActions, afterActions, run_snoc]⟩

theorem inv_timedStep (s : TimedFog) (m : TimedMove) (h : Inv node s.fog) :
    Inv node (timedStep node s m).fog := by
  rcases timedStep_fog node s m with hsame | ⟨a, hact, -⟩
  · rwa [hsame]
  · rw [hact]
    exact inv_act s.fog a h

theorem inv_timed (l : List TimedMove) : Inv node (timedAfter node l).fog :=
  run_invariant (I := fun s : TimedFog ↦ Inv node s.fog) inv_timedStep inv_init l

theorem keeps_timed (h : Inv node s.fog) (hm : m ≠ .action .restart) :
    Keeps s.fog (timedStep node s m).fog := by
  rcases timedStep_fog node s m with hsame | ⟨a, hact, hrestart⟩
  · rw [hsame]
    exact .refl _
  · cases a with
    | request e =>
      rw [hact]
      exact (h.effect (step_effect node s.fog e)).2
    | restart => exact absurd (hrestart rfl) hm

theorem timedStep_closing (node : Node P) (env : Env) (fog : Fog) :
    timedStep node ⟨fog, .closing⟩ (.timer env) =
      ⟨(finalizeEpoch node env [] fog).2, .resume (finalizeEpoch node env [] fog).1⟩ := rfl

theorem timer_closes (node : Node P) (env : Env) (fog : Fog) :
    ∃ out fog', Finalizing node env [] fog out fog' ∧
      timedStep node ⟨fog, .closing⟩ (.timer env) = ⟨fog', .resume out⟩ := by
  obtain ⟨out, fog', hout, hf⟩ := finalizeEpoch_cases node env [] fog
  exact ⟨out, fog', hf, by rw [timedStep_closing, hout]⟩

/-- A step after which the thread is dead. -/
theorem died_step_iff (h : Inv node s.fog) (m : TimedMove) :
    (∃ e, (timedStep node s m).timer = .died e) ↔
      (∃ env, m = .timer env ∧ s.timer = .closing ∧ Fails node s.fog env) ∨
        ((∃ e, s.timer = .died e) ∧ m ≠ .action .restart) := by
  obtain ⟨fog, timer⟩ := s
  cases m with
  | timer env =>
    cases timer with
    | sleeping =>
      have halive : ∀ e, (timedStep node ⟨fog, .sleeping⟩ (.timer env)).timer ≠ .died e := by
        intro e hdied
        simp only [timedStep, timerStep] at hdied
        split at hdied <;> cases hdied
      simpa using halive
    | closing =>
      obtain ⟨out, fog', hf, hstep⟩ := timer_closes node env fog
      rw [hstep, h.resume_iff hf]
      simp
    | died e => simp [timedStep, timerStep]
  | action a => cases a <;> simp [timedStep]

/-- The thread brings the fog nowhere that requests do not lead to, and it is dead exactly
if, since the last restart, it came to close an epoch that was due but was not saved. -/
theorem auto_close_runs (node : Node P) (l : List TimedMove) :
    (∃ actions, (timedAfter node l).fog = afterActions node Fog.init actions) ∧
    ((∃ e, (timedAfter node l).timer = .died e) ↔
      ∃ first env rest, l = first ++ .timer env :: rest ∧
        (timedAfter node first).timer = .closing ∧ Fails node (timedAfter node first).fog env ∧
        ∀ m ∈ rest, m ≠ .action .restart) := by
  refine ⟨timedAfter_fog node l, ?_⟩
  have hlatched := latched_iff (I := fun s : TimedFog ↦ Inv node s.fog)
    (D := fun s ↦ ∃ e, s.timer = .died e) inv_timedStep (fun s m h ↦ died_step_iff h m)
    (s := ⟨Fog.init, .sleeping⟩) inv_init (by simp) l
  rw [hlatched]
  constructor
  · rintro ⟨first, m, rest, hsplit, ⟨env, rfl, hcloses, hfails⟩, hrest⟩
    exact ⟨first, env, rest, hsplit, hcloses, hfails, hrest⟩
  · rintro ⟨first, env, rest, hsplit, hcloses, hfails, hrest⟩
    exact ⟨first, .timer env, rest, hsplit, ⟨env, rfl, hcloses, hfails⟩, hrest⟩

/-- A request that does not exclude the device from an epoch. -/
def KeepsQueued (node : Node P) (did : String) : TimedMove → Prop
  | .action (.request e) => ∀ excludeDids,
      e.request = .epochClose excludeDids (some node.adminKey) → did ∉ excludeDids
  | _ => False

/-- While the thread waits for the lock, no request takes the device out of the batch. -/
theorem settled_meanwhile (h : Inv node s.fog) (hs : Settled s.fog did)
    (hl : ∀ m ∈ l, KeepsQueued node did m) :
    Settled (run (timedStep node) s l).fog did ∧
      (run (timedStep node) s l).timer = s.timer := by
  induction l generalizing s with
  | nil => exact ⟨hs, rfl⟩
  | cons m l ih =>
    have hkeeps := hl m List.mem_cons_self
    cases m with
    | timer env => exact hkeeps.elim
    | action a =>
      cases a with
      | restart => exact hkeeps.elim
      | request e =>
        exact ih (inv_step s.fog e h) (h.settled_step hs hkeeps)
          fun m hm ↦ hl m (List.mem_cons_of_mem _ hm)

theorem decided_later (h : Inv node s.fog) (hd : Decided s.fog did)
    (hl : ∀ m ∈ l, m ≠ .action .restart) : Decided (run (timedStep node) s l).fog did := by
  induction l generalizing s with
  | nil => exact hd
  | cons m l ih =>
    exact ih (inv_timedStep s m h) (hd.advance (keeps_timed h (hl m List.mem_cons_self)).devices)
      fun m hm ↦ hl m (List.mem_cons_of_mem _ hm)

theorem timer_wakes (env : Env) (hwaits : (fog.epochs.pending.get? did).isSome) :
    timedStep node ⟨fog, .sleeping⟩ (.timer env) = ⟨fog, .closing⟩ := by
  have hsize : 0 < fog.epochs.pending.size := by
    obtain ⟨e, he⟩ := Option.isSome_iff_exists.mp hwaits
    rw [Nat.pos_iff_ne_zero]
    intro hzero
    rw [Table.values_eq_nil] at hzero
    have hmem := Table.mem_values.mpr (Table.get?_key he)
    rw [hzero] at hmem
    cases hmem
  simp only [timedStep, timerStep, if_pos hsize]

/-- A device that waits when the thread looks at the batch is registered or revoked once the
thread has closed the epoch and lives on, whatever requests come between the two. -/
theorem auto_close_admits (node : Node P) (first between rest : List TimedMove) (env env' : Env)
    (did : String) (hsleeps : (timedAfter node first).timer = .sleeping)
    (hwaits : ((timedAfter node first).fog.epochs.pending.get? did).isSome)
    (hbetween : ∀ m ∈ between, KeepsQueued node did m) (hrest : ∀ m ∈ rest, m ≠ .action .restart)
    (halive : ∀ e, (timedAfter node
      (first ++ .timer env :: between ++ [.timer env'])).timer ≠ .died e) :
    Decided (timedAfter node (first ++ .timer env :: between ++ .timer env' :: rest)).fog did := by
  simp only [timedAfter, run_append, run_cons, run_nil] at halive ⊢
  rw [← timedAfter] at halive ⊢
  have hinv : Inv node (timedAfter node first).fog := inv_timed first
  generalize timedAfter node first = s at *
  obtain ⟨fog, timer⟩ := s
  obtain rfl : timer = .sleeping := hsleeps
  rw [timer_wakes env hwaits] at halive ⊢
  have hopen : Inv node (⟨fog, .closing⟩ : TimedFog).fog := hinv
  have hmeanwhile := settled_meanwhile hopen (.inl hwaits) hbetween
  have hinv' : Inv node (run (timedStep node) ⟨fog, .closing⟩ between).fog :=
    run_invariant (I := fun s : TimedFog ↦ Inv node s.fog) inv_timedStep hopen between
  generalize run (timedStep node) ⟨fog, .closing⟩ between = t at *
  obtain ⟨hsettled, htimer⟩ := hmeanwhile
  obtain ⟨fog', timer'⟩ := t
  obtain rfl : timer' = .closing := htimer
  obtain ⟨out, fog'', hf, hstep⟩ := timer_closes node env' fog'
  rw [hstep] at halive ⊢
  have hclosed : Inv node fog'' := (hinv'.finalizing hf).1
  exact decided_later hclosed (hinv'.decided_resumed hf halive hsettled) hrest

theorem run_requests (node : Node P) (s : TimedFog) (events : List Event) :
    run (timedStep node) s (events.map fun e ↦ .action (.request e)) =
      ⟨after node s.fog events, s.timer⟩ := by
  induction events generalizing s with
  | nil => rfl
  | cons e events ih => exact ih ⟨step node s.fog e, s.timer⟩

/-- A device is queued, and the thread closes two steps later. -/
def queuedMoves : List TimedMove :=
  (registration (plainKey 7) 0 7).map fun e ↦ .action (.request e)

def betweenMoves : List TimedMove := [.action (.request (plainEvent 1 0 .epochCurrent))]

theorem auto_close_admits_queued : Decided (timedAfter plainNode (queuedMoves ++
    .timer (plainEnv 1 3 none) :: betweenMoves ++ .timer (plainEnv 2 3 none) :: [])).fog
    (plainDid 7) := by
  have hqueued : timedAfter plainNode queuedMoves = ⟨queuedFog, .sleeping⟩ := by
    rw [timedAfter, queuedMoves, run_requests, queuedFog]
  have hrun : (queuedFog.epochs.pending.get? (plainDid 7)).isSome = true ∧
      (finalizeEpoch plainNode (plainEnv 2 3 none) [] queuedFog).1.isOk = true := by
    decide +kernel
  obtain ⟨hwaits, hcloses⟩ := hrun
  refine auto_close_admits plainNode queuedMoves betweenMoves [] (plainEnv 1 3 none)
    (plainEnv 2 3 none) (plainDid 7) (by rw [hqueued]) (by simpa only [hqueued] using hwaits)
    (fun m hm ↦ ?_) (by simp) fun e hdied ↦ ?_
  · rw [List.mem_singleton.mp hm]
    intro excludeDids hclose
    cases hclose
  · have hbetween : ∀ s, run (timedStep plainNode) s betweenMoves = s := fun _ ↦ rfl
    have hwoken : run (timedStep plainNode) ⟨queuedFog, .sleeping⟩
        (.timer (plainEnv 1 3 none) :: betweenMoves) = ⟨queuedFog, .closing⟩ := by
      rw [run_cons, timer_wakes _ hwaits, hbetween]
    rw [timedAfter, run_append, run_append, ← timedAfter, hqueued, hwoken, run_cons, run_nil,
      timedStep_closing] at hdied
    cases hout : (finalizeEpoch plainNode (plainEnv 2 3 none) [] queuedFog).1 with
    | ok result => rw [hout] at hdied; cases hdied
    | error err => rw [hout] at hcloses; cases hcloses

end runs

end FogNode.Proofs
