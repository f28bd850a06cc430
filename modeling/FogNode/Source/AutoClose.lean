import FogNode.Source.Main

namespace FogNode.Source

variable {P : Platform} (node : Node P)

/-- Where the thread of `start_auto_close` is in its loop. -/
inductive TimerPhase
  | sleeping
  | closing
  | died (e : PyError)

/-- How the loop goes on after `finalize_epoch`. Only an `EpochError` is caught. -/
def TimerPhase.resume : Except PyError EpochResult → TimerPhase
  | .ok _ => .sleeping
  | .error (.epochError _) => .sleeping
  | .error e => .died e

/-- The thread wakes up and calls `batch_size`, or it calls `finalize_epoch`. -/
def timerStep (env : Env) : TimerPhase → Fog → TimerPhase × Fog
  | .sleeping, fog => (if 0 < fog.epochs.pending.size then .closing else .sleeping, fog)
  | .closing, fog =>
    let (out, fog) := finalizeEpoch node env [] fog
    (.resume out, fog)
  | .died e, fog => (.died e, fog)

structure TimedFog where
  fog : Fog
  timer : TimerPhase

inductive TimedMove
  | timer (env : Env)
  | action (a : Action)

/-- A restart starts the thread anew. -/
def timedStep (s : TimedFog) : TimedMove → TimedFog
  | .timer env =>
    let (timer, fog) := timerStep node env s.timer s.fog
    ⟨fog, timer⟩
  | .action .restart => ⟨act node s.fog .restart, .sleeping⟩
  | .action (.request e) => ⟨act node s.fog (.request e), s.timer⟩

end FogNode.Source
