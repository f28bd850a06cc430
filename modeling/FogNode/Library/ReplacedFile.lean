import FogNode.Library.Runs

namespace FogNode.Library

variable {β : Type}

/-- A file, and the temporary file in which its next contents are prepared. -/
structure FilePair (β : Type) where
  target : Option (List β)
  tmp : Option (List β)

/-- What is asked of the operating system to save a file by replacing it. -/
inductive FileCall (β : Type)
  | mkdir
  | openTmp
  | write (piece : List β)
  | replace

namespace FilePair

/-- Opening empties the temporary file, and replacing moves it over the other. -/
def call (files : FilePair β) : FileCall β → FilePair β
  | .mkdir => files
  | .openTmp => { files with tmp := some [] }
  | .write piece => { files with tmp := files.tmp.map (· ++ piece) }
  | .replace =>
    match files.tmp with
    | some text => ⟨some text, none⟩
    | none => files

end FilePair

/-- The calls that prepare the contents. -/
def prepareCalls (pieces : List (List β)) : List (FileCall β) :=
  .mkdir :: .openTmp :: pieces.map .write

def saveCalls (pieces : List (List β)) : List (FileCall β) := prepareCalls pieces ++ [.replace]

variable {files : FilePair β} {calls : List (FileCall β)} {pieces : List (List β)}

theorem target_kept (h : .replace ∉ calls) : (run FilePair.call files calls).target =
    files.target := by
  induction calls generalizing files with
  | nil => rfl
  | cons c calls ih =>
    simp only [List.mem_cons, not_or] at h
    rw [run_cons, ih h.2]
    cases c with
    | replace => exact absurd rfl h.1
    | _ => rfl

theorem replace_not_mem (pieces : List (List β)) : .replace ∉ prepareCalls pieces := by
  simp [prepareCalls]

/-- Until the last call nothing has happened to the file. -/
theorem target_of_take (files : FilePair β) {k : ℕ} (hk : k < (saveCalls pieces).length) :
    (run FilePair.call files ((saveCalls pieces).take k)).target = files.target := by
  apply target_kept
  rw [saveCalls, List.length_append, List.length_singleton] at hk
  rw [saveCalls, List.take_append_of_le_length (by omega)]
  intro h
  exact replace_not_mem pieces (List.mem_of_mem_take h)

theorem tmp_written {text : List β} (h : files.tmp = some text) :
    (run FilePair.call files (pieces.map .write)).tmp = some (text ++ pieces.flatten) := by
  induction pieces generalizing files text with
  | nil => simpa using h
  | cons piece pieces ih =>
    have hstep : (files.call (.write piece)).tmp = some (text ++ piece) := by
      simp only [FilePair.call, h, Option.map_some]
    rw [List.map_cons, run_cons, ih hstep, List.flatten_cons, List.append_assoc]

/-- All calls together put the pieces, joined, in the place of the file. -/
theorem run_saveCalls (files : FilePair β) (pieces : List (List β)) :
    run FilePair.call files (saveCalls pieces) = ⟨some pieces.flatten, none⟩ := by
  have htmp : (run FilePair.call files (prepareCalls pieces)).tmp = some pieces.flatten := by
    have hopen : ((files.call .mkdir).call .openTmp).tmp = some [] := rfl
    rw [prepareCalls, run_cons, run_cons, tmp_written hopen, List.nil_append]
  rw [saveCalls, run_snoc]
  simp only [FilePair.call, htmp]

end FogNode.Library
