import Mathlib.Data.Set.Basic
import FogNode.Library.Runs

namespace FogNode.Library

variable {ι : Type}

/-- A registry that admits in batches. An epoch that closes commits what is waiting and,
where members are carried, all earlier members, without the banned and the excluded ones.
A set whose saving failed blocks further epochs until the registry restarts, which keeps
nothing but the committed sets. -/
structure Registry (ι : Type) where
  waiting : Set ι
  members : Set ι
  banned : Set ι
  epochs : List (Set ι)
  unsaved : Option (Set ι)

inductive RegistryCall (ι : Type)
  | enter (i : ι)
  | ban (i : ι)
  | close (excluded : Set ι) (saved : Bool)
  | restart
  | other

namespace Registry

def empty : Registry ι := ⟨∅, ∅, ∅, [], none⟩

variable (carry : Bool) (r : Registry ι)

/-- What an epoch commits if it closes now. -/
def due (excluded : Set ι) : Set ι :=
  {i | (i ∈ r.waiting ∨ (carry = true ∧ i ∈ r.members)) ∧ i ∉ r.banned ∧ i ∉ excluded}

def Closes (excluded : Set ι) : Prop := (r.due carry excluded).Nonempty ∧ r.unsaved = none

def commit (s : Set ι) : Registry ι :=
  { r with waiting := ∅, members := r.members ∪ s, epochs := r.epochs ++ [s] }

open Classical in
noncomputable def close (excluded : Set ι) (saved : Bool) : Registry ι :=
  if r.Closes carry excluded then
    if saved then r.commit (r.due carry excluded)
    else { r with unsaved := some (r.due carry excluded) }
  else r

noncomputable def call : RegistryCall ι → Registry ι
  | .enter i => { r with waiting := insert i r.waiting }
  | .ban i => { r with banned := insert i r.banned }
  | .close excluded saved => r.close carry excluded saved
  | .restart => { r with waiting := ∅, members := ∅, banned := ∅, unsaved := none }
  | .other => r

variable {carry r} {excluded : Set ι} {saved : Bool}

theorem close_saved (h : r.Closes carry excluded) :
    r.close carry excluded true = r.commit (r.due carry excluded) := by
  rw [close, if_pos h, if_pos rfl]

theorem close_unsaved (h : r.Closes carry excluded) :
    r.close carry excluded false = { r with unsaved := some (r.due carry excluded) } := by
  rw [close, if_pos h, if_neg Bool.false_ne_true]

theorem close_refused (h : ¬ r.Closes carry excluded) : r.close carry excluded saved = r := by
  rw [close, if_neg h]

theorem epochs_call (carry : Bool) (r : Registry ι) (c : RegistryCall ι) :
    (r.call carry c).epochs = r.epochs ∨ ∃ excluded, c = .close excluded true ∧
      r.Closes carry excluded ∧ (r.call carry c).epochs = r.epochs ++ [r.due carry excluded] := by
  cases c with
  | close excluded saved =>
    by_cases h : r.Closes carry excluded
    · cases saved with
      | true => exact .inr ⟨excluded, rfl, h, by rw [call, close_saved h]; rfl⟩
      | false => exact .inl (by rw [call, close_unsaved h])
    · exact .inl (by rw [call, close_refused h])
  | _ => exact .inl rfl

/-- Every committed set was due at the moment of the call that committed it. -/
theorem exists_close {calls : List (RegistryCall ι)} {k : ℕ} {s : Set ι}
    (h : (run (call carry) empty calls).epochs[k]? = some s) :
    ∃ earlier excluded later, calls = earlier ++ .close excluded true :: later ∧
      s = (run (call carry) empty earlier).due carry excluded ∧
      (run (call carry) empty earlier).epochs.length = k ∧
      (run (call carry) empty (earlier ++ [.close excluded true])).epochs.length = k + 1 := by
  induction calls using List.reverseRecOn with
  | nil => cases h
  | append_singleton calls c ih =>
    have hold : (run (call carry) empty calls).epochs[k]? = some s →
        ∃ earlier excluded later, calls ++ [c] = earlier ++ .close excluded true :: later ∧
          s = (run (call carry) empty earlier).due carry excluded ∧
          (run (call carry) empty earlier).epochs.length = k ∧
          (run (call carry) empty (earlier ++ [.close excluded true])).epochs.length = k + 1 := by
      intro hk
      obtain ⟨earlier, excluded, later, rfl, hs, hlen⟩ := ih hk
      exact ⟨earlier, excluded, later ++ [c], by simp, hs, hlen⟩
    rw [run_snoc] at h
    rcases epochs_call carry (run (call carry) empty calls) c with he | ⟨excluded, rfl, -, he⟩
    · rw [he] at h
      exact hold h
    · rw [he] at h
      rcases lt_trichotomy k (run (call carry) empty calls).epochs.length with hk | hk | hk
      · rw [List.getElem?_append_left hk] at h
        exact hold h
      · rw [hk, List.getElem?_concat_length] at h
        refine ⟨calls, excluded, [], rfl, (Option.some.inj h).symm, hk.symm, ?_⟩
        rw [run_snoc, he, List.length_append, List.length_singleton, hk]
      · rw [List.getElem?_eq_none (by simp; omega)] at h
        cases h

end Registry

end FogNode.Library
