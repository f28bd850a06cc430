import FogNode.Source.Validation

namespace FogNode.Proofs

open FogNode.Library FogNode.Source

variable {name : String} {body : MetadataRequest} {zone : String} {allowedTypes : List String}

/-- The name is 2 to 32 characters of `a` to `z`, `0` to `9` and underscore. -/
def IsName (name : String) : Prop :=
  (∀ c ∈ name.toList, isNameChar c = true) ∧ 2 ≤ name.toList.length ∧ name.toList.length ≤ 32

instance (name : String) : Decidable (IsName name) :=
  @instDecidableAnd _ _ (List.decidableBAll _ _) inferInstance

/-- The text is a name and one line break after it. -/
def NameAndBreak (name : String) : Prop := ∃ base, IsName base ∧ name = base ++ "\n"

theorem break_not_nameChar : isNameChar '\n' = false := by decide

theorem NameAndBreak.not_name (h : NameAndBreak name) : ¬ IsName name := by
  obtain ⟨base, -, rfl⟩ := h
  intro hname
  have hbreak := hname.1 '\n' (by simp)
  rw [break_not_nameChar] at hbreak
  cases hbreak

theorem name_pattern_iff :
    NAME_PATTERN.MatchesText name.toList ↔ IsName name ∨ NameAndBreak name := by
  rw [NAME_PATTERN, Pattern.matchesText_class]
  constructor
  · rintro ⟨body, hall, hleast, hmost, htext⟩
    have hname : IsName (String.ofList body) := by
      rw [IsName, String.toList_ofList]
      exact ⟨hall, hleast, hmost⟩
    rcases htext with rfl | htext
    · rw [String.ofList_toList] at hname
      exact .inl hname
    · refine .inr ⟨_, hname, String.toList_inj.mp ?_⟩
      rw [htext, String.toList_append, String.toList_ofList]
      rfl
  · rintro (⟨hall, hleast, hmost⟩ | ⟨base, ⟨hall, hleast, hmost⟩, rfl⟩)
    · exact ⟨_, hall, hleast, hmost, .inl rfl⟩
    · exact ⟨_, hall, hleast, hmost, .inr (String.toList_append ..)⟩

/-- The check of the name is the match of its pattern. -/
theorem nameMatches_iff : nameMatches name = true ↔ NAME_PATTERN.MatchesText name.toList := by
  rw [NAME_PATTERN, Pattern.matchesText_class, nameMatches]
  generalize name.toList = text
  by_cases hlast : text.getLast? = some '\n'
  · have htext : text = text.dropLast ++ ['\n'] :=
      (List.dropLast_append_getLast? '\n' hlast).symm
    simp only [hlast, if_true, Bool.and_eq_true, List.all_eq_true, decide_eq_true_eq, and_assoc]
    constructor
    · rintro ⟨hall, hleast, hmost⟩
      exact ⟨text.dropLast, hall, hleast, hmost, .inr htext⟩
    · rintro ⟨body, hall, hleast, hmost, rfl | rfl⟩
      · have hbreak := hall '\n' (List.mem_of_getLast? hlast)
        rw [break_not_nameChar] at hbreak
        cases hbreak
      · rw [List.dropLast_concat]
        exact ⟨hall, hleast, hmost⟩
  · simp only [hlast, if_false, Bool.and_eq_true, List.all_eq_true, decide_eq_true_eq, and_assoc]
    constructor
    · rintro ⟨hall, hleast, hmost⟩
      exact ⟨text, hall, hleast, hmost, .inl rfl⟩
    · rintro ⟨body, hall, hleast, hmost, rfl | rfl⟩
      · exact ⟨hall, hleast, hmost⟩
      · exact absurd List.getLast?_concat hlast

/-- The metadata satisfy all five conditions. -/
structure InGrammar (body : MetadataRequest) (zone : String) (allowedTypes : List String) :
    Prop where
  name : IsName body.deviceName
  deviceType : body.deviceType ∈ allowedTypes
  zone_eq : body.zone = zone
  role : body.role ∈ ALLOWED_ROLES
  vendor : body.vendor ∈ ALLOWED_VENDORS

/-- Which of the five conditions hold, given whether that of the name does. -/
def conditions (nameHolds : Bool) (body : MetadataRequest) (zone : String)
    (allowedTypes : List String) : List Bool :=
  [nameHolds, decide (body.deviceType ∈ allowedTypes), decide (body.zone = zone),
    decide (body.role ∈ ALLOWED_ROLES), decide (body.vendor ∈ ALLOWED_VENDORS)]

theorem inGrammar_iff : InGrammar body zone allowedTypes ↔
    (conditions (decide (IsName body.deviceName)) body zone allowedTypes).count false = 0 := by
  rw [List.count_eq_zero]
  constructor
  · rintro ⟨hname, htype, hzone, hrole, hvendor⟩
    simp [conditions, hname, htype, hzone, hrole, hvendor]
  · intro h
    simp only [conditions, List.mem_cons, List.not_mem_nil, or_false, not_or,
      false_eq_decide_iff, not_not] at h
    exact ⟨h.1, h.2.1, h.2.2.1, h.2.2.2.1, h.2.2.2.2⟩

theorem length_entry (p : Prop) [Decidable p] (message : String) :
    (if p then [] else [message]).length = [decide p].count false := by
  by_cases h : p <;> simp [h]

/-- The list has an entry for each condition that fails, when the name is as its check says. -/
theorem validateMetadata_length (body : MetadataRequest) (zone : String)
    (allowedTypes : List String) : (validateMetadata body zone allowedTypes).length =
      (conditions (nameMatches body.deviceName) body zone allowedTypes).count false := by
  have hsplit : ∀ a b c d e : Bool, [a, b, c, d, e].count false =
      [a].count false + [b].count false + [c].count false + [d].count false + [e].count false := by
    decide
  unfold validateMetadata conditions
  simp only [List.length_append, length_entry, hsplit, Bool.decide_eq_true, List.contains_eq_mem]

/-- The list is empty for what is in the grammar only, and counts the conditions that fail. -/
def Exact (body : MetadataRequest) (zone : String) (allowedTypes : List String) : Prop :=
  (validateMetadata body zone allowedTypes = [] ↔ InGrammar body zone allowedTypes) ∧
    (validateMetadata body zone allowedTypes).length =
      (conditions (decide (IsName body.deviceName)) body zone allowedTypes).count false

/-- Validation accepts its grammar and reports each violation, unless the name has one line
break after it. -/
theorem validation_exact_iff (body : MetadataRequest) (zone : String)
    (allowedTypes : List String) :
    Exact body zone allowedTypes ↔ ¬ NameAndBreak body.deviceName := by
  have hlength := validateMetadata_length body zone allowedTypes
  constructor
  · rintro ⟨-, hexact⟩ hbreak
    have hmatch : nameMatches body.deviceName = true :=
      nameMatches_iff.mpr (name_pattern_iff.mpr (.inr hbreak))
    have hone : (conditions false body zone allowedTypes).count false =
        (conditions true body zone allowedTypes).count false + 1 := by
      have htrue : true ≠ false := by decide
      simp only [conditions, List.count_cons_self, List.count_cons_of_ne htrue]
    rw [hlength, hmatch, decide_eq_false hbreak.not_name] at hexact
    omega
  · intro hbreak
    have hname : nameMatches body.deviceName = decide (IsName body.deviceName) := by
      rw [Bool.eq_iff_iff, nameMatches_iff, name_pattern_iff, decide_eq_true_iff]
      exact or_iff_left hbreak
    rw [hname] at hlength
    refine ⟨?_, hlength⟩
    rw [← List.length_eq_zero_iff, hlength, inGrammar_iff]

/-- The name is followed by a line break. -/
theorem line_break_accepted :
    ¬ Exact ⟨"00", "probe_1\n", "plc", "zone_a", "Acme", "sensor"⟩ "zone_a" ["plc"] := by
  rintro ⟨haccepts, -⟩
  have hname := (haccepts.mp (by decide)).name
  revert hname
  decide

end FogNode.Proofs
