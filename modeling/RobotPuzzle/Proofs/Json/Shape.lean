import RobotPuzzle.Json.Schema
import RobotPuzzle.Proofs.Json.Canonical

/-!
# Values of a shape

What a value looks like that falls short of a schema in no way, one equivalence for each kind of schema.

## Main definitions

- `Schema.Fits` — nothing is wrong with the value

## Main statements

- `Schema.fits_integer_iff`, `Schema.fits_text_iff`, `Schema.fits_choice_iff`, `Schema.fits_list_iff`,
  `Schema.fits_object_iff` — the values that fit
- `Schema.fits_canonical_record_iff` — the objects whose canonical form fits a record
-/

namespace RobotPuzzle

namespace Schema

variable {value : Json}

/-- Nothing is wrong with the value. -/
def Fits (s : Schema) (value : Json) : Prop := s.violations value = []

theorem fits_iff {s : Schema} : s.Fits value ↔ s.violations value = [] := Iff.rfl

theorem violations_integer (minimum : Option Nat) :
    (integer minimum).violations value = integerViolations minimum value := rfl

theorem violations_text (minLength : Nat) :
    (text minLength).violations value = textViolations minLength value := rfl

theorem violations_choice (options : List String) :
    (choice options).violations value = choiceViolations options value := rfl

theorem violations_list (items : Schema) (minItems : Nat) (values : List Json) :
    (list items minItems).violations (.array values) =
      values.flatMap (items.violations ·)
        ++ (if values.length < minItems then [.tooFew (.array values) minItems] else []) := rfl

theorem violations_record (properties : List (String × Schema)) (required : List String)
    (fields : List (String × Json)) :
    (record properties required).violations (.object fields) =
      propertyViolations properties fields ++ unexpectedViolations (properties.map (·.1)) fields
        ++ missingViolations required fields := rfl

theorem fits_integer_iff {minimum : Option Nat} :
    (integer minimum).Fits value ↔
      ∃ n, value = .number n ∧ isInteger n = true ∧ ∀ m, minimum = some m → isBelow m n = false := by
  rw [fits_iff, violations_integer]
  cases value with
  | number n =>
    cases hint : isInteger n <;> cases minimum <;> simp [integerViolations, hint]
  | null | boolean | string | unpaired | array | object => simp [integerViolations]

theorem fits_text_iff {minLength : Nat} :
    (text minLength).Fits value ↔ ∃ s, value = .string s ∧ minLength ≤ s.length := by
  rw [fits_iff, violations_text]
  cases value with
  | string s => simp [textViolations]
  | null | boolean | number | unpaired | array | object => simp [textViolations]

theorem fits_choice_iff {options : List String} :
    (choice options).Fits value ↔ ∃ s ∈ options, value = .string s := by
  rw [fits_iff, violations_choice]
  cases value with
  | string s => simp [choiceViolations]
  | null | boolean | number | unpaired | array | object => simp [choiceViolations]

theorem fits_list_iff {items : Schema} {minItems : Nat} :
    (list items minItems).Fits value ↔
      ∃ values, value = .array values ∧ (∀ v ∈ values, items.Fits v) ∧ minItems ≤ values.length := by
  cases value with
  | array values => simp [fits_iff, violations_list]
  | null | boolean | number | string | unpaired | object =>
    exact iff_of_false (List.cons_ne_nil _ _) (by simp)

theorem propertyViolations_eq_nil_iff {properties : List (String × Schema)}
    {fields : List (String × Json)} :
    propertyViolations properties fields = [] ↔
      ∀ p ∈ properties, ∀ v, Json.lookup? p.1 fields = some v → p.2.Fits v := by
  induction properties with
  | nil => simp [propertyViolations]
  | cons p rest ih =>
    obtain ⟨name, schema⟩ := p
    rw [propertyViolations, List.append_eq_nil_iff, ih, List.forall_mem_cons]
    cases Json.lookup? name fields <;> simp [fits_iff]

theorem unexpectedViolations_eq_nil_iff {names : List String} {fields : List (String × Json)} :
    unexpectedViolations names fields = [] ↔ ∀ name, (Json.lookup? name fields).isSome → name ∈ names := by
  have hnames : unexpectedNames names fields = [] ↔
      ∀ name, (Json.lookup? name fields).isSome → name ∈ names := by
    simp only [unexpectedNames, List.filter_eq_nil_iff, decide_eq_true_eq,
      Decidable.not_not, Json.isSome_lookup?_iff]
  rw [← hnames, unexpectedViolations]
  split
  · simp_all
  · simp_all

theorem missingViolations_eq_nil_iff {required : List String} {fields : List (String × Json)} :
    missingViolations required fields = [] ↔
      ∀ name ∈ required, (Json.lookup? name fields).isSome := by
  simp [missingViolations, Option.isSome_iff_ne_none]

theorem exists_object_of_fits {properties : List (String × Schema)} {required : List String}
    (h : (record properties required).Fits value) : ∃ fields, value = .object fields := by
  cases value with
  | object fields => exact ⟨fields, rfl⟩
  | null | boolean | number | string | unpaired | array => exact absurd h (List.cons_ne_nil _ _)

/-- An object fits a record if its fields do and are among the properties, and none is missing that is
required. -/
theorem fits_object_iff {properties : List (String × Schema)} {required : List String}
    {fields : List (String × Json)} :
    (record properties required).Fits (.object fields) ↔
      (∀ p ∈ properties, ∀ v, Json.lookup? p.1 fields = some v → p.2.Fits v) ∧
        (∀ name, (Json.lookup? name fields).isSome → name ∈ properties.map (·.1)) ∧
        ∀ name ∈ required, (Json.lookup? name fields).isSome := by
  rw [fits_iff, violations_record, List.append_eq_nil_iff, List.append_eq_nil_iff,
    propertyViolations_eq_nil_iff, unexpectedViolations_eq_nil_iff, missingViolations_eq_nil_iff,
    and_assoc]

/-- Only the last field of each name is looked at when an object is brought into canonical form. -/
theorem fits_canonical_record_iff {properties : List (String × Schema)} {required : List String}
    {fields : List (String × Json)} :
    (record properties required).Fits (Json.object fields).canonical ↔
      (∀ p ∈ properties, ∀ v, Json.lookup? p.1 fields = some v → p.2.Fits v.canonical) ∧
        (∀ name ∈ fields.map (·.1), name ∈ properties.map (·.1)) ∧
        ∀ name ∈ required, name ∈ fields.map (·.1) := by
  rw [Json.canonical, fits_object_iff]
  simp [Json.lookup?_canonicalFields, Json.isSome_lookup?_iff]

end Schema

end RobotPuzzle
