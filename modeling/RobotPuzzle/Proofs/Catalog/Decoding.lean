import RobotPuzzle.Catalog.Reading
import RobotPuzzle.Proofs.Json.Shape

/-!
# Decoding values of the right shape

The schema and the decoder describe the same format twice. They differ in numbers only: the schema counts a
float without fraction as an integer and knows no upper bounds, the decoder wants integers of 32 bits.
A value of the right shape thus makes a list of demands, one for each of its numbers in the order in which
they are read, and decoding succeeds if they are met and names the first that is not.

## Main definitions

- `Demand` — a value that has to be an integer of a range
- `Answers` — a decoder answers to a list of demands
- `Catalog.demands` — what a catalog value demands, in order
- `Agrees` — a schema and a decoder differ by demands only

## Main statements

- `Answers.bind`, `Answers.mapM` — decoders one after another answer to their demands in order
- `Agrees.required_field`, `Agrees.optional_field` — from the fields of an object to the object
- `Catalog.agrees_level` — a level of the right shape fails for its numbers only
- `Catalog.levelsOfJson_answers_demands` — and so does a catalog
-/

namespace RobotPuzzle

/-! ## Demands -/

/-- The integer is in the range. -/
def IntRange.Holds (range : IntRange) (i : Int) : Prop := range.low ≤ i ∧ i ≤ range.high

instance (range : IntRange) (i : Int) : Decidable (range.Holds i) :=
  inferInstanceAs (Decidable (_ ∧ _))

/-- A value that has to be an integer of a range. -/
structure Demand where
  value : Json
  range : IntRange

namespace Demand

/-- The value is an integer, written as one, and in the range. -/
def Met (d : Demand) : Prop := ∃ i, d.value = .int i ∧ d.range.Holds i

/-- The value is a float, or an integer that is not in the range, and the error tells which. -/
inductive MissedBy (d : Demand) : DecodeError → Prop
  | float (x : Binary64) (hvalue : d.value = .number (.real x)) : MissedBy d (.notInteger x d.range)
  | outside (i : Int) (hvalue : d.value = .int i) (hrange : ¬ d.range.Holds i) :
    MissedBy d (.outOfRange i d.range)

theorem MissedBy.not_met {d : Demand} {e : DecodeError} (h : d.MissedBy e) : ¬ d.Met := by
  rintro ⟨j, hj, hrange⟩
  cases h with
  | float x hvalue => exact absurd (hvalue.symm.trans hj) (by simp [Json.int])
  | outside i hvalue hout =>
    have hij : Json.int i = Json.int j := hvalue.symm.trans hj
    simp only [Json.int, Json.number.injEq, Json.Number.integer.injEq] at hij
    exact hout (hij ▸ hrange)

end Demand

/-- A decoder answers to demands: it succeeds if they are met, and otherwise fails for the first that is
not. -/
inductive Answers {α : Type} : Except DecodeError α → List Demand → Prop
  | met (a : α) {ds : List Demand} (hmet : ∀ d ∈ ds, d.Met) : Answers (.ok a) ds
  | missed (before : List Demand) {d : Demand} (after : List Demand) {e : DecodeError}
    (hmet : ∀ b ∈ before, b.Met) (hmissed : d.MissedBy e) : Answers (.error e) (before ++ d :: after)

namespace Answers

variable {α β : Type} {x : Except DecodeError α} {ds es : List Demand}

theorem nil (a : α) : Answers (.ok a) [] := .met a (by simp)

/-- One decoder after another. -/
theorem bind {f : α → Except DecodeError β} (hx : Answers x ds) (hf : ∀ a, Answers (f a) es) :
    Answers (x >>= f) (ds ++ es) := by
  cases hx with
  | met a hmet =>
    show Answers (f a) (ds ++ es)
    generalize f a = y, hf a = hy
    cases hy with
    | met b hrest =>
      refine .met b fun d hd => ?_
      rcases List.mem_append.1 hd with hd | hd
      · exact hmet d hd
      · exact hrest d hd
    | missed before after hbefore hmissed =>
      rw [← List.append_assoc]
      refine .missed (ds ++ before) after (fun d hd => ?_) hmissed
      rcases List.mem_append.1 hd with hd | hd
      · exact hmet d hd
      · exact hbefore d hd
  | missed before after hmet hmissed =>
    rw [List.append_assoc, List.cons_append]
    exact .missed before (after ++ es) hmet hmissed

/-- Each item of a list in turn. -/
theorem mapM {decode : Json → Except DecodeError α} {demands : Json → List Demand} {items : List Json}
    (hitems : ∀ item ∈ items, Answers (decode item) (demands item)) :
    Answers (items.mapM decode) (items.flatMap demands) := by
  induction items with
  | nil => exact .nil []
  | cons item rest ih =>
    obtain ⟨hitem, hrest⟩ := List.forall_mem_cons.1 hitems
    rw [List.mapM_cons, List.flatMap_cons]
    refine hitem.bind fun a => ?_
    rw [← List.append_nil (rest.flatMap demands)]
    exact (ih hrest).bind fun as => .nil (a :: as)

theorem exists_ok_iff (h : Answers x ds) : (∃ a, x = .ok a) ↔ ∀ d ∈ ds, d.Met := by
  cases h with
  | met a hmet => exact ⟨fun _ => hmet, fun _ => ⟨a, rfl⟩⟩
  | missed before after hmet hmissed =>
    constructor
    · rintro ⟨a, ha⟩
      cases ha
    · intro hall
      exact absurd (hall _ (List.mem_append_right before List.mem_cons_self)) hmissed.not_met

theorem exists_of_error {e : DecodeError} (h : Answers (.error e : Except DecodeError α) ds) :
    ∃ before d after, ds = before ++ d :: after ∧ (∀ b ∈ before, b.Met) ∧ d.MissedBy e := by
  cases h with
  | missed before after hmet hmissed => exact ⟨before, _, after, rfl, hmet, hmissed⟩

end Answers

/-! ## The numbers of a value -/

namespace Demand

/-- A value that is to be one number. -/
def ofNumber (range : IntRange) (value : Json) : List Demand := [⟨value, range⟩]

/-- The demands of the items, if the value is an array. -/
def ofItems (demands : Json → List Demand) : Json → List Demand
  | .array items => items.flatMap demands
  | _ => []

/-- The demands of the field of a name, if there is one. -/
def ofField (name : String) (demands : Json → List Demand) (value : Json) : List Demand :=
  (value.field? name).elim [] demands

theorem ofItems_nil : ofItems (fun _ => []) = fun _ => [] := by
  funext value
  cases value <;> simp [ofItems]

theorem ofField_nil (name : String) (value : Json) : ofField name (fun _ => []) value = [] := by
  cases h : value.field? name <;> simp [ofField, h]

end Demand

namespace Catalog

open Demand (ofField ofItems ofNumber)

/-- A cell has two numbers. -/
def cellDemands (value : Json) : List Demand :=
  ofField "x" (ofNumber .signed32) value ++ ofField "y" (ofNumber .signed32) value

/-- The numbers of a level in the order of the names of its fields, those of its cells among them. -/
def levelDemands (value : Json) : List Demand :=
  ofField "gridSize" (ofNumber .signed32) value
    ++ ofField "id" (ofNumber .unsigned32) value
    ++ ofField "obstacles" (ofItems cellDemands) value
    ++ ofField "optimalMoves" (ofNumber .unsigned32) value
    ++ ofField "start" cellDemands value
    ++ ofField "target" cellDemands value

/-- The numbers of all levels. -/
def demands (value : Json) : List Demand :=
  ofField "levels" (ofItems levelDemands) value

end Catalog

/-! ## Schemas and decoders -/

/-- On values of the shape the decoder answers to the demands. -/
def Agrees {α : Type} (schema : Schema) (decode : Json → Except DecodeError α)
    (demands : Json → List Demand) : Prop :=
  ∀ value, value.Distinct → schema.Fits value → Answers (decode value) (demands value)

namespace Agrees

variable {α : Type} {schema : Schema} {decode : Json → Except DecodeError α}
  {demands : Json → List Demand} {fields : List (String × Json)}
  {properties : List (String × Schema)} {required : List String}

/-- A number that the schema takes for an integer is one, or it is a float. -/
theorem int (minimum : Option Nat) (range : IntRange) :
    Agrees (.integer minimum) (Decode.int range) (Demand.ofNumber range) := by
  intro value _ hfits
  obtain ⟨n, rfl, hint, -⟩ := Schema.fits_integer_iff.1 hfits
  cases n with
  | integer i =>
    rw [Decode.int]
    split
    · rename_i hrange
      exact .met i (List.forall_mem_singleton.2 ⟨i, rfl, by simpa [IntRange.Holds] using hrange⟩)
    · rename_i hrange
      exact .missed [] [] (by simp) (.outside i rfl (by simpa [IntRange.Holds] using hrange))
  | real x => exact .missed [] [] (by simp) (.float x rfl)
  | beyond => simp [Schema.isInteger] at hint

theorem string (minLength : Nat) : Agrees (.text minLength) Decode.string fun _ => [] := by
  intro value _ hfits
  obtain ⟨s, rfl, -⟩ := Schema.fits_text_iff.1 hfits
  exact .nil s

/-- Every name the schema offers is known. -/
theorem name {options : List String} {ofName? : String → Option α}
    (hknown : ∀ s ∈ options, (ofName? s).isSome) :
    Agrees (.choice options) (Decode.name ofName?) fun _ => [] := by
  intro value _ hfits
  obtain ⟨s, hs, rfl⟩ := Schema.fits_choice_iff.1 hfits
  obtain ⟨a, ha⟩ := Option.isSome_iff_exists.1 (hknown s hs)
  rw [Decode.name, ha]
  exact .nil a

theorem list (minItems : Nat) (h : Agrees schema decode demands) :
    Agrees (.list schema minItems) (Decode.list decode) (Demand.ofItems demands) := by
  intro value hdistinct hfits
  obtain ⟨items, rfl, hitems, -⟩ := Schema.fits_list_iff.1 hfits
  exact .mapM fun item hitem => h item (hdistinct.of_mem_items hitem) (hitems item hitem)

/-- A field that is there in every object of the shape. -/
theorem required_field (key : String) (h : Agrees schema decode demands)
    (hdistinct : (Json.object fields).Distinct)
    (hfits : (Schema.record properties required).Fits (.object fields))
    (hproperty : (key, schema) ∈ properties) (hrequired : key ∈ required) :
    Answers (Decode.required key decode fields) (Demand.ofField key demands (.object fields)) := by
  obtain ⟨hproperties, -, hthere⟩ := Schema.fits_object_iff.1 hfits
  obtain ⟨v, hv⟩ := Option.isSome_iff_exists.1 (hthere key hrequired)
  rw [Decode.required_eq hdistinct.names_nodup hv, Demand.ofField, Json.field?, hv]
  exact h v (hdistinct.of_lookup? hv) (hproperties _ hproperty v hv)

/-- A field that may be left out. -/
theorem optional_field (key : String) (default : α) (h : Agrees schema decode demands)
    (hdistinct : (Json.object fields).Distinct)
    (hfits : (Schema.record properties required).Fits (.object fields))
    (hproperty : (key, schema) ∈ properties) :
    Answers (Decode.optional key default decode fields) (Demand.ofField key demands (.object fields)) := by
  obtain ⟨hproperties, -⟩ := Schema.fits_object_iff.1 hfits
  rw [Decode.optional_eq hdistinct.names_nodup, Demand.ofField, Json.field?]
  cases hv : Json.lookup? key fields with
  | none => exact .nil default
  | some v => exact h v (hdistinct.of_lookup? hv) (hproperties _ hproperty v hv)

end Agrees

namespace Catalog

theorem agrees_cell : Agrees cellSchema Decode.cell cellDemands := by
  intro value hdistinct hfits
  obtain ⟨fields, rfl⟩ := Schema.exists_object_of_fits hfits
  have hx := (Agrees.int none .signed32).required_field "x" hdistinct hfits (by simp) (by simp)
  have hy := (Agrees.int none .signed32).required_field "y" hdistinct hfits (by simp) (by simp)
  have hcell := hx.bind fun x => hy.bind fun y => .nil (Cell.mk x y)
  rwa [List.append_nil] at hcell

theorem isSome_kind_of_mem : ∀ s ∈ Kind.all.map Kind.name, (Kind.ofName? s).isSome := by
  decide

theorem isSome_direction_of_mem :
    ∀ s ∈ ["UP", "DOWN", "LEFT", "RIGHT"], (Direction.ofName? s).isSome := by
  decide

/-- A level of the right shape fails for its numbers only. -/
theorem agrees_level : Agrees levelSchema Level.ofJson levelDemands := by
  intro value hdistinct hfits
  obtain ⟨fields, rfl⟩ := Schema.exists_object_of_fits hfits
  -- one answer for each field, in the order in which they are read
  have hcommands := ((Agrees.name isSome_kind_of_mem).list 1).required_field "commands" hdistinct hfits
    (by simp) (by simp)
  have hdirection := (Agrees.name isSome_direction_of_mem).required_field "direction" hdistinct hfits
    (by simp) (by simp)
  have hsize := (Agrees.int (some 1) .signed32).required_field "gridSize" hdistinct hfits
    (by simp) (by simp)
  have hhint := (Agrees.string 0).optional_field "hint" "" hdistinct hfits (by simp)
  have hid := (Agrees.int (some 0) .unsigned32).required_field "id" hdistinct hfits (by simp) (by simp)
  have hname := (Agrees.string 1).required_field "name" hdistinct hfits (by simp) (by simp)
  have hobstacles := (agrees_cell.list 0).optional_field "obstacles" [] hdistinct hfits (by simp)
  have hoptimal := (Agrees.int (some 0) .unsigned32).required_field "optimalMoves" hdistinct hfits
    (by simp) (by simp)
  have hstart := agrees_cell.required_field "start" hdistinct hfits (by simp) (by simp)
  have htarget := agrees_cell.required_field "target" hdistinct hfits (by simp) (by simp)
  have hlevel := hcommands.bind fun palette => hdirection.bind fun facing => hsize.bind fun size =>
    hhint.bind fun hint => hid.bind fun id => hname.bind fun name => hobstacles.bind fun obstacles =>
    hoptimal.bind fun optimal => hstart.bind fun start => htarget.bind fun target =>
    .nil (Level.mk id.toNat name size start target facing (.ofList obstacles) palette optimal.toNat hint)
  simp only [Demand.ofItems_nil, Demand.ofField_nil, List.nil_append, List.append_nil,
    ← List.append_assoc] at hlevel
  exact hlevel

theorem agrees_levels : Agrees schema levelsOfJson demands := by
  intro value hdistinct hfits
  obtain ⟨fields, rfl⟩ := Schema.exists_object_of_fits hfits
  exact (agrees_level.list 0).required_field "levels" hdistinct hfits (by simp) (by simp)

/-- If no object of a value has a name twice and nothing is wrong with its shape, then levels are made of it
exactly if each of its numbers is an integer in its range, and an error is about the first that is not,
in the order of the levels and of the names of their fields. -/
theorem levelsOfJson_answers_demands {value : Json} (hdistinct : value.Distinct)
    (hshape : schema.violations value = []) :
    ((∃ levels, levelsOfJson value = .ok levels) ↔ ∀ d ∈ demands value, d.Met) ∧
      ∀ e, levelsOfJson value = .error e →
        ∃ before d after, demands value = before ++ d :: after ∧ (∀ b ∈ before, b.Met) ∧
          d.MissedBy e := by
  have hanswers := agrees_levels value hdistinct hshape
  refine ⟨hanswers.exists_ok_iff, fun e he => ?_⟩
  rw [he] at hanswers
  exact hanswers.exists_of_error

/-- Two levels without obstacles and hint. In the second, the optimum is a float and is written before an
id that is too large. -/
def oversized : Json :=
  let cell (x y : Int) := Json.object [("x", .int x), ("y", .int y)]
  let level (optimal : Json.Number) (id : Int) := Json.object
    [("optimalMoves", .number optimal), ("id", .int id), ("name", .string "far"), ("gridSize", .int 2),
     ("start", cell 0 1), ("target", cell 0 0), ("direction", .string "UP"),
     ("commands", .array [.string "forward"])]
  .object [("levels", .array
    [level (.integer 1) 1, level (.real ⟨false, 6755399441055744, -51⟩) 4294967296])]

/-- Between the two, the id is the one that is reported. -/
theorem levelsOfJson_answers_demands_oversized :
    schema.violations oversized.canonical = [] ∧
      levelsOfJson oversized.canonical = .error (.outOfRange 4294967296 .unsigned32) ∧
      ∃ before d after, demands oversized.canonical = before ++ d :: after ∧
        (∀ b ∈ before, b.Met) ∧ d.MissedBy (.outOfRange 4294967296 .unsigned32) := by
  have hshape : schema.violations oversized.canonical = [] := by decide
  have herror : levelsOfJson oversized.canonical = .error (.outOfRange 4294967296 .unsigned32) := by
    rfl
  exact ⟨hshape, herror,
    (levelsOfJson_answers_demands (Json.distinct_canonical oversized) hshape).2 _ herror⟩

end Catalog

end RobotPuzzle
