import RobotPuzzle.Catalog.LevelFormat

/-!
# Values in canonical form

An object may be written with its fields in any order and with a name given twice. In canonical form the
names are in order and none is given twice, so that looking a name up, counting it, and listing the names
tell the same of an object; and what is found under a name is what was written last, in canonical form.

## Main definitions

- `Json.Distinct` — no object of the value has a name twice

## Main statements

- `Json.distinct_canonical` — canonical forms have every name once
- `Json.lookup?_canonicalFields` — looking up in a canonical form
- `Decode.field?_eq_ok` — a field that is read is the one that is looked up
-/

namespace RobotPuzzle

namespace Json

variable {name other : String} {value : Json} {fields : List (String × Json)}

/-! ## Looking up -/

theorem lookup?_nil (name : String) : lookup? name [] = none := rfl

/-- The last field of a name counts. -/
theorem lookup?_cons (name other : String) (value : Json) (fields : List (String × Json)) :
    lookup? name ((other, value) :: fields) =
      (lookup? name fields).or (if other = name then some value else none) := by
  rw [lookup?, List.reverse_cons, List.find?_append, Option.map_or, lookup?]
  by_cases h : other = name
  · simp [h]
  · simp [h]

theorem isSome_lookup?_iff : (lookup? name fields).isSome ↔ name ∈ fields.map (·.1) := by
  induction fields with
  | nil => simp [lookup?_nil]
  | cons field rest ih =>
    obtain ⟨other, value⟩ := field
    rw [lookup?_cons, Option.isSome_or, Bool.or_eq_true, ih]
    by_cases h : other = name
    · simp [h]
    · simp [h, Ne.symm h]

theorem mem_of_lookup? (h : lookup? name fields = some value) : (name, value) ∈ fields := by
  obtain ⟨⟨other, found⟩, hfind, hvalue⟩ := Option.map_eq_some_iff.1 h
  obtain rfl : other = name := by simpa using List.find?_some hfind
  obtain rfl : found = value := hvalue
  exact List.mem_reverse.1 (List.mem_of_find?_eq_some hfind)

/-- The field that is looked up is the last of those with its name. -/
theorem lookup?_eq_getLast? (name : String) (fields : List (String × Json)) :
    lookup? name fields = ((fields.filter (·.1 == name)).getLast?).map (·.2) := by
  rw [lookup?, ← List.head?_filter, List.filter_reverse, List.head?_reverse]

/-! ## Names that are given once -/

/-- No object of the value has a name twice. -/
inductive Distinct : Json → Prop
  | null : Distinct null
  | boolean (b : Bool) : Distinct (boolean b)
  | number (n : Number) : Distinct (number n)
  | string (s : String) : Distinct (string s)
  | unpaired : Distinct unpaired
  | array {items : List Json} (hitems : ∀ item ∈ items, Distinct item) : Distinct (array items)
  | object {fields : List (String × Json)} (hnames : (fields.map (·.1)).Nodup)
    (hvalues : ∀ field ∈ fields, Distinct field.2) : Distinct (object fields)

namespace Distinct

theorem of_mem_items {item : Json} {items : List Json} (h : (Json.array items).Distinct)
    (hitem : item ∈ items) : item.Distinct := by
  cases h with
  | array hitems => exact hitems item hitem

theorem names_nodup (h : (Json.object fields).Distinct) : (fields.map (·.1)).Nodup := by
  cases h with
  | object hnames => exact hnames

theorem of_lookup? (h : (Json.object fields).Distinct) (hvalue : lookup? name fields = some value) :
    value.Distinct := by
  cases h with
  | object _ hvalues => exact hvalues _ (mem_of_lookup? hvalue)

end Distinct

/-! ## Canonical forms -/

theorem canonicalItems_eq_map (items : List Json) : canonicalItems items = items.map canonical := by
  induction items with
  | nil => rfl
  | cons item rest ih => rw [canonicalItems, ih, List.map_cons]

theorem mem_insertField {field : String × Json} (h : field ∈ insertField name value fields) :
    field = (name, value) ∨ field ∈ fields := by
  induction fields with
  | nil => exact Or.inl (List.mem_singleton.1 h)
  | cons first rest ih =>
    obtain ⟨other, v⟩ := first
    unfold insertField at h
    split at h
    · exact Or.inr h
    · split at h
      · exact List.mem_cons.1 h
      · rcases List.mem_cons.1 h with hfirst | hrest
        · exact Or.inr (List.mem_cons.2 (Or.inl hfirst))
        · exact (ih hrest).imp_right (List.mem_cons_of_mem _)

/-- A field is put in its place. -/
theorem pairwise_insertField (h : fields.Pairwise (·.1 < ·.1)) :
    (insertField name value fields).Pairwise (·.1 < ·.1) := by
  induction fields with
  | nil => exact List.pairwise_singleton _ _
  | cons first rest ih =>
    obtain ⟨other, v⟩ := first
    have ⟨hfirst, hrest⟩ := List.pairwise_cons.1 h
    unfold insertField
    split
    · exact h
    · rename_i hne
      split
      · rename_i hlt
        refine List.pairwise_cons.2 ⟨?_, h⟩
        intro field hfield
        rcases List.mem_cons.1 hfield with rfl | hfield
        · exact hlt
        · exact String.lt_trans hlt (hfirst field hfield)
      · rename_i hnlt
        refine List.pairwise_cons.2 ⟨?_, ih hrest⟩
        intro field hfield
        rcases mem_insertField hfield with rfl | hfield
        · exact Std.lt_of_le_of_ne (String.not_lt.1 hnlt) (Ne.symm hne)
        · exact hfirst field hfield

theorem pairwise_canonicalFields (fields : List (String × Json)) :
    (canonicalFields fields).Pairwise (·.1 < ·.1) := by
  induction fields with
  | nil => exact List.Pairwise.nil
  | cons field rest ih => exact pairwise_insertField ih

/-- Names in order are different. -/
theorem nodup_names_canonicalFields (fields : List (String × Json)) :
    ((canonicalFields fields).map (·.1)).Nodup := by
  rw [List.Nodup, List.pairwise_map]
  refine (pairwise_canonicalFields fields).imp ?_
  intro a b hlt heq
  exact String.lt_irrefl _ (heq ▸ hlt)

mutual

/-- Canonical forms have every name once. -/
theorem distinct_canonical : ∀ value : Json, value.canonical.Distinct
  | null => .null
  | boolean b => .boolean b
  | number n => .number n
  | string s => .string s
  | unpaired => .unpaired
  | array items => .array (distinct_canonicalItems items)
  | object fields => .object (nodup_names_canonicalFields fields) (distinct_canonicalFields fields)

theorem distinct_canonicalItems : ∀ items : List Json, ∀ item ∈ canonicalItems items, item.Distinct
  | [], _, hitem => absurd hitem List.not_mem_nil
  | first :: rest, item, hitem => by
    rcases List.mem_cons.1 hitem with rfl | hrest
    · exact distinct_canonical first
    · exact distinct_canonicalItems rest item hrest

theorem distinct_canonicalFields :
    ∀ fields : List (String × Json), ∀ field ∈ canonicalFields fields, field.2.Distinct
  | [], _, hfield => absurd hfield List.not_mem_nil
  | (_, value) :: rest, field, hfield => by
    rcases mem_insertField hfield with rfl | hrest
    · exact distinct_canonical value
    · exact distinct_canonicalFields rest field hrest

end

/-- A field that is put in its place is found, unless there was one of its name. -/
theorem lookup?_insertField (name other : String) (value : Json) (fields : List (String × Json)) :
    lookup? name (insertField other value fields) =
      (lookup? name fields).or (if other = name then some value else none) := by
  induction fields with
  | nil => rw [insertField, lookup?_cons]
  | cons first rest ih =>
    obtain ⟨found, v⟩ := first
    unfold insertField
    split
    · rename_i heq
      subst heq
      rw [lookup?_cons]
      by_cases hname : other = name
      · cases lookup? name rest <;> simp [hname]
      · simp [hname]
    · split
      · rw [lookup?_cons]
      · rename_i hne _
        rw [lookup?_cons, lookup?_cons, ih]
        by_cases hname : other = name
        · subst hname
          simp [Ne.symm hne]
        · simp [hname]

/-- What is found in a canonical form is the canonical form of what was written last. -/
theorem lookup?_canonicalFields (name : String) (fields : List (String × Json)) :
    lookup? name (canonicalFields fields) = (lookup? name fields).map canonical := by
  induction fields with
  | nil => rfl
  | cons field rest ih =>
    obtain ⟨other, value⟩ := field
    rw [canonicalFields, lookup?_insertField, ih, lookup?_cons]
    by_cases hname : other = name
    · cases lookup? name rest <;> simp [hname]
    · simp [hname]

end Json

namespace Decode

variable {α : Type} {name : String} {fields : List (String × Json)} {value : Json}

/-- Among different names, the field that is read is the one that is looked up. -/
theorem field?_eq_ok (hnames : (fields.map (·.1)).Nodup) (name : String) :
    field? name fields = .ok (Json.lookup? name fields) := by
  have hsame : ∀ field ∈ fields.filter (·.1 == name), field.1 = name := by
    intro field hfield
    simpa using (List.mem_filter.1 hfield).2
  have hnodup : ((fields.filter (·.1 == name)).map (·.1)).Nodup :=
    hnames.sublist (List.filter_sublist.map _)
  rw [field?, Json.lookup?_eq_getLast?]
  split
  · rename_i hnil
    rw [hnil]
    rfl
  · rename_i hone
    rw [hone]
    rfl
  · -- two fields of the name would be two of one name
    rename_i found hnil hone
    generalize hfound : fields.filter (·.1 == name) = found at *
    match found with
    | [] => exact absurd rfl hnil
    | [(n, v)] => exact absurd rfl (hone n v)
    | a :: b :: rest =>
      have hab : a.1 = b.1 := (hsame a (by simp)).trans (hsame b (by simp)).symm
      simp [hab] at hnodup

theorem required_eq (hnames : (fields.map (·.1)).Nodup) (hvalue : Json.lookup? name fields = some value)
    (decode : Json → Except DecodeError α) : required name decode fields = decode value := by
  rw [required, field?_eq_ok hnames, hvalue]
  rfl

theorem optional_eq (hnames : (fields.map (·.1)).Nodup) (default : α)
    (decode : Json → Except DecodeError α) :
    optional name default decode fields =
      match Json.lookup? name fields with
      | some v => decode v
      | none => .ok default := by
  rw [optional, field?_eq_ok hnames]
  rfl

end Decode

end RobotPuzzle
