import RobotPuzzle.Proofs.Catalog.Decoding
import RobotPuzzle.Proofs.Catalog.Safety

/-!
# Written catalogs are read back

A list of levels that keep every rule, written as a JSON value, passes the schema, is decoded as the same
levels, and passes the rules again. Obstacles may be written in any order and more than once, for a set of
cells is what its members are. Ids, optima and sizes are numbers of 32 bits in every level; coordinates
then are such numbers because they are on the board.

## Main definitions

- `Encodes` — a value that has a shape and is decoded as something
- `Level.InRange` — the numbers of a level are numbers of 32 bits

## Main statements

- `Catalog.encodes_level` — what is written for a level is decoded as it
- `Catalog.ofJson_toJsonWith` — what is written for the levels of a catalog makes that catalog
-/

namespace RobotPuzzle

/-! ## Encodings -/

theorem Decode.bind_eq_ok {α β : Type} {x : Except DecodeError α} {f : α → Except DecodeError β}
    {a : α} {b : β} (hx : x = .ok a) (hf : f a = .ok b) : x >>= f = .ok b := by
  rw [hx]
  exact hf

/-- In canonical form the value has the shape and is decoded as `a`. -/
structure Encodes {α : Type} (schema : Schema) (decode : Json → Except DecodeError α) (value : Json)
    (a : α) : Prop where
  fits : schema.Fits value.canonical
  decodes : decode value.canonical = .ok a

namespace Encodes

variable {α : Type} {schema : Schema} {decode : Json → Except DecodeError α} {value : Json} {a : α}
  {fields : List (String × Json)} {key : String}

theorem int {minimum : Option Nat} {range : IntRange} {i : Int}
    (hmin : ∀ m, minimum = some m → (m : Int) ≤ i) (hrange : range.Holds i) :
    Encodes (.integer minimum) (Decode.int range) (.int i) i where
  fits := Schema.fits_integer_iff.2 ⟨.integer i, rfl, rfl, fun m hm => by
    simpa [Schema.isBelow] using hmin m hm⟩
  decodes := if_pos (by simpa [IntRange.Holds] using hrange)

theorem nat {range : IntRange} {n : Nat} (hrange : range.Holds n) :
    Encodes (.integer (some 0)) (Decode.int range) (.nat n) n := by
  refine int ?_ hrange
  rintro m ⟨rfl⟩
  exact Int.natCast_nonneg n

theorem string {minLength : Nat} {s : String} (hlength : minLength ≤ s.length) :
    Encodes (.text minLength) Decode.string (.string s) s where
  fits := Schema.fits_text_iff.2 ⟨s, rfl, hlength⟩
  decodes := rfl

theorem name {options : List String} {ofName? : String → Option α} {s : String} (hs : s ∈ options)
    (hname : ofName? s = some a) : Encodes (.choice options) (Decode.name ofName?) (.string s) a where
  fits := Schema.fits_choice_iff.2 ⟨s, hs, rfl⟩
  decodes := by rw [Json.canonical, Decode.name, hname]; rfl

theorem list {encode : α → Json} {minItems : Nat} {items : List α} (hlength : minItems ≤ items.length)
    (hitems : ∀ a ∈ items, Encodes schema decode (encode a) a) :
    Encodes (.list schema minItems) (Decode.list decode) (.array (items.map encode)) items where
  fits := by
    rw [Json.canonical, Json.canonicalItems_eq_map, List.map_map]
    refine Schema.fits_list_iff.2 ⟨_, rfl, ?_, by simpa using hlength⟩
    intro v hv
    obtain ⟨a, ha, rfl⟩ := List.mem_map.1 hv
    exact (hitems a ha).fits
  decodes := by
    rw [Json.canonical, Json.canonicalItems_eq_map, Decode.list]
    clear hlength
    induction items with
    | nil => rfl
    | cons a rest ih =>
      obtain ⟨ha, hrest⟩ := List.forall_mem_cons.1 hitems
      rw [List.map_cons, List.map_cons, List.mapM_cons, ha.decodes, ih hrest]
      rfl

theorem fits_field (h : Encodes schema decode value a) (hvalue : Json.lookup? key fields = some value) :
    ∀ v, Json.lookup? key fields = some v → schema.Fits v.canonical := by
  intro v hv
  obtain rfl : value = v := Option.some.inj (hvalue.symm.trans hv)
  exact h.fits

theorem required_field (h : Encodes schema decode value a)
    (hvalue : Json.lookup? key fields = some value) :
    Decode.required key decode (Json.canonicalFields fields) = .ok a := by
  have hfound : Json.lookup? key (Json.canonicalFields fields) = some value.canonical := by
    rw [Json.lookup?_canonicalFields, hvalue, Option.map_some]
  rw [Decode.required_eq (Json.nodup_names_canonicalFields fields) hfound, h.decodes]

theorem optional_field (h : Encodes schema decode value a)
    (hvalue : Json.lookup? key fields = some value) (default : α) :
    Decode.optional key default decode (Json.canonicalFields fields) = .ok a := by
  rw [Decode.optional_eq (Json.nodup_names_canonicalFields fields), Json.lookup?_canonicalFields, hvalue]
  exact h.decodes

end Encodes

/-! ## Levels -/

namespace Level

/-- The numbers of the level are numbers of 32 bits. -/
structure InRange (level : Level) : Prop where
  id : IntRange.unsigned32.Holds level.id
  optimal : IntRange.unsigned32.Holds level.optimal
  size : IntRange.signed32.Holds level.size

/-- The coordinates of a cell of the board are no larger than its size. -/
theorem InRange.of_inBounds {level : Level} (h : level.InRange) {c : Cell} (hc : level.InBounds c) :
    IntRange.signed32.Holds c.x ∧ IntRange.signed32.Holds c.y := by
  obtain ⟨⟨hx, hxsize⟩, hy, hysize⟩ := hc
  have hhigh := h.size.2
  have hlow : IntRange.signed32.low ≤ 0 := by decide
  exact ⟨⟨by omega, by omega⟩, ⟨by omega, by omega⟩⟩

end Level

namespace Catalog

theorem encodes_cell {c : Cell} (hcolumn : IntRange.signed32.Holds c.x)
    (hrow : IntRange.signed32.Holds c.y) : Encodes cellSchema Decode.cell c.toJson c := by
  have hx : Encodes (.integer none) (Decode.int .signed32) (.int c.x) c.x := .int (by simp) hcolumn
  have hy : Encodes (.integer none) (Decode.int .signed32) (.int c.y) c.y := .int (by simp) hrow
  refine ⟨Schema.fits_canonical_record_iff.2 ⟨?_, ?_, ?_⟩, ?_⟩
  · simp only [List.forall_mem_cons]
    exact ⟨hx.fits_field rfl, hy.fits_field rfl, fun p hp => absurd hp List.not_mem_nil⟩
  · simp
  · simp
  · rw [Cell.toJson, Json.canonical, Decode.cell]
    refine Decode.bind_eq_ok rfl ?_
    refine Decode.bind_eq_ok (hx.required_field rfl) ?_
    exact Decode.bind_eq_ok (hy.required_field rfl) rfl

/-- What is written for a level, with its obstacles listed somehow, is decoded as it. -/
theorem encodes_level {level : Level} {obstacles : List Cell} (hvalid : level.Valid)
    (hname : level.name ≠ "") (hrange : level.InRange)
    (hobstacles : ∀ c, c ∈ obstacles ↔ c ∈ level.obstacles) :
    Encodes levelSchema Level.ofJson (level.toJsonWith obstacles) level := by
  have hcell : ∀ c, level.InBounds c → Encodes cellSchema Decode.cell c.toJson c := by
    intro c hc
    obtain ⟨hcolumn, hrow⟩ := hrange.of_inBounds hc
    exact encodes_cell hcolumn hrow
  -- one encoding for each field
  have hcommands : Encodes (.list (.choice (Kind.all.map Kind.name)) 1)
      (Decode.list (Decode.name Kind.ofName?))
      (.array (level.palette.map fun k => .string k.name)) level.palette := by
    refine .list (List.length_pos_iff.2 hvalid.palette_ne_nil) fun k _ => ?_
    exact .name (List.mem_map_of_mem (Kind.mem_all k)) (Kind.ofName?_name k)
  have hdirection : Encodes (.choice ["UP", "DOWN", "LEFT", "RIGHT"]) (Decode.name Direction.ofName?)
      (.string level.facing.name) level.facing := by
    refine .name ?_ (Direction.ofName?_name level.facing)
    cases level.facing <;> decide
  have hsize : Encodes (.integer (some 1)) (Decode.int .signed32) (.int level.size) level.size := by
    refine .int ?_ hrange.size
    rintro m ⟨rfl⟩
    exact hvalid.size_pos
  have hhint : Encodes (.text 0) Decode.string (.string level.hint) level.hint :=
    .string (Nat.zero_le _)
  have hid : Encodes (.integer (some 0)) (Decode.int .unsigned32) (.nat level.id) level.id :=
    .nat hrange.id
  have hname : Encodes (.text 1) Decode.string (.string level.name) level.name := by
    refine .string (Nat.pos_of_ne_zero ?_)
    simpa using hname
  have hlisted : Encodes (.list cellSchema 0) (Decode.list Decode.cell)
      (.array (obstacles.map Cell.toJson)) obstacles := by
    refine .list (Nat.zero_le _) fun c hc => ?_
    exact hcell c (hvalid.obstacles_inBounds c ((hobstacles c).1 hc))
  have hoptimal : Encodes (.integer (some 0)) (Decode.int .unsigned32) (.nat level.optimal)
      level.optimal := .nat hrange.optimal
  have hstart := hcell level.start hvalid.start_free.inBounds
  have htarget := hcell level.target hvalid.target_free.inBounds
  have hset : CellSet.ofList obstacles = level.obstacles := by
    refine CellSet.ext fun c => ?_
    rw [CellSet.mem_ofList, hobstacles]
  refine ⟨Schema.fits_canonical_record_iff.2 ⟨?_, ?_, ?_⟩, ?_⟩
  · simp only [List.forall_mem_cons]
    exact ⟨hcommands.fits_field rfl, hdirection.fits_field rfl, hsize.fits_field rfl, hhint.fits_field rfl,
      hid.fits_field rfl, hname.fits_field rfl, hlisted.fits_field rfl, hoptimal.fits_field rfl,
      hstart.fits_field rfl, htarget.fits_field rfl, fun p hp => absurd hp List.not_mem_nil⟩
  · simp
  · simp
  · rw [Level.toJsonWith, Json.canonical, Level.ofJson]
    refine Decode.bind_eq_ok rfl ?_
    refine Decode.bind_eq_ok (hcommands.required_field rfl) ?_
    refine Decode.bind_eq_ok (hdirection.required_field rfl) ?_
    refine Decode.bind_eq_ok (hsize.required_field rfl) ?_
    refine Decode.bind_eq_ok (hhint.optional_field rfl "") ?_
    refine Decode.bind_eq_ok (hid.required_field rfl) ?_
    refine Decode.bind_eq_ok (hname.required_field rfl) ?_
    refine Decode.bind_eq_ok (hlisted.optional_field rfl []) ?_
    refine Decode.bind_eq_ok (hoptimal.required_field rfl) ?_
    refine Decode.bind_eq_ok (hstart.required_field rfl) ?_
    refine Decode.bind_eq_ok (htarget.required_field rfl) ?_
    exact congrArg (fun obstacles => Except.ok { level with obstacles }) hset

/-- If levels keep every rule, have names, and have numbers of 32 bits, then their values, with the
obstacles of each listed in any order and perhaps repeatedly, make the catalog of these levels, and so does
every text that is read as such a value. -/
theorem ofJson_toJsonWith (levels : List Level) (listed : Level → List Cell)
    (hfaults : faults levels = []) (hnames : ∀ level ∈ levels, level.name ≠ "")
    (hrange : ∀ level ∈ levels, level.InRange)
    (hlisted : ∀ level ∈ levels, ∀ c, c ∈ listed level ↔ c ∈ level.obstacles) :
    let value := Json.object
      [("levels", .array (levels.map fun level => level.toJsonWith (listed level)))]
    ofJson value.canonical = .ok ⟨levels⟩ ∧
      ∀ text v, Json.readLimited? text = some v → v.canonical = value.canonical →
        read text = .ok ⟨levels⟩ := by
  intro value
  obtain ⟨hvalid, -⟩ := (faults_eq_nil_iff levels).1 hfaults
  have hlevels : Encodes (.list levelSchema 0) (Decode.list Level.ofJson)
      (.array (levels.map fun level => level.toJsonWith (listed level))) levels := by
    refine .list (Nat.zero_le _) fun level hmem => ?_
    exact encodes_level (hvalid level hmem) (hnames level hmem) (hrange level hmem) (hlisted level hmem)
  have hvalue : ofJson value.canonical = .ok ⟨levels⟩ := by
    refine ofJson_eq_ok_iff.2 ⟨Schema.fits_canonical_record_iff.2 ⟨?_, ?_, ?_⟩, ?_, hfaults⟩
    · simp only [List.forall_mem_cons]
      exact ⟨hlevels.fits_field rfl, fun p hp => absurd hp List.not_mem_nil⟩
    · simp
    · simp
    · exact Decode.bind_eq_ok rfl (hlevels.required_field rfl)
  refine ⟨hvalue, fun text v hread hsame => ?_⟩
  rw [read, hread]
  exact (congrArg ofJson hsame).trans hvalue

/-- A level whose numbers are the greatest there are. -/
def vast : Level :=
  { id := 4294967295, name := "vast", size := 2147483647, start := ⟨0, 1⟩,
    target := ⟨2147483646, 2147483646⟩, facing := .left,
    obstacles := .ofList [⟨1, 1⟩, ⟨1, 0⟩, ⟨2147483646, 0⟩], palette := [.turnLeft, .loop],
    optimal := 4294967295, hint := "" }

/-- Its obstacles, out of order and one of them twice. -/
def vastListed : List Cell := [⟨2147483646, 0⟩, ⟨1, 1⟩, ⟨1, 0⟩, ⟨1, 1⟩]

theorem ofJson_toJsonWith_vast :
    let value := Json.object [("levels", .array [vast.toJsonWith vastListed])]
    ofJson value.canonical = .ok ⟨[vast]⟩ ∧
      ∀ text v, Json.readLimited? text = some v → v.canonical = value.canonical →
        read text = .ok ⟨[vast]⟩ := by
  have hlisted : ∀ c, c ∈ vastListed ↔ c ∈ vast.obstacles := by
    intro c
    simp only [vastListed, vast, CellSet.mem_ofList, List.mem_cons, List.not_mem_nil]
    tauto
  exact ofJson_toJsonWith [vast] (fun _ => vastListed) (by decide)
    (List.forall_mem_singleton.2 (by decide))
    (List.forall_mem_singleton.2 ⟨by decide, by decide, by decide⟩)
    (List.forall_mem_singleton.2 hlisted)

end Catalog

end RobotPuzzle
