import Mathlib.Data.List.Nodup
import RobotPuzzle.Proofs.Catalog.Safety

/-!
# From level to level

A level is found by its id, and whoever has solved it goes on with the level that stands after the first one
with that id. Since a catalog that is accepted has no id twice, this is the level after the one just solved:
going on from the first level one comes through all of them in order, each once, and then there is none left.

## Main definitions

- `Catalog.Tour` — the levels one comes through by going on until there is none left

## Main statements

- `Catalog.Sound.get?_eq_getElem_iff`, `Catalog.Sound.nextAfter?_eq` — the level of an id, and the one after it
- `Catalog.Sound.tour_iff` — the tour from any place of the catalog is what stands from there on
- `Catalog.tour_of_accepted` — all of this for every catalog that levels are taken from
-/

namespace RobotPuzzle.Catalog

variable {c : Catalog} {level : Level} {id i : Nat} {path path' : List Level}

/-! ## The level of an id -/

theorem get?_eq_none_iff : c.get? id = none ↔ ∀ level ∈ c.levels, level.id ≠ id := by
  simp [get?]

theorem mem_of_get? (h : c.get? id = some level) : level ∈ c.levels ∧ level.id = id := by
  refine ⟨List.mem_of_find?_eq_some h, ?_⟩
  simpa using List.find?_some h

/-- An id is that of one level only. -/
theorem Sound.eq_of_id_eq (hc : c.Sound) {other : Level} (hlevel : level ∈ c.levels)
    (hother : other ∈ c.levels) (hid : level.id = other.id) : level = other :=
  List.inj_on_of_nodup_map hc.ids_nodup hlevel hother hid

/-- The level at a place is found by its own id and by no other. -/
theorem Sound.get?_eq_getElem_iff (hc : c.Sound) (hi : i < c.levels.length) :
    c.get? id = some c.levels[i] ↔ c.levels[i].id = id := by
  constructor
  · intro h
    exact (mem_of_get? h).2
  · rintro rfl
    have hmem : c.levels[i] ∈ c.levels := List.getElem_mem hi
    cases hget : c.get? c.levels[i].id with
    | none => exact absurd rfl (get?_eq_none_iff.1 hget _ hmem)
    | some other =>
      obtain ⟨hother, hid⟩ := mem_of_get? hget
      rw [hc.eq_of_id_eq hother hmem hid]

/-! ## The level to go on with -/

/-- The level to go on with stands right after the level. -/
theorem Sound.nextAfter?_eq (hc : c.Sound) (hlevel : c.levels[i]? = some level) :
    c.nextAfter? level.id = c.levels[i + 1]? := by
  have hplace : c.levels.findIdx? (·.id = level.id) = some i := by
    obtain ⟨hlt, rfl⟩ := List.getElem?_eq_some_iff.1 hlevel
    refine List.findIdx?_eq_some_iff_getElem.2 ⟨hlt, by simp, fun j hj => ?_⟩
    have hne := List.pairwise_iff_getElem.1 hc.ids_nodup j i (by simp; omega) (by simpa using hlt) hj
    simpa using hne
  rw [nextAfter?, hplace]
  rfl

theorem nextAfter?_eq_none_of_unknown (h : ∀ level ∈ c.levels, level.id ≠ id) :
    c.nextAfter? id = none := by
  have hplace : c.levels.findIdx? (·.id = id) = none := by simpa using h
  rw [nextAfter?, hplace]
  rfl

/-- One cannot go on from an id that is not in the catalog, nor from the last level. -/
theorem Sound.nextAfter?_eq_none_iff (hc : c.Sound) :
    c.nextAfter? id = none ↔
      (∀ level ∈ c.levels, level.id ≠ id) ∨ ∃ last, c.levels.getLast? = some last ∧ last.id = id := by
  by_cases hknown : ∃ level ∈ c.levels, level.id = id
  · obtain ⟨level, hmem, rfl⟩ := hknown
    obtain ⟨i, hi, rfl⟩ := List.getElem_of_mem hmem
    have hnext : c.nextAfter? c.levels[i].id = none ↔ c.levels.length - 1 = i := by
      rw [hc.nextAfter?_eq (List.getElem?_eq_getElem hi), List.getElem?_eq_none_iff]
      omega
    rw [hnext, or_iff_right fun hne => hne _ hmem rfl, List.getLast?_eq_getElem?]
    constructor
    · intro hlast
      exact ⟨c.levels[i], by rw [hlast, List.getElem?_eq_getElem hi], rfl⟩
    · rintro ⟨last, hlast, hid⟩
      obtain ⟨hlt, rfl⟩ := List.getElem?_eq_some_iff.1 hlast
      have hnodup : c.levels.Nodup := hc.ids_nodup.of_map _
      exact hnodup.getElem_inj_iff.1 (hc.eq_of_id_eq (List.getElem_mem hlt) hmem hid)
  · have hunknown : ∀ level ∈ c.levels, level.id ≠ id := fun level hmem hid => hknown ⟨level, hmem, hid⟩
    exact iff_of_true (nextAfter?_eq_none_of_unknown hunknown) (Or.inl hunknown)

/-! ## Tours -/

/-- The levels one comes through from a level by going on with the next each time, until there is none. -/
inductive Tour (c : Catalog) : Option Level → List Level → Prop
  | done : Tour c none []
  | visit {level : Level} {path : List Level} (hrest : Tour c (c.nextAfter? level.id) path) :
    Tour c (some level) (level :: path)

theorem Tour.unique {start : Option Level} (h : c.Tour start path) (h' : c.Tour start path') :
    path = path' := by
  induction h generalizing path' with
  | done =>
    cases h'
    rfl
  | visit hrest ih =>
    cases h' with
    | visit hrest' => rw [ih hrest']

/-- From any place one comes through the levels that stand there and after it. -/
theorem Sound.tour_drop (hc : c.Sound) (i : Nat) : c.Tour c.levels[i]? (c.levels.drop i) := by
  -- the number of levels still to come
  generalize hleft : c.levels.length - i = left
  induction left generalizing i with
  | zero =>
    have hpast : c.levels.length ≤ i := by omega
    rw [List.getElem?_eq_none hpast, List.drop_eq_nil_of_le hpast]
    exact .done
  | succ left ih =>
    have hi : i < c.levels.length := by omega
    have hlevel : c.levels[i]? = some c.levels[i] := List.getElem?_eq_getElem hi
    have hrest : c.Tour c.levels[i + 1]? (c.levels.drop (i + 1)) := ih (i + 1) (by omega)
    rw [← hc.nextAfter?_eq hlevel] at hrest
    rw [hlevel, List.drop_eq_getElem_cons hi]
    exact .visit hrest

theorem Sound.tour_iff (hc : c.Sound) (i : Nat) :
    c.Tour c.levels[i]? path ↔ path = c.levels.drop i := by
  constructor
  · intro h
    exact h.unique (hc.tour_drop i)
  · rintro rfl
    exact hc.tour_drop i

/-- In a catalog that levels are taken from, the level at a place is found by its own id and by no other, and
no level by an id that none of them has. Whoever starts with the first level, if there is one, and goes on with
the next each time, comes through all levels in order, each once, and then there is none left. There is no next
level after an id that is not in the catalog, nor after the last level. -/
theorem tour_of_accepted (h : c.Accepted) :
    (∀ id i (hi : i < c.levels.length), c.get? id = some c.levels[i] ↔ c.levels[i].id = id) ∧
      (∀ id, c.get? id = none ↔ ∀ level ∈ c.levels, level.id ≠ id) ∧
      (∀ path, c.Tour c.levels.head? path ↔ path = c.levels) ∧ c.levels.Nodup ∧
      ∀ id, c.nextAfter? id = none ↔
        (∀ level ∈ c.levels, level.id ≠ id) ∨ ∃ last, c.levels.getLast? = some last ∧ last.id = id := by
  have hc : c.Sound := h.sound
  refine ⟨fun id i hi => hc.get?_eq_getElem_iff hi, fun id => get?_eq_none_iff, ?_,
    hc.ids_nodup.of_map _, fun id => hc.nextAfter?_eq_none_iff⟩
  intro path
  rw [List.head?_eq_getElem?, hc.tour_iff 0, List.drop_zero]

/-- The text of the level `tiny` with an id of one digit. -/
def tinyTextWith (id : Char) : List Char :=
  "\x7b\"id\":".toList ++ id :: ",\"name\":\"tiny\",\"gridSize\":2".toList
    ++ ",\"start\":\x7b\"x\":0,\"y\":1\x7d".toList ++ ",\"target\":\x7b\"x\":0,\"y\":0\x7d".toList
    ++ ",\"direction\":\"UP\"".toList ++ ",\"commands\":[\"forward\"]".toList
    ++ ",\"optimalMoves\":1\x7d".toList

/-- A catalog whose ids do not count up. -/
def unorderedText : List Char :=
  "\x7b\"levels\":[".toList ++ tinyTextWith '9' ++ ',' :: tinyTextWith '2' ++ ',' :: tinyTextWith '4'
    ++ "]\x7d".toList

/-- The levels of that catalog. -/
def unordered : List Level :=
  [{ Machine.tiny with id := 9 }, { Machine.tiny with id := 2 }, { Machine.tiny with id := 4 }]

/-- The levels are toured as they stand, not by their ids, and an id between theirs leads nowhere. -/
theorem tour_of_accepted_unordered :
    read unorderedText = .ok ⟨unordered⟩ ∧ get? ⟨unordered⟩ 4 = some { Machine.tiny with id := 4 } ∧
      Tour ⟨unordered⟩ (some { Machine.tiny with id := 9 }) unordered ∧
      nextAfter? ⟨unordered⟩ 4 = none ∧ nextAfter? ⟨unordered⟩ 3 = none := by
  have hread : read unorderedText = .ok ⟨unordered⟩ := eq_ok_of_toOption (by decide +kernel)
  obtain ⟨hget, -, htour, -, hnext⟩ := tour_of_accepted (.read hread)
  have hunknown : ∀ level ∈ unordered, level.id ≠ 3 := by decide
  exact ⟨hread, (hget 4 2 (by decide)).2 rfl, (htour unordered).2 rfl, (hnext 4).2 (.inr ⟨_, rfl, rfl⟩),
    (hnext 3).2 (.inl hunknown)⟩

end RobotPuzzle.Catalog
