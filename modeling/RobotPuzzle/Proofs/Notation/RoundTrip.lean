import RobotPuzzle.Notation.Writing
import RobotPuzzle.Proofs.Notation.Grammar
import RobotPuzzle.Proofs.Program.Counts

/-!
# Reading what was written

The text of a tree has a derivation that stands for the tree, so reading it gives the tree back. The ids of
the program are not written: the program that is read numbers its instructions in the order in which they
stand, and is otherwise the program that was written.

## Main definitions

- `Writable` — a tree whose counts may be written
- `Program.rank` — the place of an instruction in the order of the text
- `Beat.relabel` — a unit of an instruction with another id

## Main statements

- `derives_write` — the text of a tree stands for the tree
- `readProgram_text_of_wellFormed` — a well-formed program is read from its text, with its ids renumbered
- `readProgram_text` — writing what was read gives a text that reads the same
- `readProgram_text_afterEdits` — both for every authored program and every text

## Design notes

A written tree has a space between its parts. The induction is on the text with a space in front of every part
instead: it is made up of the texts of the instructions, and one more separator in front does not matter.
-/

namespace RobotPuzzle

namespace Notation

variable {rule : CountRule} {α : Type} {f : Forest Unit}

/-! ## The words that are written -/

theorem calls_wordOfKind (kind : Kind) : Calls (wordOfKind kind) kind :=
  kindOfWord?_eq_some_iff.1 (kindOfWord?_wordOfKind kind)

theorem isWordChar_wordOfKind (kind : Kind) : ∀ x ∈ wordOfKind kind, isWordChar x = true := by
  have hall : (wordOfKind kind).all isWordChar = true := by cases kind <;> decide
  exact List.all_eq_true.1 hall

/-- A count that may be written is given by its decimal numeral. -/
theorem gives_decimal {n : Nat} (hpos : 1 ≤ n) (hmax : n ≤ maxCount) (hoffered : rule.offered n = true) :
    rule.Gives (some (decimal n)) n where
  denotes :=
    ⟨fun _ hx => isDigit_of_mem_decimal hx,
      Nat.ofDigitChars_toDigits (by decide) (by decide), hmax⟩
  pos := hpos
  offered := hoffered

/-! ## The text of a tree -/

/-- Parts with separators between them, and one more in front. -/
theorem cons_intercalate_eq_flatMap {α : Type} (separator : α) (part : List α) (parts : List (List α)) :
    separator :: [separator].intercalate (part :: parts) = (part :: parts).flatMap (separator :: ·) := by
  induction parts generalizing part with
  | nil => simp
  | cons next parts ih =>
    have hsplit : [separator].intercalate (part :: next :: parts) =
        part ++ separator :: [separator].intercalate (next :: parts) := by
      simp [List.intercalate]
    rw [hsplit, ih next]
    rfl

/-- The parts with a space in front of each. -/
def spaced (parts : List (List Char)) : List Char := parts.flatMap (' ' :: ·)

theorem cons_intercalate_eq_spaced (part : List Char) (parts : List (List Char)) :
    ' ' :: [' '].intercalate (part :: parts) = spaced (part :: parts) :=
  cons_intercalate_eq_flatMap ' ' part parts

/-- A reader that keeps to the rule takes in every count of the tree. -/
def Writable (rule : CountRule) (f : Forest α) : Prop :=
  ∀ n ∈ f.counts, 1 ≤ n ∧ n ≤ maxCount ∧ rule.offered n = true

/-- What follows a part begins with a separator, if there is anything. -/
theorem isSeparator_head_spaced (parts : List (List Char)) {seps : List Char}
    (hseps : ∀ x ∈ seps, isSeparator x = true) :
    ∀ x ∈ (spaced parts ++ seps).head?, isSeparator x = true := by
  intro x hx
  cases parts with
  | nil =>
    exact hseps x (List.mem_of_mem_head? hx)
  | cons part parts =>
    obtain rfl := Option.some.inj hx
    decide

/-- A spaced text stands for its tree, whatever separators come after it. -/
theorem derives_spaced (hf : Writable rule f) {seps : List Char} (hseps : ∀ x ∈ seps, isSeparator x = true) :
    Derives rule (spaced (parts f) ++ seps) f := by
  induction f generalizing seps with
  | nil =>
    change Derives rule seps .nil
    induction seps with
    | nil => exact .nil
    | cons c seps ih =>
      rw [List.forall_mem_cons] at hseps
      exact .separator hseps.1 (ih hseps.2)
  | command a c rest ih =>
    have hend : ∀ x ∈ (spaced (parts rest) ++ seps).head?, isWordChar x = false := by
      intro x hx
      exact isWordChar_of_isSeparator (isSeparator_head_spaced _ hseps x hx)
    have hcommand := Derives.command (isWordChar_wordOfKind c.kind) hend (calls_wordOfKind c.kind)
      (ih hf hseps)
    have htext : spaced (parts (.command a c rest)) ++ seps =
        ' ' :: (wordOfKind c.kind ++ (spaced (parts rest) ++ seps)) := by
      simp [spaced, parts]
    rw [htext]
    exact .separator (by decide) hcommand
  | loop a n body rest ihbody ihrest =>
    simp only [Writable, Forest.counts, List.forall_mem_cons, List.forall_mem_append] at hf
    obtain ⟨⟨hpos, hmax, hoffered⟩, hbody, hrest⟩ := hf
    have hspace : ∀ x ∈ [' '], isSeparator x = true := List.forall_mem_singleton.2 (by decide)
    have hloop := Derives.loop (isWordChar_wordOfKind .loop) (calls_wordOfKind .loop)
      (gives_decimal hpos hmax hoffered) hspace (ihbody hbody hspace) (ihrest hrest hseps)
    have htext : spaced (parts (.loop a n body rest)) ++ seps =
        ' ' :: (wordOfKind .loop ++ (countText (some (decimal n)) ++ ([' '] ++
          '\x7b' :: (spaced (parts body) ++ [' '] ++ '\x7d' :: (spaced (parts rest) ++ seps))))) := by
      simp [spaced, parts, loopHead, countText]
    rw [htext]
    exact .separator (by decide) hloop

/-- The text of a tree stands for the tree. -/
theorem derives_write (hf : Writable rule f) : Derives rule (write f) f := by
  have hspaced : Derives rule (spaced (parts f) ++ []) f := derives_spaced hf (by simp)
  rw [List.append_nil] at hspaced
  cases f with
  | nil => exact hspaced
  | command a c rest | loop a n body rest =>
    rw [parts, ← cons_intercalate_eq_spaced, derives_separator_iff (by decide)] at hspaced
    exact hspaced

end Notation

/-! ## Ids in the order of the text -/

/-- The unit of an instruction with another id. -/
def Beat.relabel (φ : NodeId → NodeId) (b : Beat) : Beat := { b with id := φ b.id }

namespace Forest

theorem counts_map {α β : Type} (φ : α → β) (f : Forest α) : (f.map φ).counts = f.counts := by
  induction f with
  | nil => rfl
  | command a c rest ih => rw [Forest.map_command, counts, counts, ih]
  | loop a n body rest ihbody ihrest => rw [Forest.map_loop, counts, counts, ihbody, ihrest]

/-- Unrolling a relabelled tree is relabelling its units. -/
theorem unroll_map (φ : NodeId → NodeId) (f : Forest NodeId) :
    (f.map φ).unroll = f.unroll.map (Beat.relabel φ) := by
  induction f with
  | nil => rfl
  | command id c rest ih =>
    rw [Forest.map_command, unroll, unroll, ih]
    rfl
  | loop id n body rest ihbody ihrest =>
    rw [Forest.map_loop, unroll, unroll, ihbody, ihrest, List.map_cons, List.map_append, List.map_flatten,
      List.map_replicate]
    rfl

end Forest

namespace Program

variable {p : Program}

/-- The place of an instruction in the order of the text. -/
def rank (p : Program) (id : NodeId) : Nat := p.walk.idxOf id

/-- Renumbering by rank is numbering in the order of the text. -/
theorem WellFormed.forest_map_rank (h : p.WellFormed) : p.forest.map p.rank = p.forest.numberFrom 0 := by
  apply Forest.map_eq_numberFrom
  have hlabels : p.forest.labels = p.walk := labels_forestFrom p p.nodeCount p.roots
  have hnodup : p.walk.Nodup := h.walk_perm.nodup_iff.2 h.ids_nodup
  have hlength : p.forest.size = p.walk.length := by rw [← Forest.length_labels, hlabels]
  rw [hlabels, hlength]
  refine List.ext_getElem (by simp) fun i hi hi' => ?_
  simp [rank, hnodup.idxOf_getElem]

end Program

namespace Notation

variable {rule : CountRule} {p q : Program} {text : List Char}

/-! ## The program of a text -/

/-- The tree of a program does not depend on its ids. -/
theorem text_eq_write_shape (p : Program) : p.text = write p.forest.shape :=
  (write_map (fun _ => ()) p.forest).symm

/-- A well-formed program is read from its text, with its instructions renumbered. -/
theorem readProgram_text_of_wellFormed (h : p.WellFormed) (hp : Writable rule p.forest) :
    ∃ q, readProgram rule p.text = .ok q ∧ q.forest = p.forest.map p.rank := by
  have hshape : Writable rule p.forest.shape := by
    rwa [Writable, Forest.shape, Forest.counts_map]
  have hderives := derives_write hshape
  rw [← text_eq_write_shape] at hderives
  refine ⟨Program.ofForest p.forest.shape, readProgram_eq_ok_iff.2 ⟨_, hderives, rfl⟩, ?_⟩
  rw [hderives.forest_ofForest, h.forest_map_rank, Forest.shape, Forest.numberFrom_map]

/-- Writing what was read gives a text that reads the same. -/
theorem readProgram_text (hdefault : rule.default ≤ maxCount) (hread : readProgram rule text = .ok q) :
    readProgram rule q.text = .ok q := by
  obtain ⟨f, hderives, rfl⟩ := readProgram_eq_ok_iff.1 hread
  have hf : Writable rule f := by
    intro n hn
    obtain ⟨digits, hgives⟩ := hderives.exists_gives hn
    exact ⟨hgives.pos, hgives.le_maxCount hdefault, hgives.offered⟩
  have htext : (Program.ofForest f).text = write f := by
    rw [text_eq_write_shape, hderives.forest_ofForest, Forest.shape_numberFrom, Forest.shape_eq_self]
  rw [htext]
  exact readProgram_eq_ok_iff.2 ⟨f, derives_write hf, rfl⟩

/-- Whatever operations build a program, it is read from its text: the same tree with its ids renumbered in
the order of the text, hence the same units under their new ids and the same text. Writing what was read
from any text gives a text that reads the same. -/
theorem readProgram_text_afterEdits (default : Nat) (hdefault : default ≤ maxCount) :
    (∀ edits : List Edit, (∀ e ∈ edits, ∀ count, e.count? = some count → count ≤ maxCount) →
      let p := Program.empty.afterEdits edits
      ∃ q, readProgram (.free default) p.text = .ok q ∧
        q.forest = p.forest.map p.rank ∧ q.forest.labels = List.range p.nodeCount ∧
        q.unroll = p.unroll.map (Beat.relabel p.rank) ∧ q.text = p.text) ∧
      ∀ text q, readProgram (.free default) text = .ok q → readProgram (.free default) q.text = .ok q := by
  refine ⟨fun edits hedits => ?_, fun text q hread => readProgram_text hdefault hread⟩
  intro p
  have hp : p.WellFormed := Program.Authored.wellFormed ⟨edits, rfl⟩
  have hwritable : Writable (.free default) p.forest := by
    intro n hn
    obtain ⟨id, hid⟩ := hp.isTree_forest.exists_count? hn
    exact ⟨hp.one_le_of_count? hid, Program.count?_afterEdits_le (by decide) hedits hid, rfl⟩
  obtain ⟨q, hread, hforest⟩ := readProgram_text_of_wellFormed hp hwritable
  refine ⟨q, hread, hforest, ?_, ?_, ?_⟩
  · rw [hforest, hp.forest_map_rank, Forest.labels_numberFrom, hp.size_forest, List.range_eq_range']
  · rw [q.unroll_eq_unroll_forest, hforest, Forest.unroll_map, p.unroll_eq_unroll_forest]
  · rw [Program.text, hforest, write_map, Program.text]

/-- A program with a loop in a loop, from which an instruction was taken out and in which another came
first. -/
theorem readProgram_text_afterEdits_reordered :
    3 ≤ maxCount ∧
      ∃ q, readProgram (.free 3) (Program.empty.afterEdits
          [.appendLoop 2 none, .append .forward (some 0), .append .wait none, .appendLoop 4 (some 0),
            .remove 1, .reorder none 0 1]).text = .ok q ∧
        q.forest = .command 0 .wait (.loop 1 2 (.loop 2 4 .nil .nil) .nil) ∧
        q.text = "wait loop*2 \x7b loop*4 \x7b \x7d \x7d".toList := by
  have hmax : 3 ≤ maxCount := by decide
  obtain ⟨q, hread, hforest, -, -, htext⟩ := (readProgram_text_afterEdits 3 hmax).1
    [.appendLoop 2 none, .append .forward (some 0), .append .wait none, .appendLoop 4 (some 0),
      .remove 1, .reorder none 0 1] (by simp [Edit.count?, maxCount])
  refine ⟨hmax, q, hread, hforest.trans ?_, htext.trans ?_⟩
  · decide
  · decide

end Notation

end RobotPuzzle
