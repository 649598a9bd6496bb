import RobotPuzzle.Proofs.Board.Drawing
import RobotPuzzle.Proofs.Notation.Writing
import RobotPuzzle.Proofs.Report.Template

/-!
# Reading a report

The report of a run is cut into lines: below the title stand the program, the board, the steps, the history
and the ending, every step and every snapshot on a line of its own. The parts before the steps and before the
history have as many lines as the level says, and no line of a step or of a snapshot is empty, so the blank
line after them ends them, however many there are. Each line tells what it shows. Hence two runs of a level
have the same report exactly if all that a report shows of them is the same.

## Main definitions

- `Effect.shown`, `Step.shown`, `Snapshot.shown` — what a report shows of effects, steps and snapshots
- `RunSummary.lines` — the lines of a report below the title

## Main statements

- `Step.line_eq_iff`, `Snapshot.line_eq_iff` — a line tells what it shows
- `RunSummary.splitOn_page` — the lines of a report
- `RunSummary.page_tells_run` — a report tells all that it shows of a run, and nothing else
-/

namespace RobotPuzzle

/-! ## Numerals and cells -/

theorem notMem_signedDecimal {c : Char} (hc : c.isDigit = false) (hminus : c ≠ '-') (i : Int) :
    c ∉ signedDecimal i := by
  unfold signedDecimal
  split
  · rw [List.mem_cons, not_or]
    exact ⟨hminus, notMem_decimal hc _⟩
  · exact notMem_decimal hc _

theorem signedDecimal_injective {i j : Int} (h : signedDecimal i = signedDecimal j) : i = j := by
  have hminus : ∀ n, '-' ∉ decimal n := notMem_decimal (by decide)
  unfold signedDecimal at h
  split at h <;> split at h
  · have habs := decimal_injective (List.cons.inj h).2
    omega
  · exact absurd (h ▸ List.mem_cons_self) (hminus _)
  · exact absurd (h ▸ List.mem_cons_self) (hminus _)
  · have habs := decimal_injective h
    omega

/-- A cell and what comes after it are told from their text. -/
theorem Cell.text_append_inj {c d : Cell} {rest rest' : List Char}
    (h : c.text ++ rest = d.text ++ rest') : c = d ∧ rest = rest' := by
  have hcomma : ∀ i, ',' ∉ signedDecimal i := notMem_signedDecimal (by decide) (by decide)
  have hparen : ∀ i, ')' ∉ signedDecimal i := notMem_signedDecimal (by decide) (by decide)
  simp only [text, List.cons_append, List.append_assoc, List.cons.injEq, true_and] at h
  obtain ⟨hx, -, hafter⟩ := append_cons_inj (hcomma _) (hcomma _) h
  obtain ⟨hy, -, hrest⟩ := append_cons_inj (hparen _) (hparen _) (List.cons.inj hafter).2
  obtain ⟨x, y⟩ := c
  obtain ⟨x', y'⟩ := d
  obtain rfl : x = x' := signedDecimal_injective hx
  obtain rfl : y = y' := signedDecimal_injective hy
  exact ⟨rfl, hrest⟩

theorem Cell.text_injective {c d : Cell} (h : c.text = d.text) : c = d := by
  have happend : c.text ++ [] = d.text ++ [] := by rw [h]
  exact (text_append_inj happend).1

/-! ## Names -/

theorem Action.name_injective : Function.Injective Action.name := by
  intro a b
  cases a <;> cases b <;> decide

theorem Outcome.name_injective : Function.Injective Outcome.name := by
  intro a b
  cases a <;> cases b <;> decide

section

variable {c : Char}

theorem Kind.notMem_name (hc : Notation.isWordChar c = false) (k : Kind) : c ∉ k.name.toList :=
  notMem_of_all (by cases k <;> decide) hc

theorem Direction.notMem_name (hc : Notation.isWordChar c = false) (d : Direction) : c ∉ d.name.toList :=
  notMem_of_all (by cases d <;> decide) hc

theorem Outcome.notMem_name (hc : Notation.isWordChar c = false) (o : Outcome) : c ∉ o.name.toList :=
  notMem_of_all (by cases o <;> decide) hc

end

/-! ## Steps -/

/-- What is shown of an effect: of a turn only where the robot then faces. -/
def Effect.shown : Effect → Effect
  | turned rotation => turned (Direction.ofDegrees rotation).degrees
  | effect => effect

/-- What a report shows of a step: its number, its kind, whether it enters a loop, and its effect. -/
def Step.shown (s : Step) : Nat × Kind × Bool × Effect :=
  (s.index, s.beat.kind, s.beat.marker, s.effect.shown)

/-- What a report shows of a snapshot: where the robot is, where it faces, and what happened. -/
def Snapshot.shown (s : Snapshot) : Cell × Direction × Option Action :=
  (s.position, Direction.ofDegrees s.rotation, s.action)

@[simp] theorem Effect.words_shown (e : Effect) : e.shown.words = e.words := by
  cases e with
  | turned rotation =>
    change "now facing ".toList ++
      (Direction.ofDegrees (Direction.ofDegrees rotation).degrees).name.toList = _
    rw [Direction.ofDegrees_degrees]
    rfl
  | marker | moved | jumped | blocked | waited | stopped => rfl

/-- The letter that the words for an effect begin with, another one for every sort of effect. -/
def Effect.initial : Effect → Char
  | marker => 'e'
  | moved _ => 'm'
  | jumped _ => 'j'
  | blocked _ => 'b'
  | turned _ => 'n'
  | waited => 'w'
  | stopped => 's'

theorem Effect.head?_words (e : Effect) : e.words.head? = some e.initial := by
  cases e <;> rfl

/-- The words for an effect tell what is shown of it. -/
theorem Effect.words_eq_iff {e e' : Effect} : e.words = e'.words ↔ e.shown = e'.shown := by
  constructor
  · intro h
    have hinitial : e.initial = e'.initial := by
      rw [← Option.some_inj, ← head?_words, h, head?_words]
    cases e with
    | marker =>
      cases e' with
      | marker => rfl
      | _ => simp [initial] at hinitial
    | moved cell =>
      cases e' with
      | moved cell' => rw [Cell.text_injective (List.append_cancel_left h)]
      | _ => simp [initial] at hinitial
    | jumped cell =>
      cases e' with
      | jumped cell' => rw [Cell.text_injective (List.append_cancel_left h)]
      | _ => simp [initial] at hinitial
    | blocked toward =>
      cases e' with
      | blocked toward' => rw [Cell.text_injective (List.append_cancel_left h)]
      | _ => simp [initial] at hinitial
    | turned rotation =>
      cases e' with
      | turned rotation' =>
        have hname := String.toList_inj.1 (List.append_cancel_left h)
        rw [shown, shown, Direction.name_injective hname]
      | _ => simp [initial] at hinitial
    | waited =>
      cases e' with
      | waited => rfl
      | _ => simp [initial] at hinitial
    | stopped =>
      cases e' with
      | stopped => rfl
      | _ => simp [initial] at hinitial
  · intro h
    rw [← words_shown, h, words_shown]

/-- A mark after a name is told from what follows. -/
theorem marked_inj {name name' words words' : List Char} {marker marker' : Bool} (hname : ' ' ∉ name)
    (hname' : ' ' ∉ name')
    (h : name ++ (if marker then " (loop)".toList else []) ++ ' ' :: ' ' :: words =
      name' ++ (if marker' then " (loop)".toList else []) ++ ' ' :: ' ' :: words') :
    name = name' ∧ marker = marker' ∧ words = words' := by
  have hmark : " (loop)".toList = ' ' :: "(loop)".toList := by decide
  rw [List.append_assoc, List.append_assoc] at h
  cases marker <;> cases marker' <;>
    simp only [hmark, Bool.false_eq_true, if_true, if_false, List.nil_append, List.cons_append] at h
  · obtain ⟨rfl, -, hrest⟩ := append_cons_inj hname hname' h
    exact ⟨rfl, rfl, (List.cons.inj hrest).2⟩
  · obtain ⟨-, -, hrest⟩ := append_cons_inj hname hname' h
    simp at hrest
  · obtain ⟨-, -, hrest⟩ := append_cons_inj hname hname' h
    simp at hrest
  · obtain ⟨rfl, -, hrest⟩ := append_cons_inj hname hname' h
    exact ⟨rfl, rfl, by simpa using hrest⟩

/-- The line of a step tells what is shown of it. -/
theorem Step.line_eq_iff {s s' : Step} : s.line = s'.line ↔ s.shown = s'.shown := by
  simp only [shown, Prod.mk.injEq, ← Effect.words_eq_iff]
  constructor
  · intro h
    obtain ⟨hindex, hafter⟩ := decimal_append_cons_inj (by decide) h
    obtain ⟨hkind, hmarker, hwords⟩ := marked_inj (Kind.notMem_name (by decide) _)
      (Kind.notMem_name (by decide) _) (List.cons.inj hafter).2
    exact ⟨hindex, Kind.name_injective (String.toList_inj.1 hkind), hmarker, hwords⟩
  · rintro ⟨hindex, hkind, hmarker, hwords⟩
    rw [line, line, hindex, hkind, hmarker, hwords]

/-- An action in brackets after a name is told from its absence. -/
theorem bracketed_inj {name name' : List Char} {action action' : Option Action} (hname : ' ' ∉ name)
    (hname' : ' ' ∉ name')
    (h : name ++ (action.elim [] fun a => ' ' :: '[' :: (a.name.toList ++ [']'])) =
      name' ++ (action'.elim [] fun a => ' ' :: '[' :: (a.name.toList ++ [']']))) :
    name = name' ∧ action = action' := by
  cases action with
  | none =>
    cases action' with
    | none => exact ⟨List.append_cancel_right h, rfl⟩
    | some b =>
      rw [Option.elim_none, List.append_nil] at h
      exact absurd (h ▸ List.mem_append_right _ List.mem_cons_self) hname
  | some a =>
    cases action' with
    | none =>
      rw [Option.elim_none, List.append_nil] at h
      exact absurd (h ▸ List.mem_append_right _ List.mem_cons_self) hname'
    | some b =>
      obtain ⟨rfl, -, hbrackets⟩ := append_cons_inj hname hname' h
      have haction := List.append_cancel_right (List.cons.inj hbrackets).2
      rw [Action.name_injective (String.toList_inj.1 haction)]
      exact ⟨rfl, rfl⟩

/-- The line of a snapshot tells what is shown of it. -/
theorem Snapshot.line_eq_iff {s s' : Snapshot} : s.line = s'.line ↔ s.shown = s'.shown := by
  simp only [shown, Prod.mk.injEq]
  constructor
  · intro h
    simp only [line, List.append_assoc, List.cons.injEq, true_and] at h
    obtain ⟨hposition, hafter⟩ := Cell.text_append_inj h
    obtain ⟨hfacing, haction⟩ := bracketed_inj (Direction.notMem_name (by decide) _)
      (Direction.notMem_name (by decide) _) (List.cons.inj hafter).2
    exact ⟨hposition, Direction.name_injective (String.toList_inj.1 hfacing), haction⟩
  · rintro ⟨hposition, hfacing, haction⟩
    rw [line, line, hposition, hfacing, haction]

theorem Step.line_ne_nil (s : Step) : s.line ≠ [] :=
  List.append_ne_nil_of_right_ne_nil _ (List.cons_ne_nil _ _)

theorem Snapshot.line_ne_nil (s : Snapshot) : s.line ≠ [] := nofun

/-! ## Lines without line breaks -/

theorem newline_notMem_decimal (n : Nat) : '\n' ∉ decimal n := notMem_decimal (by decide) n

theorem Cell.newline_notMem_text (c : Cell) : '\n' ∉ c.text := by
  have hsigned : ∀ i, '\n' ∉ signedDecimal i := notMem_signedDecimal (by decide) (by decide)
  simp [text, hsigned]

theorem Effect.newline_notMem_words (e : Effect) : '\n' ∉ e.words := by
  cases e with
  | marker | waited | stopped => decide
  | moved cell | jumped cell | blocked cell =>
    exact List.not_mem_append (by decide) cell.newline_notMem_text
  | turned rotation => exact List.not_mem_append (by decide) (Direction.notMem_name (by decide) _)

theorem Step.newline_notMem_line (s : Step) : '\n' ∉ s.line := by
  have hname : '\n' ∉ s.beat.kind.name.toList := Kind.notMem_name (by decide) _
  have hmarker : '\n' ∉ if s.beat.marker then " (loop)".toList else [] := by
    cases s.beat.marker <;> decide
  unfold line
  generalize (if s.beat.marker then " (loop)".toList else []) = marker at hmarker ⊢
  simp [newline_notMem_decimal, hname, hmarker, s.effect.newline_notMem_words]

theorem Snapshot.newline_notMem_line (s : Snapshot) : '\n' ∉ s.line := by
  have hname : '\n' ∉ (Direction.ofDegrees s.rotation).name.toList := Direction.notMem_name (by decide) _
  have haction : '\n' ∉ s.action.elim [] fun a => ' ' :: '[' :: (a.name.toList ++ [']']) := by
    rcases s.action with _ | _ | _ | _ <;> decide
  simp [line, s.position.newline_notMem_text, hname, haction]

theorem Program.newline_notMem_text (p : Program) : '\n' ∉ p.text := by
  have hparts : ∀ f : Forest NodeId, ∀ part ∈ Notation.parts f, '\n' ∉ part := by
    intro f
    induction f with
    | nil => simp [Notation.parts]
    | command i c rest ih =>
      rw [Notation.parts, List.forall_mem_cons]
      exact ⟨Notation.notMem_wordOfKind (by decide) _, ih⟩
    | loop i n body rest ihbody ihrest =>
      rw [Notation.parts, List.forall_mem_cons, List.forall_mem_append, List.forall_mem_cons]
      refine ⟨?_, ihbody, by decide, ihrest⟩
      have hword : '\n' ∉ Notation.wordOfKind .loop := by decide
      simp [Notation.loopHead, hword, newline_notMem_decimal]
  rw [text, Notation.write, mem_intercalate_iff (by decide)]
  rintro ⟨part, hpart, hmem⟩
  exact hparts _ part hpart hmem

/-! ## Cutting into lines -/

/-- Lists whose members are told apart alike by two functions are told apart alike by the images. -/
theorem map_eq_map_iff_of_forall {α β γ : Type} {f : α → β} {g : α → γ}
    (h : ∀ a b, f a = f b ↔ g a = g b) {xs ys : List α} : xs.map f = ys.map f ↔ xs.map g = ys.map g := by
  induction xs generalizing ys with
  | nil =>
    cases ys with
    | nil => exact iff_of_true rfl rfl
    | cons y ys => exact iff_of_false nofun nofun
  | cons x xs ih =>
    cases ys with
    | nil => exact iff_of_false nofun nofun
    | cons y ys =>
      rw [List.map_cons, List.map_cons, List.map_cons, List.map_cons, List.cons.injEq, List.cons.injEq,
        h, ih]

/-- How many lines a drawing has does not depend on the robot. -/
theorem Level.length_splitOn_drawing (level : Level) (robot robot' : Option Robot) :
    ((level.drawing robot).splitOn '\n').length = ((level.drawing robot').splitOn '\n').length := by
  by_cases hsize : 0 < level.size
  · rw [splitOn_drawing hsize, splitOn_drawing hsize, length_rows, length_rows]
  · rw [drawing_of_size_nonpos (Int.not_lt.1 hsize), drawing_of_size_nonpos (Int.not_lt.1 hsize)]

@[simp] theorem brokenLines_nil : brokenLines [] = [] := rfl

@[simp] theorem brokenLines_cons (line : List Char) (lines : List (List Char)) :
    brokenLines (line :: lines) = '\n' :: (line ++ brokenLines lines) := rfl

@[simp] theorem brokenLines_append (lines lines' : List (List Char)) :
    brokenLines (lines ++ lines') = brokenLines lines ++ brokenLines lines' :=
  List.flatMap_append

/-- A text after a line break is the lines of the text, each after a line break. -/
theorem brokenLines_splitOn (text : List Char) : brokenLines (text.splitOn '\n') = '\n' :: text := by
  obtain ⟨line, lines, hlines⟩ := List.exists_cons_of_ne_nil (List.splitOn_ne_nil '\n' text)
  rw [hlines, brokenLines, ← Notation.cons_intercalate_eq_flatMap, ← hlines, List.intercalate_splitOn]

theorem newline_notMem_of_mem_splitOn {text line : List Char} (h : line ∈ text.splitOn '\n') :
    '\n' ∉ line := by
  induction text generalizing line with
  | nil =>
    rw [List.splitOn_nil, List.mem_singleton] at h
    simp [h]
  | cons c text ih =>
    rw [List.splitOn_cons_eq_if_modifyHead] at h
    obtain ⟨first, more, hmore⟩ := List.exists_cons_of_ne_nil (List.splitOn_ne_nil '\n' text)
    rw [hmore] at h ih
    split at h
    · rcases List.mem_cons.1 h with rfl | h
      · exact List.not_mem_nil
      · exact ih h
    · rename_i hc
      rcases List.mem_cons.1 h with rfl | h
      · rw [List.mem_cons, not_or]
        exact ⟨fun heq => hc (beq_iff_eq.2 heq.symm), ih List.mem_cons_self⟩
      · exact ih (List.mem_cons_of_mem _ h)

/-- Lines that are put below a text are its last lines. -/
theorem splitOn_append_brokenLines {lines : List (List Char)} (hlines : ∀ line ∈ lines, '\n' ∉ line)
    (text : List Char) : (text ++ brokenLines lines).splitOn '\n' = text.splitOn '\n' ++ lines := by
  induction lines generalizing text with
  | nil => simp
  | cons line lines ih =>
    rw [List.forall_mem_cons] at hlines
    rw [brokenLines_cons, List.splitOn_append_cons_self, ih hlines.2, List.splitOn_eq_singleton hlines.1]
    rfl

namespace RunSummary

variable {s s' : RunSummary}

/-- The line that says how the run ended. -/
def endingLine (s : RunSummary) : List Char :=
  "Outcome: ".toList ++ (s.report.outcome.name.toList ++ " after ".toList
    ++ (decimal s.report.executed ++ '/' :: (decimal s.report.unrolledLength ++ " units".toList)))

/-- The line for the stars, if there are any. -/
def starsLines (s : RunSummary) : List (List Char) :=
  if 0 < s.stars then ["Stars: ".toList ++ decimal s.stars ++ "/3".toList] else []

/-- The lines for the hint, if it is shown. -/
def hintLines (s : RunSummary) : List (List Char) :=
  if !s.report.reachedTarget && s.level.hint ≠ "" then
    ("Hint: ".toList ++ s.level.hint.toList).splitOn '\n'
  else []

/-- The lines of a report below the title. -/
def lines (s : RunSummary) : List (List Char) :=
  ("Program: ".toList ++ s.program.text) :: [] ::
    ((s.level.drawing (some s.report.robot)).splitOn '\n' ++ [] ::
      (s.steps.map Step.line ++ [] :: "Trace:".toList ::
        (s.report.trace.toList.map Snapshot.line ++ [] :: s.endingLine :: (s.starsLines ++ s.hintLines))))

/-- A report is its title and the lines below it. -/
theorem page_eq (s : RunSummary) : s.page = s.level.title ++ brokenLines s.lines := by
  have hstars : brokenLines s.starsLines =
      if 0 < s.stars then "\nStars: ".toList ++ decimal s.stars ++ "/3".toList else [] := by
    have hword : "\nStars: ".toList = '\n' :: "Stars: ".toList := by decide
    rw [starsLines, apply_ite brokenLines, hword, brokenLines_cons, brokenLines_nil, List.append_nil]
    rfl
  have hhint : brokenLines s.hintLines =
      if !s.report.reachedTarget && s.level.hint ≠ "" then
        "\nHint: ".toList ++ s.level.hint.toList
      else [] := by
    have hword : "\nHint: ".toList = '\n' :: "Hint: ".toList := by decide
    rw [hintLines, apply_ite brokenLines, brokenLines_splitOn, hword]
    rfl
  have hprogram : "\nProgram: ".toList = '\n' :: "Program: ".toList := by decide
  have htrace : "\n\nTrace:".toList = '\n' :: '\n' :: "Trace:".toList := by decide
  have houtcome : "\n\nOutcome: ".toList = '\n' :: '\n' :: "Outcome: ".toList := by decide
  unfold page lines endingLine
  rw [← hstars, ← hhint, hprogram, htrace, houtcome]
  simp only [brokenLines_cons, brokenLines_append, brokenLines_splitOn,
    List.append_assoc, List.cons_append, List.nil_append]

theorem newline_notMem_endingLine (s : RunSummary) : '\n' ∉ s.endingLine := by
  have hname : '\n' ∉ s.report.outcome.name.toList := Outcome.notMem_name (by decide) _
  unfold endingLine
  simp [hname, newline_notMem_decimal]

theorem newline_notMem_of_mem_lines {line : List Char} (h : line ∈ s.lines) : '\n' ∉ line := by
  unfold lines at h
  simp only [List.mem_cons, List.mem_append, List.mem_map] at h
  rcases h with rfl | rfl | h | rfl | h | rfl | rfl | h | rfl | rfl | h | h
  · exact List.not_mem_append (by decide) s.program.newline_notMem_text
  · exact List.not_mem_nil
  · exact newline_notMem_of_mem_splitOn h
  · exact List.not_mem_nil
  · obtain ⟨step, -, rfl⟩ := h
    exact step.newline_notMem_line
  · exact List.not_mem_nil
  · decide
  · obtain ⟨snapshot, -, rfl⟩ := h
    exact snapshot.newline_notMem_line
  · exact List.not_mem_nil
  · exact s.newline_notMem_endingLine
  · unfold starsLines at h
    split at h
    · rw [List.mem_singleton.1 h]
      simp [newline_notMem_decimal]
    · cases h
  · unfold hintLines at h
    split at h
    · exact newline_notMem_of_mem_splitOn h
    · cases h

/-- The lines of a report. -/
theorem splitOn_page (s : RunSummary) :
    s.page.splitOn '\n' = s.level.title.splitOn '\n' ++ s.lines := by
  rw [page_eq, splitOn_append_brokenLines fun line => newline_notMem_of_mem_lines]

/-! ## What a report tells -/

theorem endingLine_eq_iff : s.endingLine = s'.endingLine ↔
    s.report.outcome = s'.report.outcome ∧ s.report.executed = s'.report.executed ∧
      s.report.unrolledLength = s'.report.unrolledLength := by
  have hafter : " after ".toList = ' ' :: "after ".toList := by decide
  unfold endingLine
  rw [hafter]
  constructor
  · intro h
    have houtcome := List.append_cancel_left h
    rw [List.append_assoc, List.append_assoc] at houtcome
    obtain ⟨hname, -, hcounts⟩ := append_cons_inj (Outcome.notMem_name (by decide) _)
      (Outcome.notMem_name (by decide) _) houtcome
    obtain ⟨hexecuted, hlength⟩ := decimal_append_cons_inj (by decide) (List.append_cancel_left hcounts)
    exact ⟨Outcome.name_injective (String.toList_inj.1 hname), hexecuted,
      decimal_injective (List.append_cancel_right hlength)⟩
  · rintro ⟨houtcome, hexecuted, hlength⟩
    rw [houtcome, hexecuted, hlength]

theorem starsLines_eq_iff : s.starsLines = s'.starsLines ↔ s.stars = s'.stars := by
  constructor
  · intro h
    unfold starsLines at h
    split at h <;> split at h
    · have hline := List.append_cancel_right (List.cons.inj h).1
      exact decimal_injective (List.append_cancel_left hline)
    · cases h
    · cases h
    · omega
  · intro h
    rw [starsLines, starsLines, h]

/-- Two reports have the same hint if they are about the same level and the runs ended alike. -/
theorem hintLines_congr (hlevel : s.level = s'.level) (houtcome : s.report.outcome = s'.report.outcome) :
    s.hintLines = s'.hintLines := by
  rw [hintLines, hintLines, RunReport.reachedTarget, RunReport.reachedTarget, hlevel, houtcome]

/-- Reports about the same level have the same lines exactly if they show the same. -/
theorem lines_eq_iff (hlevel : s.level = s'.level) :
    s.lines = s'.lines ↔
      s.steps.map Step.shown = s'.steps.map Step.shown ∧
      s.report.trace.toList.map Snapshot.shown = s'.report.trace.toList.map Snapshot.shown ∧
      s.report.outcome = s'.report.outcome ∧ s.report.executed = s'.report.executed ∧
      s.report.unrolledLength = s'.report.unrolledLength ∧ s.stars = s'.stars ∧
      s.program.forest.shape = s'.program.forest.shape ∧
      s.level.drawing (some s.report.robot) = s'.level.drawing (some s'.report.robot) := by
  have hsteps : ∀ steps : List Step, [] ∉ steps.map Step.line := by
    intro steps hmem
    obtain ⟨step, -, hline⟩ := List.mem_map.1 hmem
    exact step.line_ne_nil hline
  have htrace : ∀ trace : List Snapshot, [] ∉ trace.map Snapshot.line := by
    intro trace hmem
    obtain ⟨snapshot, -, hline⟩ := List.mem_map.1 hmem
    exact snapshot.line_ne_nil hline
  rw [← map_eq_map_iff_of_forall fun _ _ => Step.line_eq_iff,
    ← map_eq_map_iff_of_forall fun _ _ => Snapshot.line_eq_iff, ← Program.text_eq_iff,
    ← starsLines_eq_iff]
  constructor
  · intro h
    unfold lines at h
    obtain ⟨hprogram, hbelow⟩ := List.cons.inj h
    obtain ⟨hboard, hbelow⟩ := List.append_inj (List.cons.inj hbelow).2
      (by rw [hlevel]; exact s'.level.length_splitOn_drawing _ _)
    have hdrawing := congrArg ['\n'].intercalate hboard
    rw [List.intercalate_splitOn, List.intercalate_splitOn] at hdrawing
    obtain ⟨hstepLines, -, hbelow⟩ := append_cons_inj (hsteps _) (hsteps _) (List.cons.inj hbelow).2
    obtain ⟨htraceLines, -, hbelow⟩ := append_cons_inj (htrace _) (htrace _) (List.cons.inj hbelow).2
    obtain ⟨hending, hbelow⟩ := List.cons.inj hbelow
    obtain ⟨houtcome, hexecuted, hlength⟩ := endingLine_eq_iff.1 hending
    rw [hintLines_congr hlevel houtcome] at hbelow
    exact ⟨hstepLines, htraceLines, houtcome, hexecuted, hlength, List.append_cancel_right hbelow,
      List.append_cancel_left hprogram, hdrawing⟩
  · rintro ⟨hstepLines, htraceLines, houtcome, hexecuted, hlength, hstars, hprogram, hdrawing⟩
    have hending := endingLine_eq_iff.2 ⟨houtcome, hexecuted, hlength⟩
    unfold lines
    rw [hstepLines, htraceLines, hending, hstars, hprogram, hdrawing, hintLines_congr hlevel houtcome]

/-- Reports about the same level are equal exactly if they show the same. -/
theorem page_eq_iff_lines_eq (hlevel : s.level = s'.level) : s.page = s'.page ↔ s.lines = s'.lines := by
  constructor
  · intro h
    have hlines := s.splitOn_page
    rw [h, s'.splitOn_page, hlevel] at hlines
    exact (List.append_cancel_left hlines).symm
  · intro h
    rw [page_eq, page_eq, hlevel, h]

/-- The report of a run is its template filled in. It has the program, the rows of the board, every step,
every snapshot and the ending on lines of their own. Two reports about a level are equal exactly if they show
the same steps, the same history, the same ending and counts, the same stars, programs that are the same up to
the identity of their instructions, and the same drawing of the board. -/
theorem page_tells_run (level : Level) (p p' : Program) (r r' : RunReport) (steps steps' : List Step)
    (stars stars' : Nat) :
    let s : RunSummary := ⟨level, p, r, steps, stars⟩
    let s' : RunSummary := ⟨level, p', r', steps', stars'⟩
    reportTemplate.render s = s.page ∧ s.page.splitOn '\n' = level.title.splitOn '\n' ++ s.lines ∧
      (s.page = s'.page ↔
        steps.map Step.shown = steps'.map Step.shown ∧
        r.trace.toList.map Snapshot.shown = r'.trace.toList.map Snapshot.shown ∧
        r.outcome = r'.outcome ∧ r.executed = r'.executed ∧ r.unrolledLength = r'.unrolledLength ∧
        stars = stars' ∧ p.forest.shape = p'.forest.shape ∧
        level.drawing (some r.robot) = level.drawing (some r'.robot)) := by
  intro s s'
  have hlevel : s.level = s'.level := rfl
  exact ⟨s.render_reportTemplate, s.splitOn_page,
    (page_eq_iff_lines_eq hlevel).trans (lines_eq_iff hlevel)⟩

end RunSummary

end RobotPuzzle
