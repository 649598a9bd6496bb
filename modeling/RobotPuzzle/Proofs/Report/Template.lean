import RobotPuzzle.Report.Text
import RobotPuzzle.Text.CharClass

/-!
# Reports as templates

The pages are laid out by templates: texts with gaps for values, and parts that are left out or repeated. A
tag with a dash takes away the blank space of the text before it, and only of the text: no value is trimmed.
So where lines begin and end depends on the tags, and differently for parts that are left out. The line break
at the end of a template is no part of it. Filling the templates gives the pages.

## Main definitions

- `Template` — a text with gaps, with `Template.render`
- `reportTemplate`, `levelTemplate` — the layout of the two pages

## Main statements

- `RunSummary.render_reportTemplate`, `Level.render_levelTemplate` — the pages are the filled templates
-/

namespace RobotPuzzle

/-- How a tag begins: a dash takes away the blank space before it. -/
inductive Edge
  | plain
  | dash
deriving DecidableEq, Repr

/-- A text with gaps for what is known of a `σ`. A conditional part and a repeated part stand between two
tags. -/
inductive Template : Type → Type 1
  | done {σ : Type} : Template σ
  | text {σ : Type} (chars : List Char) (next : Template σ) : Template σ
  | value {σ : Type} (shown : σ → List Char) (next : Template σ) : Template σ
  | when {σ : Type} (first : Edge) (condition : σ → Bool) (body : Template σ) (last : Edge)
      (next : Template σ) : Template σ
  | each {σ τ : Type} (first : Edge) (items : σ → List τ) (body : Template τ) (last : Edge)
      (next : Template σ) : Template σ

/-- The text before a tag as it is left by the tag. -/
def Edge.cut : Edge → List Char → List Char
  | plain, chars => chars
  | dash, chars => (chars.reverse.dropWhile isWhiteSpace).reverse

@[simp] theorem Edge.cut_plain (chars : List Char) : plain.cut chars = chars := rfl

namespace Template

/-- How the first tag begins, if there is no text before it; `last` is the tag after the end. -/
def edge (last : Edge) : {σ : Type} → Template σ → Edge
  | _, done => last
  | _, text .. => .plain
  | _, value .. => .plain
  | _, when first .. => first
  | _, each first .. => first

/-- The template filled in, with the tag `last` after its end. -/
def fill (last : Edge) : {σ : Type} → Template σ → σ → List Char
  | _, done, _ => []
  | _, text chars next, s => (next.edge last).cut chars ++ next.fill last s
  | _, value shown next, s => shown s ++ next.fill last s
  | _, when _ condition body lastOfBody next, s =>
    (if condition s then body.fill lastOfBody s else []) ++ next.fill last s
  | _, each _ items body lastOfBody next, s =>
    (items s).flatMap (body.fill lastOfBody) ++ next.fill last s

/-- The template filled in. -/
def render {σ : Type} (t : Template σ) (s : σ) : List Char := t.fill .plain s

section

variable {σ τ : Type} (last first lastOfBody : Edge) (chars : List Char) (shown : σ → List Char)
  (condition : σ → Bool) (items : σ → List τ) (body next : Template σ) (item : Template τ) (s : σ)

@[simp] theorem edge_done : (done : Template σ).edge last = last := rfl

@[simp] theorem edge_text : (text chars next).edge last = .plain := rfl

@[simp] theorem edge_value : (value shown next).edge last = .plain := rfl

@[simp] theorem edge_when : (when first condition body lastOfBody next).edge last = first := rfl

@[simp] theorem edge_each : (each first items item lastOfBody next).edge last = first := rfl

@[simp] theorem fill_done : done.fill last s = [] := rfl

@[simp] theorem fill_text :
    (text chars next).fill last s = (next.edge last).cut chars ++ next.fill last s := rfl

@[simp] theorem fill_value : (value shown next).fill last s = shown s ++ next.fill last s := rfl

@[simp] theorem fill_when :
    (when first condition body lastOfBody next).fill last s =
      (if condition s then body.fill lastOfBody s else []) ++ next.fill last s := rfl

@[simp] theorem fill_each :
    (each first items item lastOfBody next).fill last s =
      (items s).flatMap (item.fill lastOfBody) ++ next.fill last s := rfl

end

end Template

/-! ## The report of a run -/

/-- The layout of a step. -/
def stepTemplate : Template Step :=
  .text "\n".toList <| .value (decimal ·.index) <| .text ". ".toList <|
  .value (·.beat.kind.name.toList) <|
  .when .plain (·.beat.marker) (.text " (loop)".toList .done) .plain <|
  .text "  ".toList <| .value (·.effect.words) <| .text "\n".toList .done

/-- The layout of a snapshot. -/
def snapshotTemplate : Template Snapshot :=
  .text "\n  (".toList <| .value (signedDecimal ·.position.x) <| .text ", ".toList <|
  .value (signedDecimal ·.position.y) <| .text ") ".toList <|
  .value (fun s => (Direction.ofDegrees s.rotation).name.toList) <|
  .when .plain (·.action.isSome)
    (.text " [".toList <| .value (·.action.elim [] (·.name.toList)) <| .text "]".toList .done) .plain <|
  .text "\n".toList .done

/-- The layout of the stars. -/
def starsTemplate : Template RunSummary :=
  .text "\nStars: ".toList <| .value (decimal ·.stars) <| .text "/3\n".toList .done

/-- The layout of the hint in a report. -/
def hintTemplate : Template RunSummary :=
  .text "\nHint: ".toList <| .value (·.level.hint.toList) <| .text "\n".toList .done

/-- The layout of the report of a run. -/
def reportTemplate : Template RunSummary :=
  .text "Level ".toList <| .value (decimal ·.level.id) <| .text ": ".toList <|
  .value (·.level.name.toList) <|
  .text "\nProgram: ".toList <| .value (·.program.text) <| .text "\n\n".toList <|
  .value (fun s => s.level.drawing (some s.report.robot)) <| .text "\n".toList <|
  .each .plain (·.steps) stepTemplate .dash <|
  .text "\n\nTrace:\n".toList <|
  .each .dash (·.report.trace.toList) snapshotTemplate .dash <|
  .text "\n\nOutcome: ".toList <| .value (·.report.outcome.name.toList) <| .text " after ".toList <|
  .value (decimal ·.report.executed) <| .text "/".toList <|
  .value (decimal ·.report.unrolledLength) <| .text " units\n".toList <|
  .when .dash (fun s => 0 < s.stars) starsTemplate .dash <|
  .text "\n".toList <|
  .when .dash (fun s => !s.report.reachedTarget && s.level.hint ≠ "") hintTemplate .dash .done

/-- A line break before a tag with a dash is gone. -/
theorem cut_newline : Edge.dash.cut ['\n'] = [] := by decide

theorem fill_stepTemplate (s : Step) : stepTemplate.fill .dash s = '\n' :: s.line := by
  obtain ⟨index, ⟨id, kind, marker⟩, effect, outcome⟩ := s
  unfold stepTemplate Step.line
  cases marker <;> simp [cut_newline]

theorem fill_snapshotTemplate (s : Snapshot) : snapshotTemplate.fill .dash s = '\n' :: s.line := by
  obtain ⟨position, rotation, action⟩ := s
  unfold snapshotTemplate Snapshot.line Cell.text
  cases action <;> simp [cut_newline]

theorem fill_starsTemplate (s : RunSummary) :
    starsTemplate.fill .dash s = "\nStars: ".toList ++ decimal s.stars ++ "/3".toList := by
  have hend : Edge.dash.cut ['/', '3', '\n'] = ['/', '3'] := by decide
  unfold starsTemplate
  simp [hend]

theorem fill_hintTemplate (s : RunSummary) :
    hintTemplate.fill .dash s = "\nHint: ".toList ++ s.level.hint.toList := by
  unfold hintTemplate
  simp [cut_newline]

theorem RunSummary.render_reportTemplate (s : RunSummary) : reportTemplate.render s = s.page := by
  have hsteps : s.steps.flatMap (stepTemplate.fill .dash) = brokenLines (s.steps.map Step.line) := by
    rw [brokenLines, List.flatMap_map, funext fill_stepTemplate]
  have hsnapshots : s.report.trace.toList.flatMap (snapshotTemplate.fill .dash) =
      brokenLines (s.report.trace.toList.map Snapshot.line) := by
    rw [brokenLines, List.flatMap_map, funext fill_snapshotTemplate]
  have htrace : Edge.dash.cut "\n\nTrace:\n".toList = "\n\nTrace:".toList := by decide
  have hunits : Edge.dash.cut " units\n".toList = " units".toList := by decide
  have hbetween : Edge.dash.cut "\n".toList = [] := cut_newline
  unfold reportTemplate Template.render page Level.title
  simp only [Template.fill_text, Template.fill_value, Template.fill_when, Template.fill_each,
    Template.fill_done, Template.edge_value, Template.edge_when, Template.edge_each, hsteps, hsnapshots,
    fill_starsTemplate, fill_hintTemplate, decide_eq_true_eq]
  rw [htrace, hunits, hbetween]
  generalize (if 0 < s.stars then "\nStars: ".toList ++ decimal s.stars ++ "/3".toList else []) = stars
  generalize (if (!s.report.reachedTarget && decide (s.level.hint ≠ "")) = true then
    "\nHint: ".toList ++ s.level.hint.toList else []) = hint
  simp

/-! ## The description of a level -/

/-- The layout of the hint in a description. -/
def levelHintTemplate : Template Level :=
  .text "\n\nHint: ".toList <| .value (·.hint.toList) <| .text "\n".toList .done

/-- The layout of the description of a level. -/
def levelTemplate : Template Level :=
  .text "Level ".toList <| .value (decimal ·.id) <| .text ": ".toList <| .value (·.name.toList) <|
  .text "\nGrid ".toList <| .value (signedDecimal ·.size) <| .text "x".toList <|
  .value (signedDecimal ·.size) <| .text ", facing ".toList <| .value (·.facing.name.toList) <|
  .text ", optimal ".toList <| .value (decimal ·.optimal) <|
  .text "\nCommands: ".toList <|
  .value (fun level => [',', ' '].intercalate (level.palette.map (·.name.toList))) <|
  .text "\n\n".toList <| .value (·.drawing none) <| .text "\n".toList <|
  .when .dash (·.hint ≠ "") levelHintTemplate .dash .done

theorem fill_levelHintTemplate (level : Level) :
    levelHintTemplate.fill .dash level = "\n\nHint: ".toList ++ level.hint.toList := by
  unfold levelHintTemplate
  simp [cut_newline]

theorem Level.render_levelTemplate (level : Level) : levelTemplate.render level = level.page := by
  have hbefore : Edge.dash.cut "\n".toList = [] := cut_newline
  unfold levelTemplate Template.render page Level.title
  simp only [Template.fill_text, Template.fill_value, Template.fill_when, Template.fill_done,
    Template.edge_value, Template.edge_when, fill_levelHintTemplate, decide_eq_true_eq]
  rw [hbefore]
  generalize (if level.hint ≠ "" then "\n\nHint: ".toList ++ level.hint.toList else []) = hint
  simp

end RobotPuzzle
