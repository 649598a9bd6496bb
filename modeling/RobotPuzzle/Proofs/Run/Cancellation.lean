import RobotPuzzle.Proofs.Run.Report

/-!
# When a run is cancelled

The caller of a run may reset the machine, bind levels and make runs of its own whenever it has control.
A run is cancelled exactly if one of the first two was done before the run had ended: then the machine
stays as the caller left it. Runs of the caller's own cannot do it, because the machine refuses them as
long as it is running.

## Main definitions

- `Note.TookOver` — the note of a reset or a bound level, at any depth of nested runs
- `Handover.Disturbed` — the machine was reset, or a level bound, during a handover
- `Script.append` — one script after another

## Main statements

- `Script.play_of_running` — on a machine that is running only resets and level loads have an effect
- `Machine.runScript_cancelled_iff` — a run is cancelled exactly if it was disturbed before its end
-/

namespace RobotPuzzle

/-- The machine was reset or a level was bound, by the caller or by the caller of a nested run. -/
inductive Note.TookOver : Note → Prop
  | reset : TookOver .reset
  | loadedLevel : TookOver .loadedLevel
  | nested {report : Option RunReport} {notes : Array Note} {note : Note} (hmem : note ∈ notes)
    (hnote : TookOver note) : TookOver (.ran report notes)

theorem Note.not_tookOver_paused (h : Highlight) : ¬ (Note.paused h).TookOver := nofun

theorem Note.not_tookOver_stepped (s : Step) : ¬ (Note.stepped s).TookOver := nofun

theorem Note.not_tookOver_viewed (view : View) : ¬ (Note.viewed view).TookOver := nofun

theorem Note.not_tookOver_refused : ¬ (Note.ran none #[]).TookOver := by
  rintro (_ | _ | ⟨hmem, -⟩)
  exact Array.not_mem_empty _ hmem

/-- During the handover the machine was reset or a level was bound. -/
def Handover.Disturbed (x : Handover Note) : Prop := ∃ note ∈ x.notes, note.TookOver

/-! ## Scripts on a running machine -/

theorem Machine.runScript_of_running {m : Machine} (hm : m.status = .running) (request : RunRequest)
    (script : Script) : m.runScript request script = (none, #[], m) := by
  apply Machine.run_of_start_eq_none
  rw [Option.eq_none_iff_forall_ne_some]
  rintro ⟨t, n⟩ hstart
  obtain ⟨-, -, -, -, hidle, -⟩ := Machine.start_eq_some_iff.1 hstart
  exact hidle hm

namespace Script

/-- What is played before the machine is taken over has no effect on a machine that is running: views
change nothing, and runs are refused. -/
theorem play_of_running (script : Script) (cue : Cue) {m : Machine} (hm : m.status = .running) :
    ((script.play cue m).2 = m ∧ ∀ note ∈ (script.play cue m).1, ¬ note.TookOver) ∨
      (m.generation < (script.play cue m).2.generation ∧
        (.reset ∈ (script.play cue m).1 ∨ .loadedLevel ∈ (script.play cue m).1)) := by
  -- after a reset the rest of the script cannot turn the generation back
  have hafter : ∀ (rest : Script) (n : Machine), m.generation < n.generation →
      m.generation < (rest.play cue n).2.generation := by
    intro rest n hn
    rcases rest.play_fenced cue n with hkept | htaken
    · rwa [hkept]
    · exact Nat.lt_trans hn htaken
  -- a note that stands before the others and tells of no takeover
  have hcons : ∀ (note : Note) (notes : List Note) (n : Machine), ¬ note.TookOver →
      ((n = m ∧ ∀ y ∈ notes, ¬ y.TookOver) ∨
        (m.generation < n.generation ∧ (.reset ∈ notes ∨ .loadedLevel ∈ notes))) →
      ((n = m ∧ ∀ y ∈ note :: notes, ¬ y.TookOver) ∨
        (m.generation < n.generation ∧ (.reset ∈ note :: notes ∨ .loadedLevel ∈ note :: notes))) := by
    rintro note notes n hnote (⟨hn, hnotes⟩ | ⟨hn, hmem⟩)
    · exact Or.inl ⟨hn, List.forall_mem_cons.2 ⟨hnote, hnotes⟩⟩
    · exact Or.inr ⟨hn, hmem.imp (List.mem_cons_of_mem _) (List.mem_cons_of_mem _)⟩
  induction script with
  | done => exact Or.inl ⟨rfl, by simp [play]⟩
  | reset c rest ih =>
    rw [play]
    split
    · exact Or.inr ⟨hafter rest _ (Nat.lt_succ_self _), Or.inl List.mem_cons_self⟩
    · exact ih
  | loadLevel c level rest ih =>
    rw [play]
    split
    · exact Or.inr ⟨hafter rest _ (Nat.lt_succ_self _), Or.inr List.mem_cons_self⟩
    · exact ih
  | view c rest ih =>
    rw [play]
    split
    · exact hcons _ _ _ (Note.not_tookOver_viewed _) ih
    · exact ih
  | run c request nested rest _ ih =>
    rw [play]
    split
    · have hrefused := Machine.runScript_of_running hm request nested
      rw [Machine.runScript] at hrefused
      simp only [hrefused]
      exact hcons _ _ _ Note.not_tookOver_refused ih
    · exact ih

/-- One script after another. -/
def append : Script → Script → Script
  | done, later => later
  | reset c rest, later => reset c (rest.append later)
  | loadLevel c level rest, later => loadLevel c level (rest.append later)
  | view c rest, later => view c (rest.append later)
  | run c request nested rest, later => run c request nested (rest.append later)

theorem play_append (s later : Script) (cue : Cue) (m : Machine) :
    (s.append later).play cue m =
      ((s.play cue m).1 ++ (later.play cue (s.play cue m).2).1, (later.play cue (s.play cue m).2).2) := by
  induction s generalizing m with
  | done => rfl
  | reset c rest ih | loadLevel c level rest ih | view c rest ih | run c request nested rest _ ih =>
    simp only [append, play]
    split
    · simp [ih]
    · exact ih _

end Script

/-! ## Handovers before the end of a run -/

theorem Event.not_tookOver_of_mem_notes {event : Event} {watch : Watch} {note : Note}
    (h : note ∈ event.notes watch) : ¬ note.TookOver := by
  unfold notes at h
  split at h
  · cases event with
    | paused u =>
      obtain rfl := List.mem_singleton.1 h
      exact Note.not_tookOver_paused u
    | stepped s =>
      obtain rfl := List.mem_singleton.1 h
      exact Note.not_tookOver_stepped s
  · cases h

/-- A handover of a running machine leaves it alone, or takes it over by a reset or a level load. -/
theorem Callback.handover_of_running {m : Machine} (hm : m.status = .running) (watch : Watch)
    (script : Script) (event : Event) {x : Handover Note}
    (hx : x = (Callback.watching watch script.play).handover event m) :
    (x.Keeps ∧ ¬ x.Disturbed) ∨ (x.Takes ∧ (.reset ∈ x.notes ∨ .loadedLevel ∈ x.notes)) := by
  subst hx
  unfold handover watching
  by_cases hwatched : event.watched watch
  · simp only [if_pos hwatched]
    rcases script.play_of_running event.cue hm with ⟨hkept, hnotes⟩ | ⟨htaken, hmem⟩
    · refine Or.inl ⟨hkept, ?_⟩
      rintro ⟨note, hnote, htook⟩
      rcases List.mem_append.1 hnote with hnote | hnote
      · exact Event.not_tookOver_of_mem_notes hnote htook
      · exact hnotes note hnote htook
    · exact Or.inr ⟨htaken, hmem.imp (List.mem_append_right _) (List.mem_append_right _)⟩
  · simp only [if_neg hwatched]
    exact Or.inl ⟨rfl, fun ⟨note, hnote, _⟩ => List.not_mem_nil hnote⟩

theorem Handover.disturbed_of_mem {x : Handover Note} (h : .reset ∈ x.notes ∨ .loadedLevel ∈ x.notes) :
    x.Disturbed := by
  rcases h with h | h
  · exact ⟨_, h, .reset⟩
  · exact ⟨_, h, .loadedLevel⟩

namespace Machine

variable {m n : Machine} {request : RunRequest} {script : Script} {r : RunReport}
  {notes : Array Note}

/-- An accepted run with a script takes its course. Before its end the machine is running whenever it is
handed over; it is left alone, or the handover is disturbed and takes it over. -/
theorem runScript_course (hrun : m.runScript request script = (some r, notes, n)) :
    ∃ level units,
      m.start request.program request.level = some (⟨m.generation + 1⟩, m.launched level units) ∧
      request.program.isEmpty = false ∧ request.program.unrollWithin m.maxUnits = .ok units ∧
      notes.toList = (m.scriptHandovers request script).flatMap (·.notes) ∧
      Course (Callback.watching request.watch script.play) level units (m.launched level units)
        (m.scriptHandovers request script) r n ∧
      ∀ x ∈ m.scriptHandovers request script, ¬ x.event.Ends → x.before.status = .running ∧
        ((x.Keeps ∧ ¬ x.Disturbed) ∨ (x.Takes ∧ (.reset ∈ x.notes ∨ .loadedLevel ∈ x.notes))) := by
  have hfenced : (Callback.watching request.watch script.play).Fenced :=
    Callback.fenced_watching script.play_fenced request.watch
  obtain ⟨level, units, hstart, hempty, hunits, hnotes, hcourse⟩ := run_course hfenced hrun
  refine ⟨level, units, hstart, hempty, hunits, hnotes, hcourse, ?_⟩
  intro x hx hends
  obtain ⟨hplayed, howns, -⟩ := hcourse.of_mem (underway_launched m level units) x hx
  have hrunning : x.before.status = .running := (howns hends).2
  exact ⟨hrunning, Callback.handover_of_running hrunning _ _ _ hplayed⟩

/-- A nested run is refused by a machine that is running, and nothing changes, whatever has been played
before it without taking the machine over. -/
theorem play_nested_of_running {x : Machine} (hx : x.status = .running) {cue : Cue}
    {sofar nested rest : Script} {own : RunRequest}
    (hnone : ∀ note ∈ (sofar.play cue x).1, ¬ note.TookOver) :
    (sofar.play cue x).2 = x ∧ x.runScript own nested = (none, #[], x) ∧
      (sofar.append (.run cue own nested rest)).play cue x =
        ((sofar.play cue x).1 ++ .ran none #[] :: (rest.play cue x).1, (rest.play cue x).2) := by
  have hrefused := runScript_of_running hx own nested
  have hkept : (sofar.play cue x).2 = x := by
    rcases sofar.play_of_running cue hx with ⟨hkept, -⟩ | ⟨-, hwhat | hwhat⟩
    · exact hkept
    · exact absurd Note.TookOver.reset (hnone _ hwhat)
    · exact absurd Note.TookOver.loadedLevel (hnone _ hwhat)
  refine ⟨hkept, hrefused, ?_⟩
  rw [runScript] at hrefused
  rw [Script.play_append, hkept]
  simp only [Script.play, if_true, hrefused]

/-- A run is cancelled exactly if during one of its handovers, other than that after the unit that ended
it, the machine was reset or a level was bound; a nested run cannot do so before the caller does. That
handover is the last: the run leaves the machine as it was handed back, and that is what is reported. The
commit after a pause is never turned down for want of a highlight. Before the machine is taken over, a run
that the caller attempts is refused, and the machine stays as it was handed over. -/
theorem runScript_cancelled_iff (hrun : m.runScript request script = (some r, notes, n)) :
    let xs := m.scriptHandovers request script
    notes.toList = xs.flatMap (·.notes) ∧
      (∀ x ∈ xs, Callback.watching request.watch script.play x.event x.before = (x.notes, x.after)) ∧
      (r.outcome = .cancelled ↔ ∃ x ∈ xs, ¬ x.event.Ends ∧ x.Disturbed) ∧
      (∀ x ∈ xs, ¬ x.event.Ends → (x.Disturbed ↔ .reset ∈ x.notes ∨ .loadedLevel ∈ x.notes)) ∧
      (∀ earlier x later, xs = earlier ++ x :: later → ¬ x.event.Ends → x.Disturbed →
        later = [] ∧ n = x.after ∧ r = n.report .cancelled) ∧
      (∀ x ∈ xs, ∀ u, x.event = .paused u →
        (x.after.commitStep ⟨m.generation + 1⟩).1 ≠ .notHighlighted) ∧
      (∀ x ∈ xs, ¬ x.event.Ends → ∀ (sofar nested rest : Script) (own : RunRequest),
        script = sofar.append (.run x.event.cue own nested rest) →
        (∀ note ∈ (sofar.play x.event.cue x.before).1, ¬ note.TookOver) →
        (sofar.play x.event.cue x.before).2 = x.before ∧
          x.before.runScript own nested = (none, #[], x.before) ∧
          script.play x.event.cue x.before =
            ((sofar.play x.event.cue x.before).1 ++
              .ran none #[] :: (rest.play x.event.cue x.before).1,
              (rest.play x.event.cue x.before).2)) := by
  intro xs
  obtain ⟨level, units, -, -, -, hnotes, hcourse, hcases⟩ := runScript_course hrun
  have hlast : ∀ earlier x later, xs = earlier ++ x :: later → ¬ x.event.Ends → x.Disturbed →
      later = [] ∧ n = x.after ∧ r = n.report .cancelled := by
    intro earlier x later hxs hends hdisturbed
    have hx : x ∈ xs := hxs ▸ List.mem_append_right _ List.mem_cons_self
    have hcourse : Course (Callback.watching request.watch script.play) level units
        (m.launched level units) (earlier ++ x :: later) r n := hxs ▸ hcourse
    rcases (hcases x hx hends).2 with ⟨-, hnot⟩ | ⟨htakes, -⟩
    · exact absurd hdisturbed hnot
    · exact hcourse.eq_of_takes hends htakes
  refine ⟨hnotes, ?_, ⟨?_, ?_⟩, ?_, hlast, ?_, ?_⟩
  · intro x hx
    obtain ⟨hplayed, -⟩ := hcourse.of_mem (underway_launched m level units) x hx
    exact congrArg (fun y : Handover Note => (y.notes, y.after)) hplayed.symm
  · intro hcancelled
    rcases hcourse.conclusion_cases with
      ⟨x, hx, hends, htakes, -⟩ | ⟨x, s, outcome, -, -, -, hne, -, rfl⟩ | ⟨-, -, hne⟩
    · have hxs : x ∈ xs := List.mem_of_getLast? hx
      rcases (hcases x hxs hends).2 with ⟨hkeeps, -⟩ | ⟨-, hwhat⟩
      · exact absurd hkeeps htakes.not_keeps
      · exact ⟨x, hxs, hends, Handover.disturbed_of_mem hwhat⟩
    · exact absurd hcancelled hne
    · exact absurd hcancelled hne
  · rintro ⟨x, hx, hends, hdisturbed⟩
    obtain ⟨earlier, later, hxs⟩ := List.append_of_mem hx
    obtain ⟨-, -, rfl⟩ := hlast earlier x later hxs hends hdisturbed
    rfl
  · intro x hx hends
    rcases (hcases x hx hends).2 with ⟨-, hnot⟩ | ⟨-, hwhat⟩
    · exact ⟨fun h => absurd h hnot, Handover.disturbed_of_mem⟩
    · exact ⟨fun _ => hwhat, Handover.disturbed_of_mem⟩
  · intro x hx u hu
    exact hcourse.commitStep_ne_notHighlighted (underway_launched m level units)
      (Callback.fenced_watching script.play_fenced request.watch) hx hu
  · intro x hx hends sofar nested rest own hscript hnone
    rw [hscript]
    exact play_nested_of_running (hcases x hx hends).1 hnone

/-- A caller that attempts a run of its own at the second pause and then resets the machine. -/
theorem runScript_cancelled_at_pause :
    let script : Script := .run ⟨.pause, 1⟩ firstSteps .done (.reset ⟨.pause, 1⟩ .done)
    ∃ r notes n, (new defaultMaxUnits).runScript firstSteps script = (some r, notes, n) ∧
      r = ⟨.cancelled, ⟨⟨2, 4⟩, 0⟩, #[], 0, 0⟩ ∧
      ∃ x ∈ (new defaultMaxUnits).scriptHandovers firstSteps script,
        ¬ x.event.Ends ∧ x.Disturbed ∧ n = x.after := by
  intro script
  have hreport : ((new defaultMaxUnits).runScript firstSteps script).1 =
      some ⟨.cancelled, ⟨⟨2, 4⟩, 0⟩, #[], 0, 0⟩ := by
    decide
  generalize hrun : (new defaultMaxUnits).runScript firstSteps script = out at hreport ⊢
  obtain ⟨r, notes, n⟩ := out
  obtain rfl : r = some _ := hreport
  obtain ⟨-, -, hcancelled, -, hlast, -⟩ := runScript_cancelled_iff hrun
  obtain ⟨x, hx, hends, hdisturbed⟩ := hcancelled.1 rfl
  obtain ⟨earlier, later, hsplit⟩ := List.append_of_mem hx
  obtain ⟨-, hn, -⟩ := hlast earlier x later hsplit hends hdisturbed
  exact ⟨_, notes, n, rfl, rfl, x, hx, hends, hdisturbed, hn⟩

end Machine

end RobotPuzzle
