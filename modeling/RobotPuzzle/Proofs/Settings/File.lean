import RobotPuzzle.Proofs.Disk.Replacement
import RobotPuzzle.Proofs.Settings.Text

/-!
# Files of settings

Settings that are refused are never written, and never given out by a file whatever it holds. Accepted ones
are in their file afterwards, alone in its directory, and are loaded from it as they were. There is one
condition: the file is written under a temporary name first, and there has to be one. A name of two points
and an extension has none, as its temporary name is that of the directory above.

## Main statements

- `Settings.valid_of_load` — settings that are loaded are accepted
- `Settings.load_of_written` — settings are loaded from their text
- `Settings.save_and_load` — what is saved and loaded, for all settings and paths
-/

namespace RobotPuzzle.Settings

variable {s t : Settings} {d made : Disk} {path : String} {dir : Place} {name : List Char}
  {front : List (List Char)}

theorem valid_standard : standard.Valid := (fault?_eq_none_iff standard).1 fault?_standard

/-- Whatever a file holds, the settings that are loaded are accepted. -/
theorem valid_of_load (h : load d path = .ok t) : t.Valid := by
  unfold load at h
  split at h
  · obtain rfl := Except.ok.inj h
    exact valid_standard
  · split at h
    · cases h
    · split at h
      · cases h
      · split at h
        · cases h
        · rename_i hfault
          obtain rfl := Except.ok.inj h
          exact (fault?_eq_none_iff _).1 hfault

/-- Settings are loaded from a file that holds their text. -/
theorem load_of_written (hs : s.Valid) (hstorable : s.Storable) {p : Place} (hresolve : d.resolve path = .ok p)
    (hfile : d.file? p = some ⟨p, (String.ofList s.write).toUTF8⟩) : load d path = .ok s := by
  obtain ⟨hcontains, hread⟩ := Disk.read_of_file? hresolve hfile
  rw [load, hcontains, hread]
  dsimp only
  rw [String.toList_ofList, read?_write hstorable]
  dsimp only
  rw [(fault?_eq_none_iff s).2 hs]
  rfl

/-! ## Saving and loading -/

/-- Refused settings are not saved, and the disk stays as it is; and no file whatever gives out settings that
are refused. Accepted settings that a file can hold are saved under a path that names a file in an empty
directory, be it there or made for the file, exactly if the file has a temporary one. Then the file is all that
is in the directory, it is all that is new on the disk, and it is loaded as the settings that were saved.
Otherwise nothing is written. -/
theorem save_and_load (s : Settings) (d : Disk) (path : String) :
    (∀ fault, s.fault? = some fault → save d path s = (.error (.refused fault), d)) ∧
    (∀ t, load d path = .ok t → t.Valid) ∧
    (∀ dir name, d.target? path = .ok (some (dir.down name)) → Path.endsInSlash path = false → d.Vacant dir →
      d.Awaits path d dir name) ∧
    (s.Valid → s.Storable → ∀ made dir name, d.Awaits path made dir name →
      (Disk.Stages path name.toList → ∃ after, save d path s = (.ok (), after) ∧
        after = { made with files := made.files ++ [⟨dir.down name, (String.ofList s.write).toUTF8⟩] } ∧
        (∀ other, after.isThere (dir.down other) = true ↔ other = name) ∧ load after path = .ok s) ∧
      (¬ Disk.Stages path name.toList →
        ∃ e, save d path s = (.error (.unwritable (.temporary (Path.temporary path) e)), made))) := by
  refine ⟨?_, fun t => valid_of_load, fun dir name => .of_target?, ?_⟩
  · intro fault hfault
    rw [save, hfault]
  · intro hs hstorable made dir name h
    have hfault := (fault?_eq_none_iff s).2 hs
    constructor
    · intro hstages
      obtain ⟨hresolve, hput⟩ := h.resolve_put (String.ofList s.write).toUTF8
      refine ⟨_, ?_, hput, ?_, load_of_written hs hstorable hresolve (Disk.file?_put_self _ _ _)⟩
      · rw [save, hfault]
        dsimp only
        rw [h.replaceFile_of_stages hstages]
      · intro other
        rw [hput, h.vacant.isThere_iff]
    · intro hstages
      obtain ⟨e, herror⟩ := h.replaceFile_of_not_stages hstages (String.ofList s.write)
      refine ⟨e, ?_⟩
      rw [save, hfault]
      dsimp only
      rw [herror]

theorem storable_standard : standard.Storable where
  stepDelay := by decide
  maxUnits := by decide
  defaultCount := by decide
  countChoices := by decide

/-- A catalog with quotes, apostrophes, a backslash and a line break in its path, and one repeat count. -/
theorem save_and_load_quoted :
    let s := { Settings.standard with
      stepDelay := 0, countChoices := [7], catalog := some "le'''vels\"\"\".js\\on\n" }
    ∃ after, save .empty "robogrid.toml" s = (.ok (), after) ∧ after.files.length = 1 ∧
      load after "robogrid.toml" = .ok s := by
  intro s
  have hvalid : s.Valid := (fault?_eq_none_iff s).1 (by decide)
  have hstorable : s.Storable :=
    { stepDelay := by decide, maxUnits := by decide, defaultCount := by decide, countChoices := by decide }
  obtain ⟨-, -, hexisting, hsave⟩ := save_and_load s .empty "robogrid.toml"
  have hawaits := hexisting .here "robogrid.toml" (by decide) (by decide) fun name => rfl
  have hstages : Disk.Stages "robogrid.toml" "robogrid.toml".toList :=
    { ne_above := by decide, short := by decide, shortPath := by decide }
  obtain ⟨after, hsaved, hafter, -, hloaded⟩ := (hsave hvalid hstorable _ _ _ hawaits).1 hstages
  exact ⟨after, hsaved, by rw [hafter]; rfl, hloaded⟩

/-- The temporary file of such a name would be the directory above, so that nothing is saved. -/
theorem not_saved_of_two_points :
    standard.Valid ∧ standard.Storable ∧
      Disk.empty.target? "..x" = .ok (some (Place.here.down "..x")) ∧ Disk.empty.Vacant .here ∧
      save .empty "..x" standard = (.error (.unwritable (.temporary ".." .isDirectory)), .empty) :=
  ⟨valid_standard, storable_standard, by decide, fun name => rfl, by decide⟩

end RobotPuzzle.Settings
