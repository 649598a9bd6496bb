import RobotPuzzle.Disk.Writing
import RobotPuzzle.Proofs.Disk.Walks

/-!
# Replacing a file

A file is written under its temporary name and moved to its own, in a directory that has neither. If there can
be a file under the temporary name, the disk has the file afterwards and nothing else that is new; if there
cannot, the disk is left with the directories made for the file.

## Main definitions

- `Disk.Vacant` — a directory with nothing in it
- `Disk.Awaits` — a path gives a name to a file in an empty directory

## Main statements

- `Disk.Names.makeDirectories_directories` — nothing is made if the directory of a path is there
- `Disk.read_of_file?` — a file is read as the text that was written to it
- `Disk.Awaits.replaceFile_of_stages`, `Disk.Awaits.replaceFile_of_not_stages` — how the replacement ends
-/

namespace RobotPuzzle.Disk

variable {d made : Disk} {p dir : Place} {name : List Char} {front : List (List Char)} {path : String}
  {contents : ByteArray}

/-! ## Directories -/

/-- What a path leads to is there, so that there is no directory to be made for the path. -/
theorem makeDirectory_of_resolve (h : d.resolve path = .ok p) : d.makeDirectory path = .error .alreadyExists := by
  obtain ⟨target, htarget, hthere⟩ := exists_target?_of_resolve h
  rw [makeDirectory, htarget]
  cases target with
  | none => rfl
  | some q => exact if_pos (hthere q rfl)

theorem ensureDirectory_of_resolve (h : d.resolve path = .ok p) (hp : d.isDirectory p = true) :
    d.ensureDirectory path = .ok d := by
  have hleads : d.leadsToDirectory path = true := by
    rw [leadsToDirectory, h]
    exact hp
  rw [ensureDirectory, makeDirectory_of_resolve h]
  exact if_pos hleads

/-- Nothing is made if the directory of a path is there. -/
theorem Names.makeDirectories_directories (h : d.Names path front name dir) :
    d.makeDirectories (Path.directories path) = (.ok (), d) := by
  have hensure := ensureDirectory_of_resolve h.resolve_parentText h.isDirectory
  have hne : Path.directories path ≠ [] := by
    rw [Path.directories]
    split
    · exact List.cons_ne_nil _ _
    · assumption
  obtain ⟨first, outer, hcons⟩ := List.exists_cons_of_ne_nil hne
  have hfirst : Path.parentText path = first := by rw [Path.parentText, hcons, List.headD_cons]
  rw [hfirst] at hensure
  rw [hcons, makeDirectories, hensure]

/-! ## Files -/

theorem addDirectories_of_subset {places : List Place} (h : ∀ q ∈ places, q ∈ d.directories) :
    d.addDirectories places = d := by
  have hfold : places.foldr List.insert d.directories = d.directories := by
    induction places with
    | nil => rfl
    | cons q places ih =>
      rw [List.forall_mem_cons] at h
      rw [List.foldr_cons, ih h.2, List.insert_of_mem h.1]
  rw [addDirectories, hfold]

theorem filter_files_of_isFile_eq_false (h : d.isFile p = false) : d.files.filter (·.place ≠ p) = d.files := by
  rw [isFile, Option.isSome_eq_false_iff, Option.isNone_iff_eq_none, file?, List.find?_eq_none] at h
  exact List.filter_eq_self.2 fun f hf => by simpa using h f hf

/-- A file at a place that nothing is at is one file more. -/
theorem put_eq (hrooted : d.IsRooted p) (hfile : d.isFile p = false) (contents : ByteArray) :
    d.put p contents = { d with files := d.files ++ [⟨p, contents⟩] } := by
  rw [put, addDirectories_of_subset hrooted, filter_files_of_isFile_eq_false hfile]

theorem erase_put (hrooted : d.IsRooted p) (hfile : d.isFile p = false) (contents : ByteArray) :
    (d.put p contents).erase p = d := by
  rw [put_eq hrooted hfile, erase]
  dsimp only
  rw [List.filter_append, filter_files_of_isFile_eq_false hfile]
  simp

theorem eq_false_of_isThere_eq_false (h : d.isThere p = false) :
    d.isFile p = false ∧ d.isDirectory p = false := by
  simpa [isThere] using h

theorem extends_put (hrooted : d.IsRooted p) (hthere : d.isThere p = false) (contents : ByteArray) :
    d.Extends (d.put p contents) := by
  have hfile : ∀ q, d.isThere q = true → (d.put p contents).isFile q = d.isFile q := by
    intro q hq
    have hne : q ≠ p := by
      rintro rfl
      exact Bool.false_ne_true (hthere.symm.trans hq)
    rw [isFile, isFile, file?_put_of_ne d contents hne]
  refine ⟨fun q hq => ?_, hfile⟩
  have hdirectory : (d.put p contents).isDirectory q = d.isDirectory q := by
    rw [put_eq hrooted (eq_false_of_isThere_eq_false hthere).1]
    rfl
  rw [isThere, hfile q hq, hdirectory]
  exact hq

/-- A file that a text was written to is read as that text. -/
theorem read_of_file? {text : String} (hresolve : d.resolve path = .ok p)
    (hfile : d.file? p = some ⟨p, text.toUTF8⟩) : d.contains path = true ∧ d.read path = .ok text := by
  have hdecode : String.fromUTF8? text.toUTF8 = some text := dif_pos text.isValidUTF8
  rw [contains, read, hresolve]
  refine ⟨rfl, ?_⟩
  dsimp only
  rw [hfile]
  dsimp only
  rw [hdecode]

/-! ## Names that nothing is at -/

theorem Names.endsInSlash_eq_false (h : d.Names path front name dir) : Path.endsInSlash path = false :=
  Path.endsInSlash_eq_false h.endsIn.parts_eq (Path.isComponent_iff.1 h.endsIn.isComponent_name).1

/-- A file is written where nothing is. -/
theorem Names.writeFile (h : d.Names path front name dir)
    (hthere : d.isThere (dir.down (String.ofList name)) = false) (contents : ByteArray) :
    d.writeFile path contents = .ok (d.put (dir.down (String.ofList name)) contents) := by
  rw [Disk.writeFile, h.target?]
  exact if_neg (by simp [(eq_false_of_isThere_eq_false hthere).2, h.endsInSlash_eq_false])

theorem Names.rename {source : String} {front' : List (List Char)} {name' : List Char} {dir' : Place} {f : File}
    (hsource : d.Names source front' name' dir') (h : d.Names path front name dir)
    (hfile : d.file? (dir'.down (String.ofList name')) = some f)
    (hdirectory : d.isDirectory (dir.down (String.ofList name)) = false) :
    d.rename source path =
      .ok ((d.erase (dir'.down (String.ofList name'))).put (dir.down (String.ofList name)) f.contents) := by
  rw [Disk.rename, hsource.target?, h.target?]
  dsimp only [bind, Except.bind]
  rw [hfile]
  dsimp only
  rw [if_neg (by simp [h.endsInSlash_eq_false]), if_neg (by simp [hdirectory])]

/-! ## Empty directories -/

theorem down_inj {q : Place} {m n : String} : p.down m = q.down n ↔ p = q ∧ m = n := by
  cases p
  cases q
  simp only [Place.down, Place.mk.injEq, List.cons.injEq]
  exact ⟨fun ⟨ha, hn, hs⟩ => ⟨⟨ha, hs⟩, hn⟩, fun ⟨⟨ha, hs⟩, hn⟩ => ⟨ha, hn, hs⟩⟩

/-- Nothing is in the directory. -/
def Vacant (d : Disk) (dir : Place) : Prop := ∀ name, d.isThere (dir.down name) = false

/-- The path gives a name to a file in an empty directory, once the directories it lies in are made. -/
structure Awaits (d : Disk) (path : String) (made : Disk) (dir : Place) (name : String) : Prop where
  directories : d.makeDirectories (Path.directories path) = (.ok (), made)
  target : made.target? path = .ok (some (dir.down name))
  noSlash : Path.endsInSlash path = false
  vacant : made.Vacant dir

namespace Awaits

theorem names {name : String} (h : d.Awaits path made dir name) :
    ∃ front, made.Names path front name.toList dir := by
  obtain ⟨front, name', dir', hnames, hplace⟩ := exists_names_of_target? h.target h.noSlash
  obtain ⟨rfl, rfl⟩ := down_inj.1 hplace
  rw [String.toList_ofList]
  exact ⟨front, hnames⟩

/-- No directories are made if the empty directory is there. -/
theorem of_target? {name : String} (htarget : d.target? path = .ok (some (dir.down name)))
    (hslash : Path.endsInSlash path = false) (hvacant : d.Vacant dir) : d.Awaits path d dir name := by
  obtain ⟨front, name', dir', hnames, -⟩ := exists_names_of_target? htarget hslash
  exact ⟨hnames.makeDirectories_directories, htarget, hslash, hvacant⟩

end Awaits

/-- With one more file in it the file is all that is in the directory. -/
theorem Vacant.isThere_iff (h : d.Vacant dir) (name other : String) (contents : ByteArray) :
    ({ d with files := d.files ++ [⟨dir.down name, contents⟩] } : Disk).isThere (dir.down other) = true ↔
      other = name := by
  have hnothing := eq_false_of_isThere_eq_false (h other)
  have hnone : d.file? (dir.down other) = none := by
    simpa [isFile] using hnothing.1
  have hplace : dir.down name = dir.down other ↔ other = name := by
    rw [down_inj]
    exact ⟨fun h => h.2.symm, fun h => ⟨rfl, h.symm⟩⟩
  rw [file?] at hnone
  have hdirectory : ({ d with files := d.files ++ [⟨dir.down name, contents⟩] } : Disk).isDirectory
      (dir.down other) = false := hnothing.2
  rw [isThere, hdirectory, isFile, file?, List.find?_append, hnone]
  by_cases hother : other = name
  · simp [hother]
  · simp [hother, hplace]

namespace Awaits

variable {name : String}

/-- The file is there afterwards, and the path leads to it. -/
theorem resolve_put (h : d.Awaits path made dir name) (contents : ByteArray) :
    (made.put (dir.down name) contents).resolve path = .ok (dir.down name) ∧
      made.put (dir.down name) contents = { made with files := made.files ++ [⟨dir.down name, contents⟩] } := by
  obtain ⟨front, hnames⟩ := h.names
  have hrooted := hnames.isRooted
  rw [String.ofList_toList] at hrooted
  have hput := put_eq hrooted (eq_false_of_isThere_eq_false (h.vacant name)).1 contents
  have hthere : (made.put (dir.down name) contents).isThere (dir.down name) = true := by
    rw [hput, h.vacant.isThere_iff]
  have hresolve := (hnames.extend (extends_put hrooted (h.vacant name) contents)).resolve
  rw [String.ofList_toList] at hresolve
  exact ⟨hresolve hthere, hput⟩

/-- With a temporary file the disk has the file afterwards, and is as before otherwise. -/
theorem replaceFile_of_stages (h : d.Awaits path made dir name) (hstages : Stages path name.toList) (text : String) :
    d.replaceFile path text = (.ok (), made.put (dir.down name) text.toUTF8) := by
  obtain ⟨front, hnames⟩ := h.names
  have htemporary := hnames.temporary hstages
  have hthere := h.vacant (String.ofList (Path.temporaryName name.toList))
  have hnothing := eq_false_of_isThere_eq_false hthere
  have hextends := extends_put htemporary.isRooted hthere text.toUTF8
  have hdirectory : (made.put (dir.down (String.ofList (Path.temporaryName name.toList))) text.toUTF8).isDirectory
      (dir.down (String.ofList name.toList)) = false := by
    rw [put_eq htemporary.isRooted hnothing.1]
    exact (eq_false_of_isThere_eq_false (h.vacant _)).2
  have hrename := (htemporary.extend hextends).rename (hnames.extend hextends)
    (file?_put_self made _ text.toUTF8) hdirectory
  rw [erase_put htemporary.isRooted hnothing.1, String.ofList_toList] at hrename
  rw [replaceFile, h.directories]
  dsimp only
  rw [htemporary.writeFile hthere]
  dsimp only
  rw [hrename]

/-- Without one nothing but the directories is made. -/
theorem replaceFile_of_not_stages (h : d.Awaits path made dir name) (hstages : ¬ Stages path name.toList)
    (text : String) : ∃ e, d.replaceFile path text = (.error (.temporary (Path.temporary path) e), made) := by
  obtain ⟨front, hnames⟩ := h.names
  have hwrite : ∃ e, made.writeFile (Path.temporary path) text.toUTF8 = .error e := by
    rcases hnames.target?_temporary hstages with htarget | ⟨e, htarget⟩
    · refine ⟨.isDirectory, ?_⟩
      rw [writeFile, htarget]
      rfl
    · refine ⟨e, ?_⟩
      rw [writeFile, htarget]
      rfl
  obtain ⟨e, hwrite⟩ := hwrite
  refine ⟨e, ?_⟩
  rw [replaceFile, h.directories]
  dsimp only
  rw [hwrite]

end Awaits

end RobotPuzzle.Disk
