import Mathlib.Data.List.Induction
import RobotPuzzle.Disk.Walk
import RobotPuzzle.Proofs.Disk.Paths

/-!
# Walks to a place

A walk goes from directory to directory, and the directories above the place it leads to are all there. So it
goes the same way when more is put on the disk.

## Main definitions

- `Disk.Leads` — the walks that come to an end
- `Disk.Extends` — a disk with all that another one has
- `Disk.Names` — a path gives a name to a place in some directory

## Main statements

- `Disk.exists_names_of_target?` — every path that leads to a place for a file gives it a name
- `Disk.Names.mem_directories` — the directories above the place are those of the disk
- `Disk.Names.temporary` — the temporary file of a path is named in the same directory
- `Disk.Names.resolve_parentText` — the directory of a path is the one the name is in
-/

namespace RobotPuzzle.Disk

variable {d e : Disk} {p q dir : Place} {part name : List Char} {parts front : List (List Char)} {path : String}

/-! ## Walks -/

/-- The walk along some parts leads from a place to another. Each part is taken from a directory. -/
inductive Leads (d : Disk) : Place → List (List Char) → Place → Prop
  | nil (p : Place) : Leads d p [] p
  | cons {p q : Place} {part : List Char} {parts : List (List Char)} (hfile : d.isFile p = false)
    (hshort : isLong part = false) (hthere : d.isThere (p.follow part) = true)
    (hrest : Leads d (p.follow part) parts q) : Leads d p (part :: parts) q

theorem step_eq_ok_iff :
    d.step p part = .ok q ↔
      d.isFile p = false ∧ isLong part = false ∧ d.isThere q = true ∧ q = p.follow part := by
  unfold step
  extract_lets next
  constructor
  · intro h
    split at h
    · cases h
    · rename_i hfile
      split at h
      · cases h
      · rename_i hlong
        split at h
        · rename_i hthere
          obtain rfl := Except.ok.inj h
          exact ⟨by simpa using hfile, by simpa using hlong, hthere, rfl⟩
        · cases h
  · rintro ⟨hfile, hlong, hthere, rfl⟩
    simp [hfile, hlong, hthere, next]

theorem leads_iff : d.Leads p parts q ↔ parts.foldlM d.step p = .ok q := by
  constructor
  · intro h
    induction h with
    | nil => rfl
    | cons hfile hshort hthere hrest ih =>
      rw [List.foldlM_cons, step_eq_ok_iff.2 ⟨hfile, hshort, hthere, rfl⟩]
      exact ih
  · intro h
    induction parts generalizing p with
    | nil =>
      obtain rfl := Except.ok.inj h
      exact .nil p
    | cons part parts ih =>
      rw [List.foldlM_cons] at h
      cases hstep : d.step p part with
      | error e =>
        rw [hstep] at h
        cases h
      | ok next =>
        rw [hstep] at h
        obtain ⟨hfile, hshort, hthere, rfl⟩ := step_eq_ok_iff.1 hstep
        exact .cons hfile hshort hthere (ih h)

namespace Leads

theorem append_iff {more : List (List Char)} :
    d.Leads p (parts ++ more) q ↔ ∃ r, d.Leads p parts r ∧ d.Leads r more q := by
  constructor
  · intro h
    induction parts generalizing p with
    | nil => exact ⟨p, .nil p, h⟩
    | cons first parts ih =>
      cases h with
      | cons hfile hshort hthere hrest =>
        obtain ⟨r, hr, hlast⟩ := ih hrest
        exact ⟨r, .cons hfile hshort hthere hr, hlast⟩
  · rintro ⟨r, hr, hlast⟩
    induction hr with
    | nil => exact hlast
    | cons hfile hshort hthere hrest ih => exact .cons hfile hshort hthere (ih hlast)

theorem isThere (h : d.Leads p parts q) (hp : d.isThere p = true) : d.isThere q = true := by
  induction h with
  | nil => exact hp
  | cons hfile hshort hthere hrest ih => exact ih hthere

end Leads

theorem isDirectory_of_isThere (hthere : d.isThere p = true) (hfile : d.isFile p = false) :
    d.isDirectory p = true := by
  simpa [isThere, hfile] using hthere

theorem isThere_start (d : Disk) (path : String) : d.isThere (Place.start path) = true := by
  have hnames : (Place.start path).names = [] := by
    rw [Place.start]
    split <;> rfl
  simp [isThere, isDirectory, hnames]

/-! ## Directories above a place -/

theorem mem_directories_down {r : Place} {n : String} (h : r ∈ (p.down n).directories) :
    r ∈ p.directories ∨ r = p ∧ p.names ≠ [] := by
  obtain ⟨anchor, names⟩ := p
  cases names with
  | nil => cases h
  | cons m names =>
    rcases List.mem_cons.1 h with rfl | h
    · exact Or.inr ⟨rfl, List.cons_ne_nil m names⟩
    · exact Or.inl h

theorem mem_directories_of_mem_up {r : Place} (h : r ∈ p.up.directories) : r ∈ p.directories := by
  obtain ⟨anchor, names⟩ := p
  match names with
  | [] => cases h
  | [n] => cases h
  | n :: m :: names => exact List.mem_cons_of_mem _ h

/-- The directories above a place are there. -/
def IsRooted (d : Disk) (p : Place) : Prop := ∀ r ∈ p.directories, r ∈ d.directories

theorem isRooted_start (d : Disk) (path : String) : d.IsRooted (Place.start path) := by
  intro r hr
  rw [Place.start] at hr
  split at hr <;> cases hr

theorem IsRooted.down (h : d.IsRooted p) (hp : d.isDirectory p = true) (n : String) : d.IsRooted (p.down n) := by
  intro r hr
  rcases mem_directories_down hr with hr | ⟨rfl, hnames⟩
  · exact h r hr
  · simpa [isDirectory, hnames] using hp

theorem IsRooted.follow (h : d.IsRooted p) (hp : d.isDirectory p = true) (part : List Char) :
    d.IsRooted (p.follow part) := by
  rw [Place.follow]
  split
  · exact h
  · split
    · exact fun r hr => h r (mem_directories_of_mem_up hr)
    · exact h.down hp _

theorem Leads.isRooted (h : d.Leads p parts q) (hp : d.isThere p = true) (hrooted : d.IsRooted p) :
    d.IsRooted q := by
  induction h with
  | nil => exact hrooted
  | cons hfile hshort hthere hrest ih =>
    exact ih hthere (hrooted.follow (isDirectory_of_isThere hp hfile) _)

/-! ## More on a disk -/

/-- All that is on the one disk is on the other, and is a file there exactly if it is one. -/
structure Extends (d e : Disk) : Prop where
  isThere : ∀ q, d.isThere q = true → e.isThere q = true
  isFile : ∀ q, d.isThere q = true → e.isFile q = d.isFile q

theorem Leads.extend (h : d.Leads p parts q) (hp : d.isThere p = true) (hextends : d.Extends e) :
    e.Leads p parts q := by
  induction h with
  | nil => exact .nil _
  | cons hfile hshort hthere hrest ih =>
    exact .cons ((hextends.isFile _ hp).trans hfile) hshort (hextends.isThere _ hthere) (ih hthere)

/-- The empty part at the end of a walk asks for a directory there. -/
theorem walk_concat_nil_eq_ok_iff :
    d.walk path (parts ++ [[]]) = .ok dir ↔ d.Leads (Place.start path) parts dir ∧ d.isFile dir = false := by
  rw [walk, ← leads_iff, Leads.append_iff]
  constructor
  · rintro ⟨r, hleads, hlast⟩
    cases hlast with
    | cons hfile hshort hthere hrest =>
      cases hrest
      exact ⟨hleads, hfile⟩
  · rintro ⟨hleads, hfile⟩
    exact ⟨dir, hleads, .cons hfile rfl (hleads.isThere (isThere_start d path)) (.nil dir)⟩

/-! ## Names -/

/-- The path gives a name to a place in a directory. -/
structure Names (d : Disk) (path : String) (front : List (List Char)) (name : List Char) (dir : Place) : Prop where
  endsIn : Path.EndsIn path front name
  refusal : refusal? path = none
  short : isLong name = false
  leads : d.Leads (Place.start path) front dir
  isFile : d.isFile dir = false

theorem follow_of_isComponent (hname : Path.isComponent name = true) (habove : name ≠ Path.above) :
    p.follow name = p.down (String.ofList name) := by
  simp [Place.follow, hname, habove]

namespace Names

variable (h : d.Names path front name dir)
include h

theorem isThere : d.isThere dir = true := h.leads.isThere (isThere_start d path)

theorem isDirectory : d.isDirectory dir = true := isDirectory_of_isThere h.isThere h.isFile

theorem isRooted : d.IsRooted (dir.down (String.ofList name)) :=
  (h.leads.isRooted (isThere_start d path) (isRooted_start d path)).down h.isDirectory _

theorem target? : d.target? path = .ok (some (dir.down (String.ofList name))) := by
  have hname := Path.isComponent_iff.1 h.endsIn.isComponent_name
  rw [Disk.target?, h.refusal, Path.ending?_eq h.endsIn.parts_eq hname.1]
  dsimp only
  rw [walk_concat_nil_eq_ok_iff.2 ⟨h.leads, h.isFile⟩]
  exact (if_neg (not_or.2 ⟨hname.2, h.endsIn.ne_above⟩)).trans (if_neg (by simp [h.short]))

theorem extend (hextends : d.Extends e) : e.Names path front name dir where
  endsIn := h.endsIn
  refusal := h.refusal
  short := h.short
  leads := h.leads.extend (isThere_start d path) hextends
  isFile := (hextends.isFile dir h.isThere).trans h.isFile

/-- The path leads to the place if it is there. -/
theorem resolve (hthere : d.isThere (dir.down (String.ofList name)) = true) :
    d.resolve path = .ok (dir.down (String.ofList name)) := by
  have hfollow : dir.follow name = dir.down (String.ofList name) :=
    follow_of_isComponent h.endsIn.isComponent_name h.endsIn.ne_above
  have hlast : d.Leads dir [name] (dir.down (String.ofList name)) := by
    rw [← hfollow] at hthere ⊢
    exact .cons h.isFile h.short hthere (.nil _)
  rw [Disk.resolve, h.refusal, h.endsIn.parts_eq]
  exact leads_iff.1 (Leads.append_iff.2 ⟨dir, h.leads, hlast⟩)

end Names

/-- A place for a file is one for the last part of a path, in the directory that the parts before it lead to. -/
theorem exists_of_target?_eq_some (h : d.target? path = .ok (some p)) :
    ∃ front last dir, refusal? path = none ∧ Path.ending? path = some ⟨front, last⟩ ∧
      d.Leads (Place.start path) front dir ∧ d.isFile dir = false ∧ last ≠ ['.'] ∧ last ≠ Path.above ∧
      isLong last = false ∧ p = dir.down (String.ofList last) := by
  rw [target?] at h
  cases hrefusal : refusal? path with
  | some e =>
    rw [hrefusal] at h
    cases h
  | none =>
    cases hending : Path.ending? path with
    | none =>
      rw [hrefusal, hending] at h
      cases h
    | some ending =>
      rw [hrefusal, hending] at h
      dsimp only at h
      cases hwalk : d.walk path (ending.front ++ [[]]) with
      | error e =>
        rw [hwalk] at h
        cases h
      | ok dir =>
        rw [hwalk] at h
        change (if _ then Except.ok none else _) = _ at h
        obtain ⟨hleads, hfile⟩ := walk_concat_nil_eq_ok_iff.1 hwalk
        split at h
        · cases h
        · rename_i hname
          rw [not_or] at hname
          split at h
          · cases h
          · rename_i hlong
            obtain rfl := Option.some.inj (Except.ok.inj h)
            exact ⟨_, _, dir, rfl, rfl, hleads, hfile, hname.1, hname.2, by simpa using hlong, rfl⟩

/-- A path that leads to a place for a file gives it a name. -/
theorem exists_names_of_target? (h : d.target? path = .ok (some p)) (hslash : Path.endsInSlash path = false) :
    ∃ front name dir, d.Names path front name dir ∧ p = dir.down (String.ofList name) := by
  obtain ⟨front, last, dir, hrefusal, hending, hleads, hfile, hpoint, habove, hshort, hp⟩ :=
    exists_of_target?_eq_some h
  obtain ⟨hparts, hne⟩ := Path.parts_eq_of_ending? hending hslash
  have hendsIn : Path.EndsIn path front last := ⟨hparts, Path.isComponent_iff.2 ⟨hne, hpoint⟩, habove⟩
  exact ⟨front, last, dir, ⟨hendsIn, hrefusal, hshort, hleads, hfile⟩, hp⟩

/-- A path that leads somewhere gives no name to what is not there. -/
theorem exists_target?_of_resolve (h : d.resolve path = .ok p) :
    ∃ target, d.target? path = .ok target ∧ ∀ q ∈ target, d.isThere q = true := by
  rw [resolve] at h
  cases hrefusal : refusal? path with
  | some e =>
    rw [hrefusal] at h
    cases h
  | none =>
    rw [hrefusal] at h
    have hleads := leads_iff.2 h
    rw [target?, hrefusal]
    cases hending : Path.ending? path with
    | none => exact ⟨none, rfl, nofun⟩
    | some ending =>
      obtain ⟨hne, more, hparts⟩ := Path.exists_parts_of_ending? hending
      rw [hparts] at hleads
      obtain ⟨dir, hfront, hlast⟩ := Leads.append_iff.1 hleads
      cases hlast with
      | cons hfile hshort hthere hrest =>
        dsimp only
        rw [walk_concat_nil_eq_ok_iff.2 ⟨hfront, hfile⟩]
        by_cases hname : ending.last = ['.'] ∨ ending.last = Path.above
        · exact ⟨none, if_pos hname, nofun⟩
        · refine ⟨some (dir.down (String.ofList ending.last)),
            (if_neg hname).trans (if_neg (by simp [hshort])), ?_⟩
          have hcomponent := Path.isComponent_iff.2 ⟨hne, fun h => hname (Or.inl h)⟩
          rintro q ⟨⟩
          rwa [follow_of_isComponent hcomponent fun h => hname (Or.inr h)] at hthere

/-! ## The temporary file -/

theorem refusal?_eq_none_iff :
    refusal? path = none ↔ '\x00' ∉ path.toList ∧ path ≠ "" ∧ path.utf8ByteSize < pathLimit := by
  rw [refusal?]
  by_cases hmark : '\x00' ∈ path.toList
  · simp [hmark]
  · by_cases hempty : path = ""
    · simp [hempty]
    · simp [hmark, hempty]

/-- A file can be made under the temporary name of a name: it is not the directory above, and neither the name
nor the path with it is too long. -/
structure Stages (path : String) (name : List Char) : Prop where
  ne_above : Path.temporaryName name ≠ Path.above
  short : isLong (Path.temporaryName name) = false
  shortPath : (Path.temporary path).utf8ByteSize < pathLimit

theorem Names.refusal?_temporary_eq_none_iff (h : d.Names path front name dir) :
    refusal? (Path.temporary path) = none ↔ (Path.temporary path).utf8ByteSize < pathLimit := by
  obtain ⟨hmark, -, -⟩ := refusal?_eq_none_iff.1 h.refusal
  obtain ⟨before, hpath, htemporary⟩ := h.endsIn.exists_toList
  have hname := (Path.isComponent_iff.1 (Path.isComponent_temporaryName name)).1
  rw [hpath, List.mem_append, not_or] at hmark
  rw [refusal?_eq_none_iff]
  refine ⟨fun h => h.2.2, fun hshort => ⟨?_, ?_, hshort⟩⟩
  · rw [htemporary, List.mem_append, not_or]
    exact ⟨hmark.1, Path.notMem_temporaryName (by decide) hmark.2⟩
  · rintro hempty
    rw [hempty] at htemporary
    exact hname (List.append_eq_nil_iff.1 htemporary.symm).2

theorem Names.start_temporary (h : d.Names path front name dir) :
    Place.start (Path.temporary path) = Place.start path := by
  have hname := (Path.isComponent_iff.1 h.endsIn.isComponent_name).1
  have htemporary := (Path.isComponent_iff.1 (Path.isComponent_temporaryName name)).1
  exact Path.start_eq_of_parts h.endsIn.parts_temporary.1 htemporary h.endsIn.parts_eq hname

/-- The temporary file of a path is named in the same directory. -/
theorem Names.temporary (h : d.Names path front name dir) (hstages : Stages path name) :
    d.Names (Path.temporary path) front (Path.temporaryName name) dir where
  endsIn := h.endsIn.temporary hstages.ne_above
  refusal := h.refusal?_temporary_eq_none_iff.2 hstages.shortPath
  short := hstages.short
  leads := h.start_temporary ▸ h.leads
  isFile := h.isFile

/-- Otherwise no name is given to it. -/
theorem Names.target?_temporary (h : d.Names path front name dir) (hstages : ¬ Stages path name) :
    d.target? (Path.temporary path) = .ok none ∨ ∃ e, d.target? (Path.temporary path) = .error e := by
  have hcomponent := Path.isComponent_iff.1 (Path.isComponent_temporaryName name)
  have hleads : d.Leads (Place.start (Path.temporary path)) front dir := h.start_temporary ▸ h.leads
  cases hrefusal : refusal? (Path.temporary path) with
  | some e =>
    refine Or.inr ⟨e, ?_⟩
    rw [Disk.target?, hrefusal]
  | none =>
    rw [Disk.target?, hrefusal, Path.ending?_eq h.endsIn.parts_temporary.1 hcomponent.1]
    dsimp only
    rw [walk_concat_nil_eq_ok_iff.2 ⟨hleads, h.isFile⟩]
    by_cases habove : Path.temporaryName name = Path.above
    · exact Or.inl (if_pos (Or.inr habove))
    · have hlong : isLong (Path.temporaryName name) = true := by
        by_contra hshort
        exact hstages ⟨habove, by simpa using hshort, h.refusal?_temporary_eq_none_iff.1 hrefusal⟩
      exact Or.inr ⟨.nameTooLong, (if_neg (not_or.2 ⟨hcomponent.2, habove⟩)).trans (if_pos hlong)⟩

/-! ## The directory of a path -/

/-- The system takes a path that is the beginning of one it takes. -/
theorem refusal?_eq_none_of_append {path' : String} {rest : List Char} (h : refusal? path = none)
    (happend : path.toList = path'.toList ++ rest) (hne : path'.toList ≠ []) : refusal? path' = none := by
  have hpath : path = path' ++ String.ofList rest := by
    rw [← String.toList_inj, happend, String.toList_append, String.toList_ofList]
  rw [refusal?_eq_none_iff] at h ⊢
  obtain ⟨hmark, -, hshort⟩ := h
  rw [happend, List.mem_append, not_or] at hmark
  refine ⟨hmark.1, fun hempty => hne (by simp [hempty]), ?_⟩
  rw [hpath, String.utf8ByteSize_append] at hshort
  omega

/-- A path leads to where the walk along its parts leads, as a beginning of another path. -/
theorem resolve_of_beginning {path' : String} {more : List (List Char)}
    (hparts' : Path.parts path'.toList = front ++ [part]) (hparts : Path.parts path.toList = front ++ part :: more)
    (hpart : part ≠ []) (hrefusal : refusal? path = none)
    (hleads : d.Leads (Place.start path) (front ++ [part]) dir) : d.resolve path' = .ok dir := by
  have htext' := Path.toList_eq_of_parts hparts'
  have htext := Path.toList_eq_of_parts hparts
  rw [List.append_cons] at htext
  have happend : ∃ rest, path.toList = path'.toList ++ rest := by
    rw [htext, htext']
    by_cases hmore : more = []
    · exact ⟨[], by rw [hmore]; simp⟩
    · exact ⟨_, Path.intercalate_append (List.concat_ne_nil part front) hmore⟩
  obtain ⟨rest, happend⟩ := happend
  have hne : path'.toList ≠ [] := by
    intro hnil
    rw [hnil] at hparts'
    have hlast := congrArg List.getLast? hparts'
    rw [List.getLast?_concat] at hlast
    exact hpart (Option.some.inj hlast).symm
  rw [resolve, refusal?_eq_none_of_append hrefusal happend hne, hparts']
  rw [← Path.start_eq_of_parts hparts' hpart hparts hpart] at hleads
  exact leads_iff.1 hleads

theorem resolve_here (hfile : d.isFile Place.here = false) : d.resolve Path.here = .ok Place.here :=
  leads_iff.1 (.cons hfile rfl (isThere_start d Path.here) (.nil Place.here))

theorem resolve_root (hfile : d.isFile Place.root = false) : d.resolve "/" = .ok Place.root :=
  have hthere : d.isThere Place.root = true := isThere_start d "/"
  leads_iff.1 (.cons hfile rfl hthere (.cons hfile rfl hthere (.nil Place.root)))

/-- The directories a path lies in begin with the text of the one that a walk along its first parts leads to. -/
theorem resolve_ancestorsOf {head : List Char} {b more : List (List Char)} (hb : Path.Begins head b front)
    (hparts : Path.parts path.toList = front ++ more) (hmore : more ≠ []) (hrefusal : refusal? path = none)
    (hstart : Place.start path = if head = ['/'] then Place.root else Place.here)
    (hleads : d.Leads (Place.start path) front dir) (hfile : d.isFile dir = false) :
    d.resolve ((Path.ancestorsOf head b.reverse).headD Path.here) = .ok dir := by
  induction b using List.reverseRecOn generalizing front more dir with
  | nil =>
    rw [hstart] at hleads
    cases hb with
    | relative =>
      cases hleads
      exact resolve_here hfile
    | root =>
      cases hleads with
      | cons hfile' hshort hthere hrest =>
        cases hrest
        exact resolve_root hfile
  | append_singleton b part ih =>
    rw [List.reverse_concat, Path.ancestorsOf]
    rcases hb.split with ⟨front', rfl, hb'⟩ | ⟨rfl, rfl, rfl, rfl⟩
    · have hslash : ∀ p ∈ front' ++ [part], '/' ∉ p := fun p hp =>
        Path.notMem_of_mem_parts (hparts ▸ List.mem_append_left more hp)
      rw [List.append_assoc] at hparts
      by_cases hpart : Path.isComponent part = true
      · -- the longest of the texts ends in this part
        have htext := hb.parts_text (List.concat_ne_nil part b) hslash
        rw [if_pos hpart, List.headD_cons, ← List.reverse_concat]
        exact resolve_of_beginning htext hparts (Path.isComponent_iff.1 hpart).1 hrefusal hleads
      · -- the part leads nowhere else, and no text ends in it
        obtain ⟨r, hr, hlast⟩ := Leads.append_iff.1 hleads
        cases hlast with
        | cons hfile' hshort hthere hrest =>
          cases hrest
          have hstay : r.follow part = r := by simp [Place.follow, hpart]
          rw [hstay] at hfile ⊢
          rw [if_neg hpart]
          exact ih hb' hparts (List.append_ne_nil_of_left_ne_nil (List.cons_ne_nil part []) more) hr hfile
    · -- the point of the working directory, with a slash after it
      rw [hstart] at hleads
      cases hleads with
      | cons hfile' hshort hthere hrest =>
        cases hrest
        exact resolve_here hfile

theorem Names.parentText_eq (h : d.Names path front name dir) {b : List (List Char)}
    (hbody : (Path.pieces path).body = name :: b.reverse) :
    Path.parentText path = (Path.ancestorsOf (Path.pieces path).head b.reverse).headD Path.here := by
  have htail : (Path.ancestors path).tail = Path.ancestorsOf (Path.pieces path).head b.reverse := by
    unfold Path.ancestors
    extract_lets pieces
    have hbody : pieces.body = name :: b.reverse := hbody
    rw [hbody, Path.ancestorsOf, if_pos h.endsIn.isComponent_name, List.tail_cons]
  rw [Path.parentText, Path.directories, htail]
  cases Path.ancestorsOf (Path.pieces path).head b.reverse <;> rfl

/-- The directory of a path is the one that the name is in. -/
theorem Names.resolve_parentText (h : d.Names path front name dir) :
    d.resolve (Path.parentText path) = .ok dir := by
  obtain ⟨b, hbody, hfront⟩ := h.endsIn.exists_pieces
  rw [h.parentText_eq hbody]
  exact resolve_ancestorsOf hfront h.endsIn.parts_eq (List.cons_ne_nil name []) h.refusal (Path.start_eq_head path)
    h.leads h.isFile

end RobotPuzzle.Disk
