import Mathlib.Data.List.TakeWhile
import RobotPuzzle.Disk.Place

/-!
# Parts of paths

The text of a path is its parts with slashes between them. The pieces of a path are the same parts once more,
with the slash of the root or the point of the working directory set apart. So a beginning of the pieces is a
beginning of the parts, and another name at the end of the pieces is another name at the end of the parts.

## Main definitions

- `Path.Begins` — pieces are some parts
- `Path.EndsIn` — a path ends in a name
- `Path.temporaryName` — the name of the temporary file of a name

## Main statements

- `Path.Begins.parts_text` — the parts of the text of some pieces
- `Path.EndsIn.parts_temporary` — the temporary file of a path differs from it in the name only
- `Path.temporaryName_eq_above_iff` — the names whose temporary name is the directory above
-/

namespace RobotPuzzle.Path

variable {cs head name part stem : List Char} {b ps front : List (List Char)} {path : String}

/-! ## Parts -/

theorem parts_eq_splitOn (cs : List Char) : parts cs = cs.splitOn '/' := by
  induction cs with
  | nil => rfl
  | cons c cs ih =>
    rw [parts, List.splitOn_cons_eq_if_modifyHead, ih]
    by_cases hc : c = '/'
    · rw [if_pos hc, if_pos (by simpa using hc)]
    · rw [if_neg hc, if_neg (by simpa using hc)]
      cases hparts : cs.splitOn '/' with
      | nil => exact absurd hparts (List.splitOn_ne_nil _ _)
      | cons first more => rfl

theorem intercalate_parts (cs : List Char) : ['/'].intercalate (parts cs) = cs := by
  rw [parts_eq_splitOn, List.intercalate_splitOn]

theorem parts_intercalate (hps : ∀ p ∈ ps, '/' ∉ p) (hne : ps ≠ []) : parts (['/'].intercalate ps) = ps := by
  rw [parts_eq_splitOn, List.splitOn_intercalate '/' hps hne]

theorem notMem_of_mem_parts (h : part ∈ parts cs) : '/' ∉ part := by
  induction cs generalizing part with
  | nil =>
    obtain rfl := List.mem_singleton.1 h
    exact List.not_mem_nil
  | cons c cs ih =>
    rw [parts] at h
    split at h
    · rcases List.mem_cons.1 h with rfl | h
      · exact List.not_mem_nil
      · exact ih h
    · rename_i hc
      cases hparts : parts cs with
      | nil =>
        rw [hparts] at h
        obtain rfl := List.mem_singleton.1 h
        simpa using Ne.symm hc
      | cons first more =>
        rw [hparts] at h ih
        rcases List.mem_cons.1 h with rfl | h
        · exact List.not_mem_cons_of_ne_of_not_mem (Ne.symm hc) (ih List.mem_cons_self)
        · exact ih (List.mem_cons_of_mem _ h)

theorem intercalate_append {qs : List (List Char)} (hps : ps ≠ []) (hqs : qs ≠ []) :
    ['/'].intercalate (ps ++ qs) = ['/'].intercalate ps ++ '/' :: ['/'].intercalate qs := by
  induction ps with
  | nil => exact absurd rfl hps
  | cons p ps ih =>
    cases ps with
    | nil =>
      rw [List.singleton_append, List.intercalate_cons_of_ne_nil hqs, List.intercalate_singleton]
      simp
    | cons q ps =>
      have hne : q :: ps ++ qs ≠ [] := List.cons_ne_nil _ _
      rw [List.cons_append, List.intercalate_cons_of_ne_nil hne, ih (List.cons_ne_nil _ _),
        List.intercalate_cons_cons]
      simp

/-- All that stands before the last part is the same for every last part. -/
theorem exists_intercalate_concat (front : List (List Char)) :
    ∃ before, ∀ last, ['/'].intercalate (front ++ [last]) = before ++ last := by
  cases front with
  | nil => exact ⟨[], fun last => List.intercalate_singleton⟩
  | cons p front =>
    refine ⟨['/'].intercalate (p :: front) ++ ['/'], fun last => ?_⟩
    rw [intercalate_append (List.cons_ne_nil p front) (List.cons_ne_nil last []), List.append_assoc,
      List.singleton_append, List.intercalate_singleton]

theorem toList_eq_of_parts (hparts : parts path.toList = ps) : path.toList = ['/'].intercalate ps := by
  rw [← hparts, intercalate_parts]

/-- A path is absolute if its first part is empty, and not the only one. -/
theorem isAbsolute_iff : isAbsolute path = true ↔ ∃ part more, parts path.toList = [] :: part :: more := by
  rw [isAbsolute, beq_iff_eq]
  cases htext : path.toList with
  | nil =>
    refine iff_of_false nofun ?_
    rintro ⟨part, more, h⟩
    cases h
  | cons c cs =>
    have hmore := List.splitOn_ne_nil '/' cs
    rw [← parts_eq_splitOn] at hmore
    obtain ⟨part, more, hparts⟩ := List.exists_cons_of_ne_nil hmore
    rw [List.head?_cons, Option.some.injEq, parts, hparts]
    by_cases hc : c = '/'
    · exact iff_of_true hc ⟨part, more, if_pos hc⟩
    · rw [if_neg hc]
      refine iff_of_false hc ?_
      rintro ⟨part', more', h⟩
      cases (List.cons.inj h).1

/-- Paths with the same beginning start at the same place. -/
theorem start_eq_of_parts {path' : String} {part' : List Char} {more more' : List (List Char)}
    (hparts : parts path.toList = front ++ part :: more) (hpart : part ≠ [])
    (hparts' : parts path'.toList = front ++ part' :: more') (hpart' : part' ≠ []) :
    Place.start path = Place.start path' := by
  have habsolute : isAbsolute path = isAbsolute path' := by
    rw [Bool.eq_iff_iff, isAbsolute_iff, isAbsolute_iff, hparts, hparts']
    cases front with
    | nil => simp [hpart, hpart']
    | cons first front =>
      have hfirst : ∀ qs : List (List Char), qs ≠ [] →
          ((∃ part more, first :: (front ++ qs) = [] :: part :: more) ↔ first = []) := by
        intro qs hqs
        constructor
        · rintro ⟨part, more, h⟩
          exact (List.cons.inj h).1
        · rintro rfl
          obtain ⟨part, more, h⟩ := List.exists_cons_of_ne_nil (List.append_ne_nil_of_right_ne_nil front hqs)
          exact ⟨part, more, by rw [h]⟩
      rw [List.cons_append, List.cons_append, hfirst _ (List.cons_ne_nil _ _), hfirst _ (List.cons_ne_nil _ _)]
  rw [Place.start, Place.start, habsolute]

theorem ending?_eq (hparts : parts path.toList = front ++ [part]) (hpart : part ≠ []) :
    ending? path = some ⟨front, part⟩ := by
  rw [ending?, hparts, List.reverse_concat, List.dropWhile_cons_of_neg (by simpa using hpart)]
  dsimp only
  rw [List.reverse_reverse]

theorem endsInSlash_eq_false (hparts : parts path.toList = front ++ [part]) (hpart : part ≠ []) :
    endsInSlash path = false := by
  have hmem : part ∈ parts path.toList := hparts ▸ List.mem_append_right _ List.mem_cons_self
  obtain ⟨before, hbefore⟩ := exists_intercalate_concat front
  rcases List.eq_nil_or_concat part with rfl | ⟨first, c, rfl⟩
  · exact absurd rfl hpart
  · rw [List.concat_eq_append] at hmem hparts
    have hc : c ≠ '/' := fun hc => notMem_of_mem_parts hmem (List.mem_append_right _ (hc ▸ List.mem_cons_self))
    rw [endsInSlash, toList_eq_of_parts hparts, hbefore, ← List.append_assoc, List.getLast?_concat]
    simpa using hc

/-- After its ending a path has empty parts only. -/
theorem exists_parts_of_ending? {e : Ending} (hending : ending? path = some e) :
    e.last ≠ [] ∧ ∃ more, parts path.toList = e.front ++ e.last :: more := by
  have hsplit : (parts path.toList).reverse.takeWhile (· == []) ++ (parts path.toList).reverse.dropWhile (· == []) =
      (parts path.toList).reverse := List.takeWhile_append_dropWhile
  rw [ending?] at hending
  split at hending
  · cases hending
  · rename_i last rest hdrop
    obtain rfl := Option.some.inj hending
    rw [hdrop] at hsplit
    have hlast : last ≠ [] := by
      have hhead := List.head?_dropWhile_not (· == []) (parts path.toList).reverse
      rw [hdrop] at hhead
      simpa using hhead
    refine ⟨hlast, ((parts path.toList).reverse.takeWhile (· == [])).reverse, ?_⟩
    have hparts : parts path.toList =
        ((parts path.toList).reverse.takeWhile (· == []) ++ last :: rest).reverse := by
      rw [hsplit, List.reverse_reverse]
    exact hparts.trans (by simp)

/-- Without a slash at its end a path ends in its last part. -/
theorem parts_eq_of_ending? {e : Ending} (hending : ending? path = some e) (hslash : endsInSlash path = false) :
    parts path.toList = e.front ++ [e.last] ∧ e.last ≠ [] := by
  rcases List.eq_nil_or_concat (parts path.toList) with hnil | ⟨front, part, hparts⟩
  · rw [ending?, hnil] at hending
    cases hending
  · rw [List.concat_eq_append] at hparts
    by_cases hpart : part = []
    · exfalso
      subst part
      by_cases hfront : front = []
      · rw [ending?, hparts, hfront] at hending
        cases hending
      · rw [endsInSlash, toList_eq_of_parts hparts, intercalate_append hfront (List.cons_ne_nil [] []),
          List.intercalate_singleton, List.getLast?_concat] at hslash
        cases hslash
    · rw [ending?_eq hparts hpart] at hending
      obtain rfl := Option.some.inj hending
      exact ⟨hparts, hpart⟩

/-! ## Pieces -/

/-- The pieces are these parts. The slash of the root ends an empty part, and the point of the working
directory is a part of its own, whose slash begins the rest. -/
inductive Begins : List Char → List (List Char) → List (List Char) → Prop
  | relative (ps : List (List Char)) : Begins [] ps ps
  | root (ps : List (List Char)) : Begins ['/'] ps ([] :: ps)
  | here (ps : List (List Char)) : Begins ['.'] ([] :: ps) (['.'] :: ps)

theorem begins_pieces (hpath : path.toList ≠ ['.']) :
    Begins (pieces path).head (pieces path).body.reverse (parts path.toList) := by
  unfold pieces
  split
  · rename_i rest h
    rw [h, List.reverse_reverse]
    exact .root (parts rest)
  · contradiction
  · rename_i rest h
    rw [h, List.reverse_reverse]
    exact .here (parts rest)
  · rw [List.reverse_reverse]
    exact .relative _

theorem head_pieces_eq_root_iff : (pieces path).head = ['/'] ↔ isAbsolute path = true := by
  rw [isAbsolute, beq_iff_eq]
  unfold pieces
  split
  · rename_i h
    rw [h]
    exact iff_of_true rfl rfl
  · rename_i h
    rw [h]
    exact iff_of_false (by decide) (by decide)
  · rename_i h
    rw [h]
    exact iff_of_false (by simp) (by simp)
  · rename_i hroot _ _
    refine iff_of_false nofun fun h => ?_
    obtain ⟨rest, hrest⟩ := List.head?_eq_some_iff.1 h
    exact hroot rest hrest

theorem start_eq_head (path : String) :
    Place.start path = if (pieces path).head = ['/'] then Place.root else Place.here := by
  simp only [Place.start, head_pieces_eq_root_iff]

namespace Begins

theorem concat (h : Begins head b front) (last : List Char) : Begins head (b ++ [last]) (front ++ [last]) := by
  cases h with
  | relative => exact .relative _
  | root => exact .root _
  | here => exact .here _

/-- A name at the end of the parts is at the end of the pieces. -/
theorem of_concat (h : Begins head b (front ++ [name])) (hname : isComponent name = true) :
    ∃ b', b = b' ++ [name] ∧ Begins head b' front := by
  simp only [isComponent, Bool.and_eq_true, bne_iff_ne] at hname
  generalize hps : front ++ [name] = ps at h
  cases h with
  | relative => exact ⟨front, hps.symm, .relative front⟩
  | root =>
    cases front with
    | nil => exact absurd (List.cons.inj hps).1 hname.1
    | cons first front =>
      obtain ⟨rfl, rfl⟩ := List.cons.inj hps
      exact ⟨front, rfl, .root front⟩
  | here =>
    cases front with
    | nil => exact absurd (List.cons.inj hps).1 hname.2
    | cons first front =>
      obtain ⟨rfl, rfl⟩ := List.cons.inj hps
      exact ⟨[] :: front, rfl, .here front⟩

/-- The last of the pieces is the last of the parts, unless it is the one before the slash that follows the
point of the working directory. -/
theorem split (h : Begins head (b ++ [part]) front) :
    (∃ front', front = front' ++ [part] ∧ Begins head b front') ∨
      head = ['.'] ∧ b = [] ∧ part = [] ∧ front = [['.']] := by
  generalize hb : b ++ [part] = b' at h
  cases h with
  | relative => exact Or.inl ⟨b, hb.symm, .relative b⟩
  | root => exact Or.inl ⟨[] :: b, by rw [← hb, List.cons_append], .root b⟩
  | here ps =>
    cases b with
    | nil =>
      obtain ⟨rfl, rfl⟩ := List.cons.inj hb
      exact Or.inr ⟨rfl, rfl, rfl, rfl⟩
    | cons first b =>
      obtain ⟨rfl, rfl⟩ := List.cons.inj hb
      exact Or.inl ⟨['.'] :: b, rfl, .here b⟩

theorem toList_text (h : Begins head b ps) (hb : b ≠ []) :
    (Pieces.text ⟨head, b.reverse⟩).toList = ['/'].intercalate ps := by
  rw [Pieces.text, String.toList_ofList]
  dsimp only
  rw [List.reverse_reverse]
  cases h with
  | relative => rfl
  | root => rw [List.intercalate_cons_of_ne_nil hb, List.nil_append]
  | here ps =>
    cases ps with
    | nil => rfl
    | cons p ps => simp

theorem parts_text (h : Begins head b ps) (hb : b ≠ []) (hps : ∀ p ∈ ps, '/' ∉ p) :
    parts (Pieces.text ⟨head, b.reverse⟩).toList = ps := by
  rw [h.toList_text hb]
  refine parts_intercalate hps ?_
  cases h with
  | relative => exact hb
  | root | here => exact List.cons_ne_nil _ _

end Begins

theorem isComponent_iff : isComponent part = true ↔ part ≠ [] ∧ part ≠ ['.'] := by
  simp [isComponent]

/-- The path ends in a name, after some parts. -/
structure EndsIn (path : String) (front : List (List Char)) (name : List Char) : Prop where
  parts_eq : parts path.toList = front ++ [name]
  isComponent_name : isComponent name = true
  ne_above : name ≠ above

namespace EndsIn

theorem toList_eq (h : EndsIn path front name) : path.toList = ['/'].intercalate (front ++ [name]) := by
  rw [← h.parts_eq, intercalate_parts]

theorem notMem_of_mem (h : EndsIn path front name) (hpart : part ∈ front) : '/' ∉ part := by
  have hmem : part ∈ parts path.toList := h.parts_eq ▸ List.mem_append_left _ hpart
  exact notMem_of_mem_parts hmem

theorem notMem_name (h : EndsIn path front name) : '/' ∉ name := by
  have hmem : name ∈ parts path.toList := h.parts_eq ▸ List.mem_append_right _ List.mem_cons_self
  exact notMem_of_mem_parts hmem

/-- The name is the last part of the pieces, and the parts before it are those before it in the path. -/
theorem exists_pieces (h : EndsIn path front name) :
    ∃ b, (pieces path).body = name :: b.reverse ∧ Begins (pieces path).head b front := by
  have hpath : path.toList ≠ ['.'] := by
    intro hpoint
    have hparts := h.parts_eq
    rw [hpoint] at hparts
    have hlast := congrArg List.getLast? hparts
    rw [List.getLast?_concat] at hlast
    exact (isComponent_iff.1 h.isComponent_name).2 (Option.some.inj hlast).symm
  have hbegins := begins_pieces hpath
  rw [h.parts_eq] at hbegins
  obtain ⟨b, hb, hfront⟩ := hbegins.of_concat h.isComponent_name
  refine ⟨b, ?_, hfront⟩
  rw [← List.reverse_reverse (pieces path).body, hb, List.reverse_concat]

end EndsIn

/-! ## Temporary files -/

/-- The name of the temporary file of a name. -/
def temporaryName (name : List Char) : List Char :=
  match stem? name with
  | none => name ++ temporaryExtension
  | some stem => if stem = ['.'] then above else stem ++ temporaryExtension

theorem stem?_append {extension : List Char} (hne : stem ≠ []) (hpoint : '.' ∉ extension) :
    stem? (stem ++ '.' :: extension) = some stem := by
  have hextension : ∀ c ∈ extension.reverse, (c != '.') = true := fun c hc => by
    simpa using ne_of_mem_of_not_mem (List.mem_reverse.1 hc) hpoint
  have hreverse : (stem ++ '.' :: extension).reverse = extension.reverse ++ '.' :: stem.reverse := by simp
  rw [stem?, hreverse, List.dropWhile_append_of_pos hextension, List.dropWhile_cons_of_neg (by decide),
    List.drop_one, List.tail_cons]
  split
  · rename_i h
    exact absurd (List.reverse_eq_nil_iff.1 h) hne
  · rw [List.reverse_reverse]

/-- The stem ends before the last point. -/
theorem stem?_eq_some_iff :
    stem? name = some stem ↔ stem ≠ [] ∧ ∃ extension, '.' ∉ extension ∧ name = stem ++ '.' :: extension := by
  constructor
  · intro h
    have hsplit : name.reverse.takeWhile (· != '.') ++ name.reverse.dropWhile (· != '.') = name.reverse :=
      List.takeWhile_append_dropWhile
    have hpoint : '.' ∉ name.reverse.takeWhile (· != '.') := fun hmem => by
      simpa using List.mem_takeWhile_imp hmem
    rw [stem?] at h
    cases hdrop : name.reverse.dropWhile (· != '.') with
    | nil =>
      rw [hdrop] at h
      cases h
    | cons c front =>
      have hc : c = '.' := by
        simpa [hdrop] using List.head?_dropWhile_not (· != '.') name.reverse
      rw [hdrop, List.drop_one, List.tail_cons] at h
      rw [hdrop, hc] at hsplit
      cases front with
      | nil => cases h
      | cons d front =>
        obtain rfl := Option.some.inj h
        refine ⟨by simp, (name.reverse.takeWhile (· != '.')).reverse, by simpa using hpoint, ?_⟩
        have hname : name = (name.reverse.takeWhile (· != '.') ++ '.' :: d :: front).reverse := by
          rw [hsplit, List.reverse_reverse]
        exact hname.trans (by simp)
  · rintro ⟨hne, extension, hpoint, rfl⟩
    exact stem?_append hne hpoint

theorem temporary_eq (hbody : (pieces path).body = name :: ps) (hname : isComponent name = true)
    (habove : name ≠ above) :
    temporary path = Pieces.text ⟨(pieces path).head, temporaryName name :: ps⟩ := by
  unfold temporary
  extract_lets p
  have hbody : p.body = name :: ps := hbody
  rw [hbody, List.dropWhile_cons_of_neg (by simp [hname])]
  dsimp only
  rw [if_neg habove, temporaryName]
  cases stem? name with
  | none => rfl
  | some stem =>
    by_cases hpoint : stem = ['.']
    · simp [hpoint, p]
    · simp [hpoint, p]

/-- A temporary name has only characters of the name and of the extension. -/
theorem notMem_temporaryName {c : Char} (hc : c ∉ temporaryExtension) (h : c ∉ name) : c ∉ temporaryName name := by
  rw [temporaryName]
  cases hstem : stem? name with
  | none => simp [h, hc]
  | some stem =>
    obtain ⟨-, extension, -, rfl⟩ := stem?_eq_some_iff.1 hstem
    have hmem : c ∉ stem := fun hmem => h (List.mem_append_left _ hmem)
    have hpoint : c ≠ '.' := fun hpoint => h (List.mem_append_right _ (hpoint ▸ List.mem_cons_self))
    dsimp only
    split
    · simp [above, hpoint]
    · simp [hmem, hc]

/-- A temporary name has several characters, so that it is a component. -/
theorem isComponent_temporaryName (name : List Char) : isComponent (temporaryName name) = true := by
  have hlength : 2 ≤ (temporaryName name).length := by
    have hextension : temporaryExtension.length = 9 := by decide
    rw [temporaryName]
    split
    · rw [List.length_append]
      omega
    · split
      · decide
      · rw [List.length_append]
        omega
  rw [isComponent_iff]
  constructor
  · rintro h
    rw [h] at hlength
    exact absurd hlength (by decide)
  · rintro h
    rw [h] at hlength
    exact absurd hlength (by decide)

theorem append_temporaryExtension_ne_above (part : List Char) : part ++ temporaryExtension ≠ above := by
  intro h
  have hlength := congrArg List.length h
  have hextension : temporaryExtension.length = 9 := by decide
  have habove : above.length = 2 := by decide
  rw [List.length_append] at hlength
  omega

/-- Of two points and an extension the directory above is left. -/
theorem temporaryName_eq_above_iff :
    temporaryName name = above ↔ ∃ extension, '.' ∉ extension ∧ name = above ++ extension := by
  constructor
  · intro h
    rw [temporaryName] at h
    cases hstem : stem? name with
    | none =>
      rw [hstem] at h
      exact absurd h (append_temporaryExtension_ne_above _)
    | some stem =>
      rw [hstem] at h
      dsimp only at h
      split at h
      · subst stem
        exact (stem?_eq_some_iff.1 hstem).2
      · exact absurd h (append_temporaryExtension_ne_above _)
  · intro h
    rw [temporaryName, stem?_eq_some_iff.2 ⟨List.cons_ne_nil '.' [], h⟩]
    rfl

namespace EndsIn

/-- The temporary file of a path differs from it in the name only. -/
theorem parts_temporary (h : EndsIn path front name) :
    parts (temporary path).toList = front ++ [temporaryName name] ∧
      (temporary path).toList = ['/'].intercalate (front ++ [temporaryName name]) := by
  obtain ⟨b, hbody, hfront⟩ := h.exists_pieces
  have hslash : ∀ p ∈ front ++ [temporaryName name], '/' ∉ p := by
    intro p hp
    rcases List.mem_append.1 hp with hp | hp
    · exact h.notMem_of_mem hp
    · obtain rfl := List.mem_singleton.1 hp
      exact notMem_temporaryName (by decide) h.notMem_name
  have hnew := hfront.concat (temporaryName name)
  have htext : temporary path = Pieces.text ⟨(pieces path).head, (b ++ [temporaryName name]).reverse⟩ := by
    rw [temporary_eq hbody h.isComponent_name h.ne_above, List.reverse_concat]
  rw [htext]
  exact ⟨hnew.parts_text (List.concat_ne_nil _ _) hslash, hnew.toList_text (List.concat_ne_nil _ _)⟩

theorem temporary (h : EndsIn path front name) (hname : temporaryName name ≠ above) :
    EndsIn (temporary path) front (temporaryName name) :=
  ⟨h.parts_temporary.1, isComponent_temporaryName name, hname⟩

/-- What stands before the name in the path stands before the name of the temporary file. -/
theorem exists_toList (h : EndsIn path front name) :
    ∃ before, path.toList = before ++ name ∧ (Path.temporary path).toList = before ++ temporaryName name := by
  obtain ⟨before, hbefore⟩ := exists_intercalate_concat front
  exact ⟨before, h.toList_eq.trans (hbefore _), h.parts_temporary.2.trans (hbefore _)⟩

end EndsIn

end RobotPuzzle.Path
