import RobotPuzzle.Notation.Writing
import RobotPuzzle.Proofs.Notation.RoundTrip

/-!
# Telling written trees apart

Different trees have different texts, whatever their counts are: reading a text back is restricted to the
counts that may be written, telling texts apart is not.

## Main statements

- `append_cons_inj` — two texts that agree are cut at the same place by a separator
- `Notation.write_injective` — a tree is told by its text
- `Program.text_eq_iff` — a program is told by its text, up to the identity of its instructions

## Design notes

The induction is on the text of a tree inside the braces of a loop, with a space in front of every part. Every
word is then followed by a space or by a count, and the tree ends where the closing brace stands.
-/

namespace RobotPuzzle

/-- Texts that go on after a separator which is not in their first parts are equal part by part. -/
theorem append_cons_inj {α : Type} {c d : α} {first first' rest rest' : List α} (hfirst : d ∉ first)
    (hfirst' : c ∉ first') (h : first ++ c :: rest = first' ++ d :: rest') :
    first = first' ∧ c = d ∧ rest = rest' := by
  rcases List.append_eq_append_iff.1 h with ⟨more, rfl, hmore⟩ | ⟨more, rfl, hmore⟩
  · cases more with
    | nil => exact ⟨(List.append_nil first).symm, List.cons.inj hmore⟩
    | cons x more =>
      obtain ⟨rfl, -⟩ := List.cons.inj hmore
      exact absurd (List.mem_append_right first List.mem_cons_self) hfirst'
  · cases more with
    | nil =>
      obtain ⟨hdc, hrest⟩ := List.cons.inj hmore
      exact ⟨List.append_nil first', hdc.symm, hrest.symm⟩
    | cons x more =>
      obtain ⟨rfl, -⟩ := List.cons.inj hmore
      exact absurd (List.mem_append_right first' List.mem_cons_self) hfirst

theorem notMem_of_all {p : Char → Bool} {c : Char} {text : List Char} (htext : text.all p = true)
    (hc : p c = false) : c ∉ text := by
  intro hmem
  rw [List.all_eq_true.1 htext c hmem] at hc
  cases hc

/-- A numeral is cut off by the character after it. -/
theorem decimal_append_cons_inj {c : Char} {m n : Nat} {rest rest' : List Char} (hc : c.isDigit = false)
    (h : decimal m ++ c :: rest = decimal n ++ c :: rest') : m = n ∧ rest = rest' := by
  obtain ⟨hdecimal, -, hrest⟩ := append_cons_inj (notMem_decimal hc m) (notMem_decimal hc n) h
  exact ⟨decimal_injective hdecimal, hrest⟩

namespace Notation

variable {f g : Forest Unit} {k l : Kind} {c d : Char} {a b : List Char}

theorem notMem_wordOfKind (hc : isWordChar c = false) (k : Kind) : c ∉ wordOfKind k :=
  notMem_of_all (List.all_eq_true.2 (isWordChar_wordOfKind k)) hc

/-- A written word is cut off by the character after it. -/
theorem wordOfKind_append_cons_inj (hc : isWordChar c = false) (hd : isWordChar d = false)
    (h : wordOfKind k ++ c :: a = wordOfKind l ++ d :: b) : k = l ∧ c = d ∧ a = b := by
  obtain ⟨hword, hrest⟩ := append_cons_inj (notMem_wordOfKind hd k) (notMem_wordOfKind hc l) h
  have hkind : some k = some l := by
    rw [← kindOfWord?_wordOfKind k, hword, kindOfWord?_wordOfKind]
  exact ⟨Option.some.inj hkind, hrest⟩

/-- A word begins with a letter. -/
theorem wordOfKind_append_ne_cons (hc : isWordChar c = false) : wordOfKind k ++ a ≠ c :: b := by
  obtain ⟨x, word, hword⟩ := List.exists_cons_of_ne_nil (calls_wordOfKind k).ne_nil
  have hx : isWordChar x = true := isWordChar_wordOfKind k x (hword ▸ List.mem_cons_self)
  intro h
  rw [hword] at h
  rw [(List.cons.inj h).1, hc] at hx
  cases hx

/-! ## Trees in braces -/

/-- The text of a tree in the body of a loop, up to the closing brace. -/
def enclosed (f : Forest Unit) (a : List Char) : List Char := spaced (parts f) ++ ' ' :: '\x7d' :: a

theorem enclosed_nil : enclosed .nil a = ' ' :: '\x7d' :: a := rfl

theorem enclosed_command (i : Unit) (c : Command) (rest : Forest Unit) :
    enclosed (.command i c rest) a = ' ' :: (wordOfKind c.kind ++ enclosed rest a) := by
  simp [enclosed, spaced, parts]

theorem enclosed_loop (i : Unit) (n : Nat) (body rest : Forest Unit) :
    enclosed (.loop i n body rest) a = ' ' :: (wordOfKind .loop ++
      '*' :: (decimal n ++ ' ' :: '\x7b' :: enclosed body (enclosed rest a))) := by
  simp [enclosed, spaced, parts, loopHead]

/-- A tree in braces begins with a space. -/
theorem exists_enclosed_eq_cons (f : Forest Unit) (a : List Char) : ∃ b, enclosed f a = ' ' :: b := by
  cases f with
  | nil => exact ⟨_, enclosed_nil⟩
  | command i c rest => exact ⟨_, enclosed_command i c rest⟩
  | loop i n body rest => exact ⟨_, enclosed_loop i n body rest⟩

/-- A tree that is not empty begins with a word. -/
theorem enclosed_ne_cons_cons (hf : f ≠ .nil) (hc : isWordChar c = false) : enclosed f a ≠ ' ' :: c :: b := by
  intro h
  cases f with
  | nil => exact hf rfl
  | command i d rest =>
    rw [enclosed_command] at h
    exact wordOfKind_append_ne_cons hc (List.cons.inj h).2
  | loop i n body rest =>
    rw [enclosed_loop] at h
    exact wordOfKind_append_ne_cons hc (List.cons.inj h).2

/-- A tree in braces and what comes after it are told from their text. -/
theorem enclosed_inj (h : enclosed f a = enclosed g b) : f = g ∧ a = b := by
  have hspace : isWordChar ' ' = false := by decide
  have hstar : isWordChar '*' = false := by decide
  have hbrace : isWordChar '\x7d' = false := by decide
  induction f generalizing g a b with
  | nil =>
    cases g with
    | nil => exact ⟨rfl, (List.cons.inj (List.cons.inj h).2).2⟩
    | command j d rest' | loop j n body' rest' =>
      exact absurd h.symm (enclosed_ne_cons_cons nofun hbrace)
  | command i c rest ih =>
    obtain ⟨more, hmore⟩ := exists_enclosed_eq_cons rest a
    cases g with
    | nil => exact absurd h (enclosed_ne_cons_cons nofun hbrace)
    | command j d rest' =>
      obtain ⟨more', hmore'⟩ := exists_enclosed_eq_cons rest' b
      rw [enclosed_command, enclosed_command, hmore, hmore'] at h
      obtain ⟨hkind, -, hrest⟩ := wordOfKind_append_cons_inj hspace hspace (List.cons.inj h).2
      obtain ⟨rfl, rfl⟩ := ih (hmore.trans ((congrArg _ hrest).trans hmore'.symm))
      rw [Command.kind_inj.1 hkind]
      exact ⟨rfl, rfl⟩
    | loop j n body' rest' =>
      rw [enclosed_command, enclosed_loop, hmore] at h
      obtain ⟨hkind, -⟩ := wordOfKind_append_cons_inj hspace hstar (List.cons.inj h).2
      exact absurd hkind c.kind_ne_loop
  | loop i m body rest ihbody ihrest =>
    cases g with
    | nil => exact absurd h (enclosed_ne_cons_cons nofun hbrace)
    | command j d rest' =>
      obtain ⟨more', hmore'⟩ := exists_enclosed_eq_cons rest' b
      rw [enclosed_loop, enclosed_command, hmore'] at h
      obtain ⟨hkind, -⟩ := wordOfKind_append_cons_inj hstar hspace (List.cons.inj h).2
      exact absurd hkind.symm d.kind_ne_loop
    | loop j n body' rest' =>
      rw [enclosed_loop, enclosed_loop] at h
      obtain ⟨-, -, hcount⟩ := wordOfKind_append_cons_inj hstar hstar (List.cons.inj h).2
      obtain ⟨rfl, hbraces⟩ := decimal_append_cons_inj (by decide) hcount
      obtain ⟨rfl, hafter⟩ := ihbody (List.cons.inj hbraces).2
      obtain ⟨rfl, rfl⟩ := ihrest hafter
      exact ⟨rfl, rfl⟩

/-- A tree in braces is its text between spaces. -/
theorem enclosed_eq_write (hf : f ≠ .nil) (a : List Char) :
    enclosed f a = ' ' :: (write f ++ ' ' :: '\x7d' :: a) := by
  cases f with
  | nil => exact absurd rfl hf
  | command i c rest | loop i n body rest =>
    rw [enclosed, parts, ← cons_intercalate_eq_spaced]
    rfl

theorem write_ne_nil (hf : f ≠ .nil) : write f ≠ [] := by
  intro h
  have hempty := enclosed_eq_write hf []
  rw [h] at hempty
  exact enclosed_ne_cons_cons hf (by decide) hempty

/-- A tree is told by its text. -/
theorem write_injective (h : write f = write g) : f = g := by
  by_cases hf : f = .nil
  · by_contra hne
    subst hf
    exact write_ne_nil (Ne.symm hne) h.symm
  · have hg : g ≠ .nil := by
      rintro rfl
      exact write_ne_nil hf h
    have henclosed : enclosed f [] = enclosed g [] := by
      rw [enclosed_eq_write hf, enclosed_eq_write hg, h]
    exact (enclosed_inj henclosed).1

end Notation

/-- A program is told by its text, up to the identity of its instructions. -/
theorem Program.text_eq_iff {p q : Program} : p.text = q.text ↔ p.forest.shape = q.forest.shape := by
  rw [Notation.text_eq_write_shape, Notation.text_eq_write_shape]
  exact ⟨Notation.write_injective, congrArg _⟩

end RobotPuzzle
