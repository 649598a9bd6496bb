import RobotPuzzle.Proofs.Toml.Numerals
import RobotPuzzle.Proofs.Toml.Strings

/-!
# Reading written documents

A document that is written line by line, each with a key and its value, is read line by line: what stands
behind a value does not matter, as it begins with the end of the line. Lists of several integers go on over
several lines, and are read in the same way with a comma at the end of each.

## Main definitions

- `Toml.Denotes` — a text that stands for a value at the end of a line
- `Toml.IsBareKey` — a key that is written without quotes

## Main statements

- `Toml.denotes_decimal`, `Toml.denotes_writtenList`, `Toml.denotes_writtenString` — the written values
- `Toml.read?_lines` — a document of such lines is read as its keys with their values
-/

namespace RobotPuzzle.Toml

variable {c : Char} {cs text rest : List Char} {value : Toml} {n room fuel : Nat}

/-! ## Values -/

/-- The text stands for the value at the end of a line. -/
structure Denotes (text : List Char) (value : Toml) : Prop where
  skips : ∀ rest, skipSpaces (text ++ rest) = text ++ rest
  reads : ∀ rest fuel, text.length < fuel →
    readValue? nestingLimit fuel (text ++ '\n' :: rest) = some (value, '\n' :: rest)

theorem skipSpaces_cons (hc : isSpace c = false) (rest : List Char) : skipSpaces (c :: rest) = c :: rest :=
  List.dropWhile_cons_of_neg (by simp [hc])

/-- What begins with none of the marks of other values is a word. -/
theorem readValue?_eq_readWord? (hquote : c ≠ '"' ∧ c ≠ '\'') (hbracket : c ≠ '[' ∧ c ≠ '\x7b') :
    readValue? room (fuel + 1) (c :: cs) = readWord? (c :: cs) := by
  rw [readValue?.eq_def]
  dsimp only
  split
  · exact absurd (List.cons.inj ‹_›).1 hquote.1
  · exact absurd (List.cons.inj ‹_›).1 hquote.2
  · exact absurd (List.cons.inj ‹_›).1 hbracket.1
  · exact absurd (List.cons.inj ‹_›).1 hbracket.1
  · exact absurd (List.cons.inj ‹_›).1 hbracket.2
  · exact absurd (List.cons.inj ‹_›).1 hbracket.2
  · rfl

theorem ne_of_isDigit {d : Char} (hc : c.isDigit = true) (hd : d.isDigit = false) : c ≠ d := by
  rintro rfl
  exact Bool.false_ne_true (hd.symm.trans hc)

theorem readValue?_decimal (hmax : n < Nat.pow 2 127) (hc : isWordChar c = false) (hblank : c ≠ ' ') :
    readValue? room (fuel + 1) (decimal n ++ c :: rest) = some (.integer n, c :: rest) := by
  obtain ⟨d, ds, hcons, hd⟩ := exists_decimal_eq_cons n
  rw [← readWord?_decimal hmax hc hblank, hcons, List.cons_append]
  exact readValue?_eq_readWord? ⟨ne_of_isDigit hd rfl, ne_of_isDigit hd rfl⟩
    ⟨ne_of_isDigit hd rfl, ne_of_isDigit hd rfl⟩

/-- A written string begins with a mark of its form. -/
theorem writtenString_eq_cons (cs : List Char) :
    ∃ mark tail, (mark = '"' ∨ mark = '\'') ∧ writtenString cs = mark :: tail := by
  unfold writtenString
  extract_lets
  have hbasic : ∃ mark tail, (mark = '"' ∨ mark = '\'') ∧ basicString cs = mark :: tail :=
    ⟨_, _, Or.inl rfl, rfl⟩
  have hbasicLines : ∃ mark tail, (mark = '"' ∨ mark = '\'') ∧ basicLines cs = mark :: tail :=
    ⟨_, _, Or.inl rfl, rfl⟩
  have hliteral : ∃ mark tail, (mark = '"' ∨ mark = '\'') ∧ literalString cs = mark :: tail :=
    ⟨_, _, Or.inr rfl, rfl⟩
  have hliteralLines : ∃ mark tail, (mark = '"' ∨ mark = '\'') ∧ literalLines cs = mark :: tail :=
    ⟨_, _, Or.inr rfl, rfl⟩
  repeat' split
  all_goals assumption

theorem readValue?_writtenString (cs : List Char) (hquote : rest.head? ≠ some '"')
    (hapostrophe : rest.head? ≠ some '\'') :
    readValue? room (fuel + 1) (writtenString cs ++ rest) = some (.string cs, rest) := by
  have hread := readString?_writtenString cs hquote hapostrophe
  obtain ⟨mark, tail, hmark, hcons⟩ := writtenString_eq_cons cs
  rw [hcons, List.cons_append] at hread ⊢
  rw [readValue?.eq_def]
  rcases hmark with rfl | rfl
  · simp [hread]
  · simp [hread]

/-! ## Lists -/

theorem skipTrivia?_cons (hspace : isSpace c = false) (hmark : c ≠ '#' ∧ c ≠ '\n' ∧ c ≠ '\r') (rest : List Char) :
    skipTrivia? false (c :: rest) = some (c :: rest) := by
  unfold skipTrivia?
  split
  · exact absurd ‹_› (List.cons_ne_nil _ _)
  · exact absurd (List.cons.inj ‹_›).1 hmark.2.1
  · exact absurd (List.cons.inj ‹_›).1 hmark.2.2
  · obtain ⟨rfl, rfl⟩ := List.cons.inj ‹_›
    simp [hspace, hmark.1]

theorem skipTrivia?_decimal (n : Nat) (rest : List Char) :
    skipTrivia? false (decimal n ++ rest) = some (decimal n ++ rest) := by
  obtain ⟨d, ds, hcons, hd⟩ := exists_decimal_eq_cons n
  have hspace : d ≠ ' ' ∧ d ≠ '\t' := ⟨ne_of_isDigit hd rfl, ne_of_isDigit hd rfl⟩
  rw [hcons]
  exact skipTrivia?_cons (by simp [isSpace, hspace])
    ⟨ne_of_isDigit hd rfl, ne_of_isDigit hd rfl, ne_of_isDigit hd rfl⟩ _

/-- The items of a list that is written with a line for each, up to its closing bracket. -/
def itemLines (ns : List Nat) (rest : List Char) : List Char :=
  ns.flatMap (fun n => itemIndent ++ decimal n ++ [',', '\n']) ++ ']' :: rest

theorem itemLines_cons (n : Nat) (ns : List Nat) (rest : List Char) :
    itemLines (n :: ns) rest = itemIndent ++ (decimal n ++ ',' :: '\n' :: itemLines ns rest) := by
  simp [itemLines]

theorem skipTrivia?_itemLines_cons (n : Nat) (ns : List Nat) (rest : List Char) :
    skipTrivia? false (itemLines (n :: ns) rest) = some (decimal n ++ ',' :: '\n' :: itemLines ns rest) := by
  rw [itemLines_cons, ← skipTrivia?_decimal]
  rfl

/-- An item is not the end of its list. -/
theorem readItems?_of_ne (hc : c ≠ ']') :
    readItems? room (fuel + 1) (c :: cs) = (do
      let (item, rest) ← readValue? room fuel (c :: cs)
      match ← skipTrivia? false rest with
      | ',' :: rest => do
        let (items, rest) ← readItems? room fuel (← skipTrivia? false rest)
        some (item :: items, rest)
      | ']' :: rest => some ([item], rest)
      | _ => none) := by
  rw [readItems?.eq_def]
  dsimp only
  split
  · exact absurd (List.cons.inj ‹_›).1 hc
  · rfl

theorem readItems?_comma (hmax : n < Nat.pow 2 127) (rest : List Char) :
    readItems? room (fuel + 2) (decimal n ++ ',' :: rest) = (do
      let (items, rest) ← readItems? room (fuel + 1) (← skipTrivia? false rest)
      some (.integer n :: items, rest)) := by
  obtain ⟨d, ds, hcons, hd⟩ := exists_decimal_eq_cons n
  have hvalue : readValue? room (fuel + 1) (decimal n ++ ',' :: rest) = some (.integer n, ',' :: rest) :=
    readValue?_decimal hmax (by decide) (by decide)
  rw [hcons, List.cons_append] at hvalue ⊢
  rw [readItems?_of_ne (ne_of_isDigit hd rfl), hvalue]
  rfl

theorem readItems?_closing (hmax : n < Nat.pow 2 127) (rest : List Char) :
    readItems? room (fuel + 2) (decimal n ++ ']' :: rest) = some ([.integer n], rest) := by
  obtain ⟨d, ds, hcons, hd⟩ := exists_decimal_eq_cons n
  have hvalue : readValue? room (fuel + 1) (decimal n ++ ']' :: rest) = some (.integer n, ']' :: rest) :=
    readValue?_decimal hmax (by decide) (by decide)
  rw [hcons, List.cons_append] at hvalue ⊢
  rw [readItems?_of_ne (ne_of_isDigit hd rfl), hvalue]
  rfl

theorem readItems?_itemLines {ns : List Nat} (hmax : ∀ n ∈ ns, n < Nat.pow 2 127) (hfuel : ns.length < fuel) :
    ∃ cs, skipTrivia? false (itemLines ns rest) = some cs ∧
      readItems? room fuel cs = some (ns.map fun n : Nat => integer n, rest) := by
  induction ns generalizing fuel with
  | nil =>
    obtain ⟨fuel, rfl⟩ := Nat.exists_eq_succ_of_ne_zero (Nat.ne_of_gt hfuel)
    exact ⟨_, rfl, rfl⟩
  | cons n ns ih =>
    rw [List.length_cons] at hfuel
    obtain ⟨fuel, rfl⟩ : ∃ k, fuel = k + 2 := ⟨fuel - 2, by omega⟩
    rw [List.forall_mem_cons] at hmax
    obtain ⟨cs, hskip, hread⟩ := ih hmax.2 (show ns.length < fuel + 1 by omega)
    have hskip : skipTrivia? false ('\n' :: itemLines ns rest) = some cs := hskip
    refine ⟨_, skipTrivia?_itemLines_cons n ns rest, ?_⟩
    rw [readItems?_comma hmax.1, hskip, Option.bind_eq_bind, Option.bind_some, hread]
    rfl

theorem signedDecimal_ofNat (n : Nat) : signedDecimal (Int.ofNat n) = decimal n :=
  if_neg (Int.not_lt.2 (Int.natCast_nonneg n))

/-- A list of several items is written with a line for each. -/
theorem writtenList_eq_itemLines (m n : Nat) (ns : List Nat) (rest : List Char) :
    writtenList ((m :: n :: ns).map Int.ofNat) ++ rest = '[' :: '\n' :: itemLines (m :: n :: ns) rest := by
  simp only [writtenList, itemLines, List.map_cons, List.flatMap_cons, List.flatMap_map, signedDecimal_ofNat]
  simp

theorem readValue?_writtenList {ns : List Nat} (hmax : ∀ n ∈ ns, n < Nat.pow 2 127) (hfuel : ns.length + 1 < fuel) :
    readValue? (room + 1) fuel (writtenList (ns.map Int.ofNat) ++ rest) =
      some (.array (ns.map fun n : Nat => integer n), rest) := by
  obtain ⟨fuel, rfl⟩ : ∃ k, fuel = k + 2 := ⟨fuel - 2, by omega⟩
  match ns, hmax with
  | [], _ => rfl
  | [n], hmax =>
    obtain ⟨fuel, rfl⟩ : ∃ k, fuel = k + 1 := ⟨fuel - 1, by simp at hfuel; omega⟩
    have hform : writtenList ([n].map Int.ofNat) ++ rest = '[' :: (decimal n ++ ']' :: rest) := by
      simp only [List.map_cons, List.map_nil, writtenList, signedDecimal_ofNat]
      simp
    rw [hform, readValue?, skipTrivia?_decimal, Option.bind_eq_bind, Option.bind_some,
      readItems?_closing (hmax n List.mem_cons_self)]
    rfl
  | m :: n :: ns, hmax =>
    have hlines : ∃ cs, skipTrivia? false (itemLines (m :: n :: ns) rest) = some cs ∧
        readItems? room (fuel + 1) cs = some ((m :: n :: ns).map fun n : Nat => integer n, rest) :=
      readItems?_itemLines hmax (by omega)
    obtain ⟨cs, hskip, hread⟩ := hlines
    have hskip : skipTrivia? false ('\n' :: itemLines (m :: n :: ns) rest) = some cs := hskip
    rw [writtenList_eq_itemLines, readValue?, hskip, Option.bind_eq_bind, Option.bind_some, hread]
    rfl

/-! ## Values at the end of a line -/

theorem denotes_decimal (hmax : n < Nat.pow 2 127) : Denotes (decimal n) (.integer n) where
  skips rest := by
    obtain ⟨d, ds, hcons, hd⟩ := exists_decimal_eq_cons n
    have hspace : d ≠ ' ' ∧ d ≠ '\t' := ⟨ne_of_isDigit hd rfl, ne_of_isDigit hd rfl⟩
    rw [hcons]
    exact skipSpaces_cons (by simp [isSpace, hspace]) _
  reads rest fuel hfuel := by
    obtain ⟨fuel, rfl⟩ := Nat.exists_eq_succ_of_ne_zero (Nat.ne_of_gt (Nat.zero_lt_of_lt hfuel))
    exact readValue?_decimal hmax (by decide) (by decide)

theorem denotes_writtenString (cs : List Char) : Denotes (writtenString cs) (.string cs) where
  skips rest := by
    obtain ⟨mark, tail, hmark, hcons⟩ := writtenString_eq_cons cs
    rw [hcons]
    exact skipSpaces_cons (by rcases hmark with rfl | rfl <;> rfl) _
  reads rest fuel hfuel := by
    obtain ⟨fuel, rfl⟩ := Nat.exists_eq_succ_of_ne_zero (Nat.ne_of_gt (Nat.zero_lt_of_lt hfuel))
    exact readValue?_writtenString cs nofun nofun

theorem length_lt_length_itemLines (ns : List Nat) (rest : List Char) :
    ns.length < (itemLines ns rest).length := by
  induction ns with
  | nil => exact Nat.zero_lt_succ _
  | cons n ns ih =>
    simp only [itemLines_cons, List.length_append, List.length_cons]
    omega

theorem length_lt_length_writtenList (ns : List Nat) :
    ns.length + 1 < (writtenList (ns.map Int.ofNat)).length := by
  match ns with
  | [] => decide
  | [n] =>
    have hdigits := List.length_pos_iff.2 (decimal_ne_nil n)
    simp only [List.map_cons, List.map_nil, writtenList, signedDecimal_ofNat, List.length_cons,
      List.length_append, List.length_nil]
    omega
  | m :: n :: ns =>
    have hlines := length_lt_length_itemLines (m :: n :: ns) []
    have hform := writtenList_eq_itemLines m n ns []
    rw [List.append_nil] at hform
    rw [hform]
    simp only [List.length_cons] at hlines ⊢
    omega

theorem denotes_writtenList {ns : List Nat} (hmax : ∀ n ∈ ns, n < Nat.pow 2 127) :
    Denotes (writtenList (ns.map Int.ofNat)) (.array (ns.map fun n : Nat => integer n)) where
  skips rest := by
    match ns with
    | [] => rfl
    | [_] => rfl
    | _ :: _ :: _ => rfl
  reads rest fuel hfuel := readValue?_writtenList hmax (Nat.lt_trans (length_lt_length_writtenList ns) hfuel)

/-! ## Lines -/

/-- A key that is written without quotes. -/
def IsBareKey (key : String) : Prop := key.toList ≠ [] ∧ key.toList.all isBareKeyChar = true

instance (key : String) : Decidable (IsBareKey key) :=
  inferInstanceAs (Decidable (key.toList ≠ [] ∧ key.toList.all isBareKeyChar = true))

variable {key : String} {p q : Place}

theorem readLine?_of_ne (hc : c ≠ '"' ∧ c ≠ '\'') : readLine? (c :: cs) = none := by
  unfold readLine?
  split
  · exact absurd (List.cons.inj ‹_›).1 hc.1
  · exact absurd (List.cons.inj ‹_›).1 hc.2
  · rfl

theorem ne_of_isBareKeyChar {d : Char} (hc : isBareKeyChar c = true) (hd : isBareKeyChar d = false) : c ≠ d := by
  rintro rfl
  exact Bool.false_ne_true (hd.symm.trans hc)

theorem IsBareKey.chars (h : IsBareKey key) : ∀ c ∈ key.toList, isBareKeyChar c = true :=
  List.all_eq_true.1 h.2

theorem IsBareKey.exists_cons (h : IsBareKey key) :
    ∃ c cs, key.toList = c :: cs ∧ isBareKeyChar c = true := by
  obtain ⟨c, cs, hcons⟩ := List.exists_cons_of_ne_nil h.1
  exact ⟨c, cs, hcons, h.chars c (hcons ▸ List.mem_cons_self)⟩

theorem readKeyPart?_bare (hkey : IsBareKey key) (rest : List Char) :
    readKeyPart? (key.toList ++ ' ' :: rest) = some (key, ' ' :: rest) := by
  obtain ⟨c, cs, hcons, hc⟩ := hkey.exists_cons
  have hline : readLine? (key.toList ++ ' ' :: rest) = none := by
    rw [hcons]
    exact readLine?_of_ne ⟨ne_of_isBareKeyChar hc rfl, ne_of_isBareKeyChar hc rfl⟩
  have hname : (key.toList ++ ' ' :: rest).takeWhile isBareKeyChar = key.toList := by
    rw [List.takeWhile_append_of_pos hkey.chars, List.takeWhile_cons_of_neg (by decide), List.append_nil]
  have hrest : (key.toList ++ ' ' :: rest).dropWhile isBareKeyChar = ' ' :: rest := by
    rw [List.dropWhile_append_of_pos hkey.chars, List.dropWhile_cons_of_neg (by decide)]
  rw [readKeyPart?, hline]
  dsimp only
  rw [hname, hrest, hcons]
  dsimp only
  rw [← hcons, String.ofList_toList]

theorem readKey?_bare (hkey : IsBareKey key) (rest : List Char) :
    readKey? (key.toList ++ ' ' :: '=' :: rest) = some ([key], '=' :: rest) := by
  rw [readKey?, partLimit, readParts?, readKeyPart?_bare hkey]
  rfl

theorem length_lt_length_line (key : String) (text rest : List Char) :
    text.length < (line key text ++ rest).length := by
  simp only [line, List.length_append, List.length_cons]
  omega

theorem line_append (key : String) (text rest : List Char) :
    line key text ++ rest = key.toList ++ ' ' :: '=' :: ' ' :: (text ++ '\n' :: rest) := by
  simp [line]

theorem readLineOf?_line (hkey : IsBareKey key) (htext : Denotes text value)
    (hassign : p.assign? [key] value = some q) (rest : List Char) :
    readLineOf? p (line key text ++ rest) = some (q, rest) := by
  have hlength := length_lt_length_line key text rest
  have hread := htext.reads rest (2 * (line key text ++ rest).length + 2) (by omega)
  have hskip : skipSpaces (' ' :: (text ++ '\n' :: rest)) = text ++ '\n' :: rest := htext.skips _
  obtain ⟨c, cs, hcons, hc⟩ := hkey.exists_cons
  rw [line_append] at hread ⊢
  unfold readLineOf?
  generalize 2 * (key.toList ++ ' ' :: '=' :: ' ' :: (text ++ '\n' :: rest)).length + 2 = fuel at hread ⊢
  split
  · rename_i h
    rw [hcons] at h
    exact absurd (List.cons.inj h).1 (ne_of_isBareKeyChar hc rfl)
  · rename_i h
    rw [hcons] at h
    exact absurd (List.cons.inj h).1 (ne_of_isBareKeyChar hc rfl)
  · rw [readKey?_bare hkey, Option.bind_eq_bind, Option.bind_some]
    simp [hskip, hread, hassign, skipLineEnd?]

theorem skipTrivia?_line (hkey : IsBareKey key) (text rest : List Char) :
    skipTrivia? false (line key text ++ rest) = some (line key text ++ rest) := by
  obtain ⟨c, cs, hcons, hc⟩ := hkey.exists_cons
  have hspace : c ≠ ' ' ∧ c ≠ '\t' := ⟨ne_of_isBareKeyChar hc rfl, ne_of_isBareKeyChar hc rfl⟩
  rw [line_append, hcons]
  exact skipTrivia?_cons (by simp [isSpace, hspace])
    ⟨ne_of_isBareKeyChar hc rfl, ne_of_isBareKeyChar hc rfl, ne_of_isBareKeyChar hc rfl⟩ _

/-- The line is taken off, and its key assigned. -/
theorem readLinesOf?_line (hkey : IsBareKey key) (htext : Denotes text value)
    (hassign : p.assign? [key] value = some q) (rest : List Char) :
    readLinesOf? (fuel + 1) p (line key text ++ rest) = readLinesOf? fuel q rest := by
  have hne : line key text ++ rest ≠ [] := by simp [line_append]
  rw [readLinesOf?, skipTrivia?_line hkey, Option.bind_eq_bind, Option.bind_some]
  split
  · contradiction
  · rw [readLineOf?_line hkey htext hassign]
    rfl

/-! ## Documents -/

theorem lookup?_eq_none {entries : Entries} (h : key ∉ entries.map Prod.fst) : lookup? key entries = none := by
  rw [lookup?, Option.map_eq_none_iff, List.find?_eq_none]
  rintro entry hentry heq
  exact h (List.mem_map.2 ⟨entry, hentry, by simpa using heq⟩)

theorem Place.assign?_new (root : Entries) (value : Toml) (h : key ∉ root.map Prod.fst) :
    Place.assign? ⟨root, []⟩ [key] value = some ⟨root ++ [(key, value)], []⟩ := by
  simp [Place.assign?, within, assign, lookup?_eq_none h]

/-- A key with its value, and the text that stands for the value. -/
structure WrittenEntry where
  key : String
  text : List Char
  value : Toml

namespace WrittenEntry

/-- The line of an entry. -/
def line (e : WrittenEntry) : List Char := Toml.line e.key e.text

/-- The entry as it is read. -/
def entry (e : WrittenEntry) : String × Toml := (e.key, e.value)

/-- The key needs no quotes, and the text stands for the value. -/
structure Sound (e : WrittenEntry) : Prop where
  isBareKey : IsBareKey e.key
  denotes : Denotes e.text e.value

end WrittenEntry

theorem readLinesOf?_lines {es : List WrittenEntry} (hes : ∀ e ∈ es, e.Sound) {root : Entries}
    (hkeys : (root.map Prod.fst ++ es.map (·.key)).Nodup) (hfuel : es.length < fuel) :
    readLinesOf? fuel ⟨root, []⟩ (es.flatMap (·.line) ++ ['\n']) = some (root ++ es.map (·.entry)) := by
  induction es generalizing root fuel with
  | nil =>
    obtain ⟨fuel, rfl⟩ := Nat.exists_eq_succ_of_ne_zero (Nat.ne_of_gt hfuel)
    simp [readLinesOf?, skipTrivia?]
  | cons e es ih =>
    obtain ⟨fuel, rfl⟩ := Nat.exists_eq_succ_of_ne_zero (Nat.ne_of_gt (Nat.zero_lt_of_lt hfuel))
    rw [List.forall_mem_cons] at hes
    rw [List.map_cons] at hkeys
    have hnew : e.key ∉ root.map Prod.fst := fun h =>
      (List.nodup_append.1 hkeys).2.2 _ h _ List.mem_cons_self rfl
    have hrest : ((root ++ [e.entry]).map Prod.fst ++ es.map (·.key)).Nodup := by
      simpa [WrittenEntry.entry] using hkeys
    rw [List.flatMap_cons, List.append_assoc, WrittenEntry.line, readLinesOf?_line hes.1.isBareKey hes.1.denotes
      (Place.assign?_new root e.value hnew), List.map_cons, List.append_cons root e.entry]
    exact ih hes.2 hrest (Nat.lt_of_succ_lt_succ hfuel)

theorem withoutMark_of_ne (hc : c ≠ byteOrderMark) (rest : List Char) : withoutMark (c :: rest) = c :: rest :=
  if_neg hc

theorem length_le_length_lines (es : List WrittenEntry) : es.length ≤ (es.flatMap (·.line)).length := by
  induction es with
  | nil => exact Nat.le_refl 0
  | cons e es ih =>
    have hline := length_lt_length_line e.key e.text []
    rw [List.append_nil] at hline
    rw [List.flatMap_cons, List.length_append, List.length_cons, WrittenEntry.line]
    omega

/-- A document is read as its keys with their values. -/
theorem read?_lines {es : List WrittenEntry} (hes : ∀ e ∈ es, e.Sound) (hkeys : (es.map (·.key)).Nodup) :
    read? (es.flatMap (·.line) ++ ['\n']) = some (es.map (·.entry)) := by
  have hmark : withoutMark (es.flatMap (·.line) ++ ['\n']) = es.flatMap (·.line) ++ ['\n'] := by
    cases es with
    | nil => rfl
    | cons e es =>
      obtain ⟨c, cs, hcons, hc⟩ := (hes e List.mem_cons_self).isBareKey.exists_cons
      rw [List.flatMap_cons, List.append_assoc, WrittenEntry.line, line_append, hcons]
      exact withoutMark_of_ne (ne_of_isBareKeyChar hc (by decide)) _
  have hlength := length_le_length_lines es
  rw [read?, hmark]
  exact readLinesOf?_lines hes hkeys (by rw [List.length_append]; omega)

end RobotPuzzle.Toml
