import RobotPuzzle.Proofs.Program.Removal
import RobotPuzzle.Proofs.Program.Reordering

/-!
# What an id stands for

Whoever edits a program keeps the ids that were handed out, also those of instructions that have been taken
out since, and may pass them to any later operation. Ids count up along a whole history and are never given
back, so an id stands for one instruction or for none: an edit leaves the instructions that are there of the
kind they are and where they are, or takes them out for good.

## Main definitions

- `Edit.added?` — the instruction an operation asks to add
- `Edit.Answer.Fails`, `Edit.Answer.id?` — an operation did not apply, and the id it hands out
- `Program.Keeps` — the ids of a program stand for the same in another, or for nothing
- `Program.handedOut` — the ids handed out along a history

## Main statements

- `Program.WellFormed.keeps_perform` — no edit makes an id stand for something else
- `Program.range_append_answers` — ids count up
- `Program.ids_afterEdits` — additions, failures and ids after every history
-/

namespace RobotPuzzle

theorem Op.kind_ofKind (kind : Kind) (count : Nat) : (Op.ofKind kind count).kind = kind := by
  unfold ofKind
  cases hkind : kind.command? with
  | some c => exact (Kind.eq_kind_of_command? hkind).symm
  | none => exact (Kind.eq_loop_of_command? hkind).symm

/-! ## Operations and their answers -/

namespace Edit

/-- The kind and the parent of the instruction that an operation asks to add. -/
def added? : Edit → Option (Kind × Option NodeId)
  | append kind parent => some (kind, parent)
  | appendLoop _ parent => some (.loop, parent)
  | remove _ | clear | reorder _ _ _ | setCount _ _ => none

namespace Answer

/-- The operation did not apply. -/
def Fails (answer : Answer) : Prop := answer = .added none ∨ answer = .changed false

/-- The id that is handed out, if one is. -/
def id? : Answer → Option NodeId
  | added id => id
  | changed _ | cleared => none

end Answer

variable {p : Program} {e : Edit} {kind : Kind} {parent : Option NodeId}

/-- An operation that does not apply changes nothing. -/
theorem perform_of_fails (h : (e.perform p).1.Fails) : (e.perform p).2 = p := by
  have haddition : ∀ added, (ofAddition p added).1.Fails → (ofAddition p added).2 = p := by
    rintro (_ | ⟨id, q⟩) (h | h) <;> cases h
    rfl
  have hchange : ∀ changed, (ofChange p changed).1.Fails → (ofChange p changed).2 = p := by
    rintro (_ | q) (h | h) <;> cases h
    rfl
  cases e with
  | append | appendLoop => exact haddition _ h
  | remove | reorder | setCount => exact hchange _ h
  | clear => rcases h with h | h <;> cases h

/-- An addition inserts an instruction of its kind under its parent. -/
theorem exists_perform_eq_of_added? (h : e.added? = some (kind, parent)) :
    ∃ count, e.perform p = ofAddition p (p.insert (.ofKind kind count) parent) := by
  cases e with
  | append | appendLoop =>
    cases h
    exact ⟨_, rfl⟩
  | remove | clear | reorder | setCount => cases h

end Edit

namespace Program

variable {p q r : Program} {id : NodeId} {kind : Kind} {parent : Option NodeId}

/-! ## Where instructions are added -/

/-- The loops that have a sequence under them are the live ones. -/
theorem isSome_sequence?_iff : (p.sequence? (some id)).isSome ↔ p.kind? id = some .loop := by
  rw [sequence?, loopBody?_eq_bind, kind?]
  cases p.get? id with
  | none => simp
  | some node =>
    cases hop : node.op with
    | command c => simp [hop, Op.body?, Op.kind, c.kind_ne_loop]
    | loop count body => simp [hop, Op.body?, Op.kind]

theorem isSome_insert_iff (op : Op) :
    (p.insert op parent).isSome ↔
      parent = none ∨ ∃ loopId, parent = some loopId ∧ p.kind? loopId = some .loop := by
  rw [insert, Option.isSome_map]
  cases parent with
  | none => simp
  | some loopId => simp [isSome_sequence?_iff]

/-- A new instruction is what was asked for. -/
theorem WellFormed.kind?_insert (h : p.WellFormed) {count : Nat}
    (hinsert : p.insert (.ofKind kind count) parent = some (id, q)) :
    q.kind? id = some kind ∧ q.parent? id = some parent := by
  obtain ⟨rfl, ids, -, rfl⟩ := insert_eq_some_iff.1 hinsert
  rw [kind?_grow h.get?_nextId, if_pos rfl, parent?_grow h.get?_nextId, if_pos rfl, Op.kind_ofKind]
  exact ⟨rfl, rfl⟩

/-! ## Ids that stay or go -/

theorem kind?_eq_none_iff : p.kind? id = none ↔ p.get? id = none := Option.map_eq_none_iff

/-- The ids handed out for one program stand for an instruction of the same kind in the same place in the
other, or for nothing. -/
structure Keeps (p q : Program) : Prop where
  nextId_le : p.nextId ≤ q.nextId
  same_or_gone : ∀ id < p.nextId,
    q.get? id = none ∨ (q.kind? id = p.kind? id ∧ q.parent? id = p.parent? id)

namespace Keeps

theorem refl (p : Program) : p.Keeps p := ⟨Nat.le_refl _, fun _ _ => Or.inr ⟨rfl, rfl⟩⟩

/-- What is gone stays gone. -/
theorem get?_eq_none (h : p.Keeps q) (hid : id < p.nextId) (hgone : p.get? id = none) : q.get? id = none := by
  rcases h.same_or_gone id hid with hnone | ⟨hkind, -⟩
  · exact hnone
  · rwa [← kind?_eq_none_iff, hkind, kind?_eq_none_iff]

theorem trans (h : p.Keeps q) (h' : q.Keeps r) : p.Keeps r where
  nextId_le := Nat.le_trans h.nextId_le h'.nextId_le
  same_or_gone id hid := by
    have hid' : id < q.nextId := Nat.lt_of_lt_of_le hid h.nextId_le
    rcases h'.same_or_gone id hid' with hgone | ⟨hkind, hparent⟩
    · exact Or.inl hgone
    · rw [hkind, hparent]
      exact (h.same_or_gone id hid).imp_left (h'.get?_eq_none hid')

end Keeps

namespace WellFormed

theorem keeps_insert (h : p.WellFormed) {op : Op} (hinsert : p.insert op parent = some (id, q)) :
    p.Keeps q := by
  obtain ⟨-, ids, -, rfl⟩ := insert_eq_some_iff.1 hinsert
  refine ⟨Nat.le_succ _, fun i hi => Or.inr ⟨?_, ?_⟩⟩
  · rw [kind?_grow h.get?_nextId, if_neg (Nat.ne_of_lt hi)]
  · rw [parent?_grow h.get?_nextId, if_neg (Nat.ne_of_lt hi)]

/-- No edit makes an id stand for something else. -/
theorem keeps_perform (h : p.WellFormed) (e : Edit) : p.Keeps (e.perform p).2 := by
  cases e with
  | append kind parent => exact Edit.ofAddition_induction (.refl p) fun _ _ hq => h.keeps_insert hq
  | appendLoop count parent => exact Edit.ofAddition_induction (.refl p) fun _ _ hq => h.keeps_insert hq
  | remove removed =>
    refine Edit.ofChange_induction (.refl p) fun q hq => ⟨(nextId_of_remove hq).ge, fun i _ => ?_⟩
    rw [← kind?_eq_none_iff, kind?_of_remove hq, parent?_of_remove hq]
    by_cases hi : i ∈ p.subtree removed
    · exact Or.inl (if_pos hi)
    · exact Or.inr ⟨if_neg hi, if_neg hi⟩
  | clear => exact ⟨Nat.le_refl _, fun i _ => Or.inl rfl⟩
  | reorder parent source dest =>
    refine Edit.ofChange_induction (.refl p) fun q hq => ⟨(nextId_of_reorder hq).ge, fun i _ => ?_⟩
    exact Or.inr ⟨kind?_of_reorder hq, parent?_of_reorder hq⟩
  | setCount changed count =>
    refine Edit.ofChange_induction (.refl p) fun q hq => ?_
    obtain ⟨body, hbody, rfl⟩ := setCount_eq_some_iff.1 hq
    exact ⟨Nat.le_refl _, fun i _ => Or.inr ⟨kind?_recount hbody, parent?_recount⟩⟩

theorem keeps_afterEdits (h : p.WellFormed) (edits : List Edit) : p.Keeps (p.afterEdits edits) := by
  induction edits generalizing p with
  | nil => exact .refl p
  | cons e edits ih => exact (h.keeps_perform e).trans (ih (h.perform e))

end WellFormed

/-! ## Ids that are handed out -/

/-- What a list of operations answers. -/
def answers (p : Program) : List Edit → List Edit.Answer
  | [] => []
  | e :: edits => (e.perform p).1 :: answers (e.perform p).2 edits

/-- The ids handed out along a history, in order. -/
def handedOut (edits : List Edit) : List NodeId :=
  (empty.answers edits).filterMap Edit.Answer.id?

/-- An operation hands out the next id and uses it up, or it does neither. -/
theorem id?_perform_cases (p : Program) (e : Edit) :
    ((e.perform p).1.id? = some p.nextId ∧ (e.perform p).2.nextId = p.nextId + 1) ∨
      ((e.perform p).1.id? = none ∧ (e.perform p).2.nextId = p.nextId) := by
  have haddition : ∀ op parent,
      ((Edit.ofAddition p (p.insert op parent)).1.id? = some p.nextId ∧
        (Edit.ofAddition p (p.insert op parent)).2.nextId = p.nextId + 1) ∨
      ((Edit.ofAddition p (p.insert op parent)).1.id? = none ∧
        (Edit.ofAddition p (p.insert op parent)).2.nextId = p.nextId) := by
    intro op parent
    cases hinsert : p.insert op parent with
    | none => exact Or.inr ⟨rfl, rfl⟩
    | some pair =>
      obtain ⟨hid, ids, -, hq⟩ := insert_eq_some_iff.1 hinsert
      exact Or.inl ⟨congrArg some hid, congrArg nextId hq⟩
  have hchange : ∀ changed : Option Program, (∀ q, changed = some q → q.nextId = p.nextId) →
      (Edit.ofChange p changed).1.id? = none ∧ (Edit.ofChange p changed).2.nextId = p.nextId := by
    rintro (_ | q) hq
    · exact ⟨rfl, rfl⟩
    · exact ⟨rfl, hq q rfl⟩
  cases e with
  | append | appendLoop => exact haddition _ _
  | remove id => exact Or.inr (hchange _ fun _ => nextId_of_remove)
  | clear => exact Or.inr ⟨rfl, rfl⟩
  | reorder parent source dest => exact Or.inr (hchange _ fun _ => nextId_of_reorder)
  | setCount id count =>
    refine Or.inr (hchange _ fun q hq => ?_)
    obtain ⟨body, -, rfl⟩ := setCount_eq_some_iff.1 hq
    rfl

/-- Ids count up: those handed out along a history follow on those before it. -/
theorem range_append_answers (p : Program) (edits : List Edit) :
    List.range p.nextId ++ (p.answers edits).filterMap Edit.Answer.id? =
      List.range (p.afterEdits edits).nextId := by
  induction edits generalizing p with
  | nil => exact List.append_nil _
  | cons e edits ih =>
    have hrest := ih (e.perform p).2
    rw [answers]
    rcases id?_perform_cases p e with ⟨hid, hnext⟩ | ⟨hid, hnext⟩
    · rw [List.filterMap_cons_some hid]
      rw [hnext, List.range_succ, List.append_assoc] at hrest
      exact hrest
    · rw [List.filterMap_cons_none hid]
      rw [hnext] at hrest
      exact hrest

theorem handedOut_eq_range (edits : List Edit) :
    handedOut edits = List.range (empty.afterEdits edits).nextId :=
  range_append_answers empty edits

/-! ## Every history -/

/-- Whatever operations have built a program: an operation that does not apply leaves it as it is. An
addition applies at the top level and in live loops and nowhere else; the id it hands out is the next one and
stands for what was added. The ids handed out so far are 0, 1, 2 and so on in order, whatever was taken out
or cleared in between, and each of them stands for nothing now, or for an instruction that it stood for at
any time since it was handed out, of the same kind and in the same place. -/
theorem ids_afterEdits (edits : List Edit) :
    let p := empty.afterEdits edits
    (∀ e : Edit, (e.perform p).1.Fails → (e.perform p).2 = p) ∧
      (∀ (e : Edit) (kind : Kind) (parent : Option NodeId), e.added? = some (kind, parent) →
        ((∃ id, (e.perform p).1 = .added (some id)) ↔
          parent = none ∨ ∃ loopId, parent = some loopId ∧ p.kind? loopId = some .loop) ∧
        ∀ id, (e.perform p).1 = .added (some id) →
          id = p.nextId ∧ (e.perform p).2.kind? id = some kind ∧
            (e.perform p).2.parent? id = some parent) ∧
      handedOut edits = List.range p.nextId ∧
      ∀ before after, edits = before ++ after → ∀ id ∈ handedOut before,
        let q := empty.afterEdits before
        p.get? id = none ∨
          ((q.get? id).isSome ∧ p.kind? id = q.kind? id ∧ p.parent? id = q.parent? id) := by
  intro p
  have hp : p.WellFormed := Authored.wellFormed ⟨edits, rfl⟩
  refine ⟨fun e => Edit.perform_of_fails, ?_, handedOut_eq_range edits, ?_⟩
  · intro e kind parent hadded
    obtain ⟨count, hperform⟩ := Edit.exists_perform_eq_of_added? (p := p) hadded
    rw [hperform, ← isSome_insert_iff (.ofKind kind count)]
    cases hinsert : p.insert (.ofKind kind count) parent with
    | none => simp [Edit.ofAddition]
    | some pair =>
      obtain ⟨new, q⟩ := pair
      refine ⟨by simp [Edit.ofAddition], fun id hid => ?_⟩
      obtain rfl : new = id := by simpa [Edit.ofAddition] using hid
      exact ⟨(insert_eq_some_iff.1 hinsert).1, hp.kind?_insert hinsert⟩
  · rintro before after rfl id hid q
    have hq : q.WellFormed := Authored.wellFormed ⟨before, rfl⟩
    have hlt : id < q.nextId := by
      rwa [handedOut_eq_range, List.mem_range] at hid
    have hafter : p = q.afterEdits after := List.foldl_append ..
    have hkeeps : q.Keeps p := hafter ▸ hq.keeps_afterEdits after
    cases hlive : q.get? id with
    | none => exact Or.inl (hkeeps.get?_eq_none hlt hlive)
    | some node => exact (hkeeps.same_or_gone id hlt).imp_right fun hsame => ⟨rfl, hsame⟩

end Program

end RobotPuzzle
