import RobotPuzzle.Proofs.Machine.Transition

/-!
# Tickets

Any number of clients share a machine, each with tickets from runs it started at some time. What a
client may expect is told from the calls and answers alone: the machine listens to the ticket of the
latest run, until that run is given up or comes to its end, and to no other. A call with any other
ticket might as well not have been made.

## Main definitions

- `Machine.Exchange`, `Machine.history` — a call with its answer, and the exchanges of a list of calls
- `Machine.Current` — the ticket of a run that still goes on, told from the exchanges so far
- `Machine.TicketInvariant` — how the state of the machine goes with the exchanges so far

## Main statements

- `Machine.afterCalls_induction` — what every exchange keeps holds after every list of calls
- `Machine.only_current_ticket_accepted` — after every history at most one ticket is accepted, the
  other calls are stale and change nothing, and leaving them out changes nothing either
-/

namespace RobotPuzzle

namespace Machine

/-- A call and what the machine answered. -/
structure Exchange where
  call : Call
  answer : Answer
deriving DecidableEq

namespace Exchange

/-- The ticket that was handed out, if one was. -/
def granted? (x : Exchange) : Option Ticket :=
  match x.answer with
  | .started ticket => ticket
  | _ => none

/-- The machine was reset, another level was bound, or the run came to its end. -/
def Releases (x : Exchange) : Prop :=
  match x.call, x.answer with
  | .loadLevel _, _ => True
  | .reset, _ => True
  | _, .began (.finished _) => True
  | _, .committed (.applied step) => step.outcome.isSome
  | _, _ => False

/-- The call was refused because of its ticket. -/
def stale (x : Exchange) : Bool := x.answer = .began .stale || x.answer = .committed .stale

end Exchange

/-- The exchanges that a list of calls leads to. -/
def history (m : Machine) : List Call → List Exchange
  | [] => []
  | c :: rest => ⟨c, (m.perform c).1⟩ :: history (m.perform c).2 rest

/-- The tickets handed out, in order. -/
def issued (past : List Exchange) : List Ticket := past.filterMap Exchange.granted?

/-- The calls that were not refused because of their tickets. -/
def withoutStale (m : Machine) (calls : List Call) : List Call :=
  ((m.history calls).filter fun x => !x.stale).map (·.call)

/-- The ticket was handed out, and since then no other was, the machine was not reset, no level was
bound and no run came to its end. -/
def Current (past : List Exchange) (t : Ticket) : Prop :=
  ∃ before x after, past = before ++ x :: after ∧ x.granted? = some t ∧
    ∀ y ∈ after, y.granted? = none ∧ ¬ y.Releases

/-! ## Histories -/

/-- What every exchange keeps of a machine and the exchanges so far holds after every list of calls. -/
theorem afterCalls_induction {P : Machine → List Exchange → Prop}
    (hstep : ∀ m past, P m past → ∀ c, P (m.perform c).2 (past ++ [⟨c, (m.perform c).1⟩])) {m : Machine}
    {past : List Exchange} (h : P m past) (calls : List Call) :
    P (m.afterCalls calls) (past ++ m.history calls) := by
  induction calls generalizing m past with
  | nil => simpa [history, afterCalls] using h
  | cons c rest ih =>
    have hrest := ih (hstep m past h c)
    simpa [history, afterCalls] using hrest

theorem not_current_nil (t : Ticket) : ¬ Current [] t := by
  rintro ⟨before, x, after, h, -, -⟩
  cases before <;> simp at h

/-- The current ticket is the one handed out last. -/
theorem Current.getLast?_issued {past : List Exchange} {t : Ticket} (h : Current past t) :
    (issued past).getLast? = some t := by
  obtain ⟨before, x, after, rfl, hx, hafter⟩ := h
  have hnone : issued after = [] := by
    unfold issued
    rw [List.filterMap_eq_nil_iff]
    exact fun y hy => (hafter y hy).1
  have happend : issued (before ++ x :: after) = issued before ++ t :: issued after := by
    simp [issued, hx]
  rw [happend, hnone, List.getLast?_concat]

/-- Which ticket is current after one more exchange. -/
theorem current_concat_iff {past : List Exchange} {x : Exchange} {t : Ticket} :
    Current (past ++ [x]) t ↔
      x.granted? = some t ∨ (x.granted? = none ∧ ¬ x.Releases ∧ Current past t) := by
  constructor
  · -- either the ticket came with the last exchange, or the last exchange left it alone
    rintro ⟨before, y, after, h, hy, hafter⟩
    rcases List.eq_nil_or_concat after with rfl | ⟨earlier, z, rfl⟩
    · obtain ⟨-, hxy⟩ := List.append_inj' h rfl
      obtain rfl : x = y := by simpa using hxy
      exact Or.inl hy
    · have h' : past ++ [x] = (before ++ y :: earlier) ++ [z] := by simpa using h
      obtain ⟨rfl, hxz⟩ := List.append_inj' h' rfl
      obtain rfl : x = z := by simpa using hxz
      have hx := hafter x (by simp)
      exact Or.inr ⟨hx.1, hx.2, before, y, earlier, rfl, hy, fun w hw => hafter w (by simp [hw])⟩
  · rintro (hx | ⟨hnone, hkeeps, before, y, after, rfl, hy, hafter⟩)
    · exact ⟨past, x, [], rfl, hx, by simp⟩
    · refine ⟨before, y, after ++ [x], by simp, hy, ?_⟩
      intro w hw
      rcases List.mem_append.1 hw with hw | hw
      · exact hafter w hw
      · obtain rfl := List.mem_singleton.1 hw
        exact ⟨hnone, hkeeps⟩

/-! ## The invariant -/

/-- How the state of the machine goes with the exchanges so far: it listens to the current ticket only,
tickets count up, and none has a number that is yet to come. -/
structure TicketInvariant (m : Machine) (past : List Exchange) : Prop where
  level_bound : m.status = .running → m.level.isSome
  owns_iff : ∀ t, m.Owns t ↔ Current past t
  issued_le : ∀ t ∈ issued past, t.generation ≤ m.generation
  issued_increasing : (issued past).Pairwise fun t u => t.generation < u.generation

namespace TicketInvariant

variable {m n : Machine} {past : List Exchange} {x : Exchange}

theorem new (maxUnits : Nat) : TicketInvariant (new maxUnits) [] where
  level_bound := by simp [Machine.new]
  owns_iff t := by simp [Owns, Machine.new, not_current_nil]
  issued_le := by simp [issued]
  issued_increasing := List.Pairwise.nil

private theorem issued_concat_of_granted_eq_none (hx : x.granted? = none) :
    issued (past ++ [x]) = issued past := by
  simp [issued, hx]

/-- An exchange in which nobody gains or loses the right to drive the machine. -/
theorem kept (h : TicketInvariant m past) (hgrant : x.granted? = none) (hkeeps : ¬ x.Releases)
    (hgeneration : n.generation = m.generation) (hstatus : n.status = m.status)
    (hlevel : n.level = m.level) : TicketInvariant n (past ++ [x]) where
  level_bound := by
    rw [hstatus, hlevel]
    exact h.level_bound
  owns_iff t := by
    rw [current_concat_iff, ← h.owns_iff t]
    simp [Owns, hgrant, hkeeps, hgeneration, hstatus]
  issued_le := by
    rw [issued_concat_of_granted_eq_none hgrant, hgeneration]
    exact h.issued_le
  issued_increasing := by
    rw [issued_concat_of_granted_eq_none hgrant]
    exact h.issued_increasing

/-- An exchange after which no run goes on. -/
theorem released (h : TicketInvariant m past) (hgrant : x.granted? = none) (hreleases : x.Releases)
    (hgeneration : m.generation ≤ n.generation) (hstatus : n.status ≠ .running) :
    TicketInvariant n (past ++ [x]) where
  level_bound hrunning := absurd hrunning hstatus
  owns_iff t := by
    rw [current_concat_iff]
    simp [Owns, hgrant, hreleases, hstatus]
  issued_le := by
    rw [issued_concat_of_granted_eq_none hgrant]
    intro t ht
    exact Nat.le_trans (h.issued_le t ht) hgeneration
  issued_increasing := by
    rw [issued_concat_of_granted_eq_none hgrant]
    exact h.issued_increasing

/-- An exchange that hands out a ticket. -/
theorem granted (h : TicketInvariant m past) (hgrant : x.granted? = some ⟨m.generation + 1⟩)
    (hgeneration : n.generation = m.generation + 1) (hstatus : n.status = .running)
    (hlevel : n.level.isSome) : TicketInvariant n (past ++ [x]) := by
  have hissued : issued (past ++ [x]) = issued past ++ [⟨m.generation + 1⟩] := by
    simp [issued, hgrant]
  refine ⟨fun _ => hlevel, ?_, ?_, ?_⟩
  · intro t
    rw [current_concat_iff]
    simp only [Owns, hgrant, hgeneration, hstatus, and_true, Option.some.injEq, reduceCtorEq,
      false_and, or_false]
    constructor
    · intro ht
      rw [← ht]
    · rintro rfl
      rfl
  · rw [hissued, hgeneration]
    intro t ht
    rcases List.mem_append.1 ht with ht | ht
    · exact Nat.le_succ_of_le (h.issued_le t ht)
    · obtain rfl := List.mem_singleton.1 ht
      exact Nat.le_refl _
  · rw [hissued, List.pairwise_append]
    refine ⟨h.issued_increasing, List.pairwise_singleton _ _, ?_⟩
    intro t ht u hu
    obtain rfl := List.mem_singleton.1 hu
    exact Nat.lt_succ_of_le (h.issued_le t ht)

/-- Every call keeps the invariant. -/
theorem perform (h : TicketInvariant m past) (c : Call) :
    TicketInvariant (m.perform c).2 (past ++ [⟨c, (m.perform c).1⟩]) := by
  have htransition := transition_perform m c
  generalize (m.perform c).1 = answer at htransition ⊢
  generalize (m.perform c).2 = after at htransition ⊢
  cases htransition with
  | loaded level => exact h.released rfl trivial (Nat.le_succ _) (by simp [loadLevel])
  | reset => exact h.released rfl trivial (Nat.le_succ _) (by simp)
  | launched program level units => exact h.granted rfl rfl rfl rfl
  | exhausted t => exact h.released rfl trivial (Nat.le_refl _) (by simp [finish])
  | ended t level u outcome status _ _ _ hend =>
    exact h.released rfl rfl (by simp [finish]) (status_ne_running_of_ending hend)
  | committed t level u _ _ hl =>
    exact h.kept rfl (by simp [Exchange.Releases]) (by simp) (by simp) (by simp)
  | unbound t u howns _ hl =>
    -- a run that goes on has a level, so this branch is never taken
    have := h.level_bound howns.2
    simp [hl] at this
  | refused | staleBegin | staleCommit | again | highlighted | notHighlighted =>
    exact h.kept rfl (by simp [Exchange.Releases]) rfl rfl rfl

/-- Every list of calls keeps the invariant. -/
theorem afterCalls (h : TicketInvariant m past) (calls : List Call) :
    TicketInvariant (m.afterCalls calls) (past ++ m.history calls) :=
  afterCalls_induction (fun _ _ => perform) h calls

/-- The machine answers to a ticket it listens to. -/
theorem accepts (h : TicketInvariant m past) {t : Ticket} (howns : m.Owns t) :
    (m.beginStep t).1 ≠ .stale ∧ (m.commitStep t).1 ≠ .stale := by
  constructor
  · have htransition := transition_perform m (.beginStep t)
    intro hstale
    simp only [Machine.perform, hstale] at htransition
    generalize (m.beginStep t).2 = after at htransition
    cases htransition with
    | staleBegin _ hnot => exact hnot howns
  · have htransition := transition_perform m (.commitStep t)
    intro hstale
    simp only [Machine.perform, hstale] at htransition
    generalize (m.commitStep t).2 = after at htransition
    cases htransition with
    | staleCommit _ hnot => exact hnot howns
    | unbound _ u _ _ hl =>
      have := h.level_bound howns.2
      simp [hl] at this

/-- A call that is refused because of its ticket changes nothing. -/
theorem perform_eq_self_of_stale (h : TicketInvariant m past) {c : Call}
    (hstale : Exchange.stale ⟨c, (m.perform c).1⟩ = true) : (m.perform c).2 = m := by
  cases c with
  | loadLevel | reset => simp [Exchange.stale, Machine.perform] at hstale
  | start program level =>
    cases hs : m.start program level <;> simp [Exchange.stale, Machine.perform, hs] at hstale
  | beginStep t =>
    have hnot : ¬ m.Owns t := by
      intro howns
      have haccepts := (h.accepts howns).1
      simp_all [Exchange.stale, Machine.perform]
    simp [Machine.perform, beginStep_of_not_owns hnot]
  | commitStep t =>
    have hnot : ¬ m.Owns t := by
      intro howns
      have haccepts := (h.accepts howns).2
      simp_all [Exchange.stale, Machine.perform]
    simp [Machine.perform, commitStep_of_not_owns hnot]

/-- The calls that were refused because of their tickets can be left out. -/
theorem withoutStale_spec (h : TicketInvariant m past) (calls : List Call) :
    m.history (m.withoutStale calls) = (m.history calls).filter (fun x => !x.stale) ∧
      m.afterCalls (m.withoutStale calls) = m.afterCalls calls := by
  induction calls generalizing m past with
  | nil => exact ⟨rfl, rfl⟩
  | cons c rest ih =>
    have hrest := ih (h.perform c)
    by_cases hstale : Exchange.stale ⟨c, (m.perform c).1⟩ = true
    · have hself := h.perform_eq_self_of_stale hstale
      have hwithout : m.withoutStale (c :: rest) = m.withoutStale rest := by
        simp [withoutStale, history, hstale, hself]
      have hafter : m.afterCalls (c :: rest) = m.afterCalls rest := by
        simp [Machine.afterCalls, hself]
      rw [hself] at hrest
      rw [hwithout, hafter]
      simpa [history, hstale, hself] using hrest
    · have hwithout : m.withoutStale (c :: rest) = c :: (m.perform c).2.withoutStale rest := by
        simp [withoutStale, history, hstale]
      rw [hwithout]
      refine ⟨?_, hrest.2⟩
      simp [history, hstale, hrest.1]

end TicketInvariant

/-! ## Clients -/

/-- Whatever calls the clients of a machine have made, no ticket was handed out twice; the machine
accepts the current ticket, which is the one handed out last, and no other; a call with another ticket
is stale and changes nothing; and without all stale calls the other calls are answered the same and
the machine ends up the same. -/
theorem only_current_ticket_accepted (maxUnits : Nat) (calls : List Call) :
    let m := (new maxUnits).afterCalls calls
    let past := (new maxUnits).history calls
    (issued past).Nodup ∧
      (∀ t, Current past t →
        (issued past).getLast? = some t ∧ (m.beginStep t).1 ≠ .stale ∧ (m.commitStep t).1 ≠ .stale) ∧
      (∀ t, ¬ Current past t → m.beginStep t = (.stale, m) ∧ m.commitStep t = (.stale, m)) ∧
      (new maxUnits).history ((new maxUnits).withoutStale calls) = past.filter (fun x => !x.stale) ∧
      (new maxUnits).afterCalls ((new maxUnits).withoutStale calls) = m := by
  intro m past
  have hnew := TicketInvariant.new maxUnits
  have h : TicketInvariant m past := hnew.afterCalls calls
  refine ⟨?_, ?_, ?_, hnew.withoutStale_spec calls⟩
  · refine h.issued_increasing.imp ?_
    rintro t u hlt rfl
    exact Nat.lt_irrefl _ hlt
  · intro t ht
    exact ⟨ht.getLast?_issued, h.accepts ((h.owns_iff t).2 ht)⟩
  · intro t ht
    have hnot : ¬ m.Owns t := fun howns => ht ((h.owns_iff t).1 howns)
    exact ⟨beginStep_of_not_owns hnot, commitStep_of_not_owns hnot⟩

end Machine

end RobotPuzzle
