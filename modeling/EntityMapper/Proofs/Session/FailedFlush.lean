import EntityMapper.Proofs.Session.OneInstance

namespace EntityMapper

namespace Heap

/-- A change that changes nothing. -/
theorem modify_of_same {h : Heap} {r : Ref} {change : Instance → Instance} (same : change (h.get r) = h.get r) :
    h.modify r change = h := by
  have instances : h.instances.modify r.index change = h.instances := by
    refine Array.ext (Array.size_modify ..) fun n inside _ => ?_
    rw [Array.getElem_modify]
    split
    case isTrue own =>
      subst own
      have held : r.index < h.instances.size := by simpa using inside
      simp only [get, Array.getD_eq_getD_getElem?, Array.getElem?_eq_getElem held, Option.getD_some] at same
      exact same
    case isFalse => rfl
  exact congrArg Heap.mk instances

/-- Foreign keys depend on nothing but the keys and the names of the instances that they refer to. -/
theorem changesOf_of_alike {h k : Heap} (alike : ∀ r, (h.get r).Alike (k.get r)) (i : Instance)
    (columns : List String) : k.changesOf i columns = h.changesOf i columns := by
  have keys (a : Association) (state : AssociationState) : k.foreignKey i a state = h.foreignKey i a state := by
    cases state with
    | deferred key => rfl
    | many targets => rfl
    | one target =>
      cases target with
      | none => rfl
      | some t => simp only [foreignKey, (alike t).id, (alike t).entity]
  induction columns with
  | nil => rfl
  | cons column rest ih =>
    unfold changesOf
    simp only [ih, keys]

end Heap

namespace Work

/-- The update that the changed columns of an instance need, if they need one. -/
def updateOf (w : Work) (r : Ref) : Except Error (Option Statement) :=
  let i := w.heap.get r
  if i.isDirty then do
    let changes ← w.heap.changesOf i i.dirty
    if changes.isEmpty then .ok none
    else do
      let statement ← compileUpdate w.dialect i.entity changes i.id
      .ok (some statement)
  else .ok none

/-- The updates of instances in their order, each with its instance. -/
def updates (w : Work) : List Ref → Except Error (List (Ref × Statement))
  | [] => .ok []
  | r :: rest => do
    let update ← w.updateOf r
    let others ← w.updates rest
    .ok (update.toList.map (r, ·) ++ others)

/-- The instances up to the first whose update cannot be made, that one included. -/
def reached (w : Work) : List Ref → List Ref
  | [] => []
  | r :: rest =>
    match w.updateOf r with
    | .ok _ => r :: w.reached rest
    | .error _ => [r]

/-- The changed columns of an instance count as written. -/
def take (w : Work) (r : Ref) : Work := { w with heap := w.heap.modify r fun i => { i with dirty := [] } }

def takeAll (w : Work) (refs : List Ref) : Work := refs.foldl take w

theorem alike_take (w : Work) (r s : Ref) : (w.heap.get s).Alike ((w.take r).heap.get s) :=
  Heap.get_modify_related Instance.Alike.refl w.heap r (Instance.alike_written _) s

theorem take_of_clean {w : Work} {r : Ref} (clean : (w.heap.get r).isDirty = false) : w.take r = w := by
  have same : ({ w.heap.get r with dirty := [] } : Instance) = w.heap.get r := by
    generalize w.heap.get r = i at clean
    cases i with
    | mk entity values states managed dirty =>
      have empty : dirty = [] := by simpa [Instance.isDirty] using clean
      rw [empty]
  unfold take
  rw [Heap.modify_of_same same]

theorem updateOf_take {w : Work} {r s : Ref} (other : s ≠ r) : (w.take r).updateOf s = w.updateOf s := by
  have same : (w.take r).heap.get s = w.heap.get s := Heap.get_modify_of_ne other _
  simp only [updateOf, same, Heap.changesOf_of_alike (w.alike_take r)]
  rfl

/-- The updates of the others are made as before, and as many of them. -/
theorem updates_take {w : Work} {r : Ref} {refs : List Ref} (absent : r ∉ refs) :
    (w.take r).updates refs = w.updates refs ∧ (w.take r).reached refs = w.reached refs := by
  induction refs with
  | nil => exact ⟨rfl, rfl⟩
  | cons s rest ih =>
    rw [List.mem_cons, not_or] at absent
    obtain ⟨made, got⟩ := ih absent.2
    have own : (w.take r).updateOf s = w.updateOf s := updateOf_take (Ne.symm absent.1)
    exact ⟨by simp only [updates, own, made], by simp only [reached, own, got]⟩

theorem reached_subset (w : Work) (refs : List Ref) : w.reached refs ⊆ refs := by
  induction refs with
  | nil => exact List.Subset.refl _
  | cons r rest ih =>
    unfold reached
    split
    · exact List.cons_subset_cons r ih
    · exact List.cons_subset_cons r (List.nil_subset rest)

theorem reached_of_updates {w : Work} {refs : List Ref} {pending : List (Ref × Statement)}
    (made : w.updates refs = .ok pending) : w.reached refs = refs := by
  induction refs generalizing pending with
  | nil => rfl
  | cons r rest ih =>
    obtain ⟨update, own, made⟩ := Except.bind_eq_ok.mp made
    obtain ⟨others, later, _⟩ := Except.bind_eq_ok.mp made
    simp only [reached, own, ih later]

/-- Taking the changes of some instances leaves those of the others. -/
theorem dirty_takeAll (w : Work) (refs : List Ref) (r : Ref) :
    ((w.takeAll refs).heap.get r).dirty = if r ∈ refs then [] else (w.heap.get r).dirty := by
  induction refs generalizing w with
  | nil => rfl
  | cons s rest ih =>
    change (((w.take s).takeAll rest).heap.get r).dirty = _
    rw [ih]
    by_cases same : r = s
    · subst same
      have gone : ((w.take r).heap.get r).dirty = [] := by
        by_cases held : w.heap.Holds r
        · rw [take, Heap.get_modify_self held]
        · rw [take, Heap.get_of_not_holds (mt Heap.holds_modify.mp held)]
          rfl
      rw [gone, if_pos List.mem_cons_self, ite_self]
    · have kept : (w.take s).heap.get r = w.heap.get r := Heap.get_modify_of_ne same _
      simp only [kept, List.mem_cons, same, false_or]

/-- Taking changes is no step of the unit of work. -/
theorem takeAll_outside (w : Work) (refs : List Ref) :
    (w.takeAll refs).unit = w.unit ∧ (w.takeAll refs).store = w.store := by
  induction refs generalizing w with
  | nil => exact ⟨rfl, rfl⟩
  | cons r rest ih => exact ih (w.take r)

theorem updateOf_clean {w : Work} {r : Ref} (clean : (w.heap.get r).dirty = []) : w.updateOf r = .ok none := by
  simp only [updateOf, Instance.isDirty, clean, List.isEmpty_nil, Bool.not_true, Bool.false_eq_true, if_false]

theorem updateOf_some {w : Work} {r : Ref} {statement : Statement} (made : w.updateOf r = .ok (some statement)) :
    ∃ changes, w.heap.changesOf (w.heap.get r) (w.heap.get r).dirty = .ok changes ∧
      compileUpdate w.dialect (w.heap.get r).entity changes (w.heap.get r).id = .ok statement := by
  unfold updateOf at made
  dsimp only at made
  split at made
  case isFalse => cases made
  case isTrue =>
    obtain ⟨changes, taken, made⟩ := Except.bind_eq_ok.mp made
    split at made
    case isTrue => cases made
    case isFalse =>
      obtain ⟨compiled, run, made⟩ := Except.bind_eq_ok.mp made
      cases made
      exact ⟨changes, taken, run⟩

/-- Updates are made for instances with changed columns only, and one for each. -/
theorem updates_distinct {w : Work} {refs : List Ref} {pending : List (Ref × Statement)} (distinct : refs.Nodup)
    (made : w.updates refs = .ok pending) :
    (pending.map (·.1)).Nodup ∧ ∀ r ∈ pending.map (·.1), r ∈ refs ∧ (w.heap.get r).dirty ≠ [] := by
  induction refs generalizing pending with
  | nil =>
    cases made
    exact ⟨List.nodup_nil, fun _ member => absurd member List.not_mem_nil⟩
  | cons r rest ih =>
    obtain ⟨absent, distinct⟩ := List.nodup_cons.mp distinct
    obtain ⟨update, own, made⟩ := Except.bind_eq_ok.mp made
    obtain ⟨others, later, made⟩ := Except.bind_eq_ok.mp made
    cases made
    obtain ⟨nodup, changed⟩ := ih distinct later
    have behind : ∀ s ∈ others.map (·.1), s ∈ r :: rest ∧ (w.heap.get s).dirty ≠ [] := fun s member =>
      ⟨List.mem_cons_of_mem r (changed s member).1, (changed s member).2⟩
    cases update with
    | none => exact ⟨nodup, behind⟩
    | some statement =>
      refine ⟨List.nodup_cons.mpr ⟨fun member => absent (changed r member).1, nodup⟩, fun s member => ?_⟩
      rcases List.mem_cons.mp member with rfl | member
      · refine ⟨List.mem_cons_self, fun clean => ?_⟩
        rw [updateOf_clean clean] at own
        cases own
      · exact behind s member

/-- Where the updates cannot be made, an instance with changed columns is the reason. -/
theorem updates_error {w : Work} {refs : List Ref} {e : Error} (failed : w.updates refs = .error e) :
    ∃ r ∈ w.reached refs, (w.heap.get r).dirty ≠ [] := by
  induction refs with
  | nil => cases failed
  | cons r rest ih =>
    unfold updates at failed
    unfold reached
    cases own : w.updateOf r with
    | error e' =>
      refine ⟨r, List.mem_cons_self, fun clean => ?_⟩
      rw [updateOf_clean clean] at own
      cases own
    | ok update =>
      rw [own, Except.ok_bind] at failed
      cases later : w.updates rest with
      | ok others =>
        rw [later] at failed
        cases failed
      | error e' =>
        rw [later] at failed
        cases failed
        obtain ⟨s, member, changed⟩ := ih later
        exact ⟨s, List.mem_cons_of_mem r member, changed⟩

end Work

namespace Session

/-- What is collected from one instance, and from the others once its changes are taken. -/
theorem collectUpdates_cons (r : Ref) (rest : List Ref) (w : Work) :
    collectUpdates (r :: rest) w =
      match w.updateOf r with
      | .error e => .error e (w.take r)
      | .ok update =>
        match collectUpdates rest (w.take r) with
        | .ok others after => .ok (update.toList ++ others) after
        | .error e after => .error e after := by
  conv_lhs => unfold collectUpdates
  rw [bind_run, get_run, Work.updateOf]
  dsimp only
  cases changed : (w.heap.get r).isDirty with
  | false =>
    rw [Work.take_of_clean changed]
    simp only [Bool.false_eq_true, if_false, Option.toList_none, List.nil_append]
    cases collectUpdates rest w with
    | ok others after => rfl
    | error e after => rfl
  | true =>
    simp only [if_true, bind_run, takeChanges_run]
    cases w.heap.changesOf (w.heap.get r) (w.heap.get r).dirty with
    | error e => rfl
    | ok changes =>
      simp only [Except.ok_bind]
      cases changes.isEmpty with
      | true =>
        simp only [if_true, Option.toList_none, List.nil_append]
        change collectUpdates rest (w.take r) = _
        cases collectUpdates rest (w.take r) with
        | ok others after => rfl
        | error e after => rfl
      | false =>
        simp only [Bool.false_eq_true, if_false, bind_run]
        cases compileUpdate w.dialect (w.heap.get r).entity changes (w.heap.get r).id with
        | error e => rfl
        | ok statement =>
          cases later : collectUpdates rest (w.take r) with
          | ok others after =>
            unfold Work.take at later
            simp only [check, pure, EStateM.pure, later, Except.ok_bind]
            rfl
          | error e after =>
            unfold Work.take at later
            simp only [check, pure, EStateM.pure, later, Except.ok_bind]

/-- All updates are made before the first is sent, and with the first that cannot be made the changes of its instance
are gone. -/
theorem collectUpdates_run {refs : List Ref} (distinct : refs.Nodup) (w : Work) :
    collectUpdates refs w =
      match w.updates refs with
      | .ok pending => .ok (pending.map (·.2)) (w.takeAll (w.reached refs))
      | .error e => .error e (w.takeAll (w.reached refs)) := by
  induction refs generalizing w with
  | nil => rfl
  | cons r rest ih =>
    obtain ⟨absent, distinct⟩ := List.nodup_cons.mp distinct
    obtain ⟨made, got⟩ := Work.updates_take (w := w) absent
    rw [collectUpdates_cons, ih distinct, made, got, Work.updates, Work.reached]
    cases w.updateOf r with
    | error e => rfl
    | ok update =>
      cases w.updates rest with
      | error e => rfl
      | ok others =>
        have statements : update.toList ++ others.map (·.2) = (update.toList.map (r, ·) ++ others).map (·.2) := by
          cases update with
          | none => rfl
          | some statement => rfl
        simp only [Except.ok_bind, statements]
        rfl

end Session

namespace UnitOfWork

/-- The store acknowledges each of the statements in a row. -/
def Acknowledges (u : UnitOfWork) (s : Store) : List Statement → Prop
  | [] => True
  | statement :: rest =>
    match u.execute s statement with
    | (.ok _, u, s) => u.Acknowledges s rest
    | (.error _, _, _) => False

end UnitOfWork

namespace Session

theorem runAll_cons (statement : Statement) (rest : List Statement) (w : Work) :
    runAll (statement :: rest) w =
      match w.unit.execute w.store statement with
      | (.ok _, unit, store) => runAll rest { w with unit, store }
      | (.error e, unit, store) => .error e { w with unit, store } := by
  conv_lhs => unfold runAll
  rw [bind_run, run, onUnit_run]
  obtain ⟨answer, unit, store⟩ := w.unit.execute w.store statement
  cases answer with
  | ok rows => rfl
  | error e => rfl

/-- A failing statement is the first that the store does not acknowledge. No instance changes. -/
theorem runAll_error {statements : List Statement} {w after : Work} {e : Error}
    (run : runAll statements w = .error e after) :
    after.heap = w.heap ∧ ∃ sent statement rest, statements = sent ++ statement :: rest ∧
      w.unit.Acknowledges w.store sent ∧ ¬w.unit.Acknowledges w.store (sent ++ [statement]) := by
  induction statements generalizing w with
  | nil => cases run
  | cons statement rest ih =>
    rw [runAll_cons] at run
    rcases answered : w.unit.execute w.store statement with ⟨answer, unit, store⟩
    rw [answered] at run
    cases answer with
    | error e' =>
      cases run
      refine ⟨rfl, [], statement, rest, rfl, True.intro, ?_⟩
      simp only [List.nil_append, UnitOfWork.Acknowledges, answered, not_false_eq_true]
    | ok rows =>
      obtain ⟨heap, sent, failing, others, split, before, failed⟩ := ih run
      refine ⟨heap, statement :: sent, failing, others, by rw [split, List.cons_append], ?_, ?_⟩
      · simpa only [UnitOfWork.Acknowledges, answered] using before
      · simpa only [List.cons_append, UnitOfWork.Acknowledges, answered] using failed

end Session

/-- Where keys do not repeat, a list is split at a key in one way. -/
theorem split_unique {α β : Type} {before front : List (α × β)} {a : α} {b c : β} {behind back : List (α × β)}
    (distinct : ((before ++ (a, b) :: behind).map (·.1)).Nodup)
    (same : before ++ (a, b) :: behind = front ++ (a, c) :: back) : before = front ∧ b = c := by
  induction before generalizing front with
  | nil =>
    cases front with
    | nil =>
      cases same
      exact ⟨rfl, rfl⟩
    | cons first front =>
      cases same
      have again : (a, c) ∈ front ++ (a, c) :: back := List.mem_append_right front List.mem_cons_self
      exact absurd (List.mem_map_of_mem again) (List.nodup_cons.mp distinct).1
  | cons first before ih =>
    cases front with
    | nil =>
      cases same
      have again : (a, b) ∈ before ++ (a, b) :: behind := List.mem_append_right before List.mem_cons_self
      exact absurd (List.mem_map_of_mem again) (List.nodup_cons.mp distinct).1
    | cons second front =>
      obtain ⟨first, rest⟩ := List.cons.inj same
      obtain ⟨before, values⟩ := ih (List.nodup_cons.mp distinct).2 rest
      exact ⟨by rw [first, before], values⟩

namespace Work

/-- The store acknowledges the update of an instance when the session is flushed, after the ones before it. -/
def Acknowledged (w : Work) (r : Ref) : Prop :=
  ∃ sent statement rest, w.updates w.identity.refs = .ok (sent ++ (r, statement) :: rest) ∧
    w.unit.Acknowledges w.store (sent.map (·.2) ++ [statement])

/-- A flush that fails loses no pending change: registered instances whose updates the store has not acknowledged have
the columns left that had changed before. -/
def PendingKept (w : Work) : Prop :=
  ∀ e after, Session.flush w = .error e after → ∀ r ∈ w.identity.refs, ¬w.Acknowledged r →
    ∀ column ∈ (w.heap.get r).dirty, column ∈ (after.heap.get r).dirty

/-- A flush that fails has failed before its first statement or at one of them. -/
theorem flush_error {w after : Work} {e : Error} (distinct : w.identity.refs.Nodup)
    (failed : Session.flush w = .error e after) :
    after.heap = (w.takeAll (w.reached w.identity.refs)).heap ∧
      (w.updates w.identity.refs = .error e ∨
        ∃ sent r statement rest, w.updates w.identity.refs = .ok (sent ++ (r, statement) :: rest) ∧
          ¬w.unit.Acknowledges w.store (sent.map (·.2) ++ [statement])) := by
  unfold Session.flush at failed
  rw [bind_run, get_run] at failed
  dsimp only at failed
  rw [bind_run, Session.collectUpdates_run distinct] at failed
  cases made : w.updates w.identity.refs with
  | error e' =>
    rw [made] at failed
    cases failed
    exact ⟨rfl, .inl rfl⟩
  | ok pending =>
    simp only [made] at failed
    rcases bind_error failed with stopped | ⟨_, middle, _, finished⟩
    case inr => cases finished
    obtain ⟨heap, sent, statement, rest, split, _, refused⟩ := Session.runAll_error stopped
    obtain ⟨before, others, rfl, rfl, same⟩ := List.map_eq_append_iff.mp split
    obtain ⟨⟨r, own⟩, behind, rfl, rfl, rfl⟩ := List.map_eq_cons_iff.mp same
    rw [(takeAll_outside w _).1, (takeAll_outside w _).2] at refused
    exact ⟨heap, .inr ⟨before, r, own, behind, rfl, refused⟩⟩

/-- Any flush that fails loses a pending change that the store has not acknowledged. -/
theorem flush_error_lost {w after : Work} {e : Error} (distinct : w.identity.refs.Nodup)
    (failed : Session.flush w = .error e after) :
    ∃ r ∈ w.identity.refs, ¬w.Acknowledged r ∧ (w.heap.get r).dirty ≠ [] ∧ (after.heap.get r).dirty = [] := by
  obtain ⟨heap, reason⟩ := flush_error distinct failed
  rcases reason with unmade | ⟨sent, r, statement, rest, made, refused⟩
  · obtain ⟨r, member, changed⟩ := updates_error unmade
    refine ⟨r, w.reached_subset _ member, ?_, changed, ?_⟩
    · rintro ⟨sent, statement, rest, made, _⟩
      rw [unmade] at made
      cases made
    · rw [heap, dirty_takeAll, if_pos member]
  · obtain ⟨unique, pending⟩ := updates_distinct distinct made
    obtain ⟨member, changed⟩ := pending r (by simp)
    refine ⟨r, member, ?_, changed, ?_⟩
    · rintro ⟨front, own, back, again, acknowledged⟩
      obtain ⟨rfl, rfl⟩ := split_unique unique (Except.ok.inj (made.symm.trans again))
      exact refused acknowledged
    · rw [heap, dirty_takeAll, reached_of_updates made, if_pos member]

end Work

open Work

namespace Program

/-- Pending changes are kept by exactly the flushes that succeed. One that fails forgets the changes of all instances
up to the first whose update cannot be made, which are all instances where it fails at a statement; those behind it
keep theirs. -/
theorem Reachable.pendingKept_iff {p : Program} (reach : p.Reachable) {name : String} {w : Work}
    (opened : p.work name = some w) :
    (w.PendingKept ↔ ∃ n after, Session.flush w = .ok n after) ∧
      ∀ e after, Session.flush w = .error e after → ∀ r ∈ w.identity.refs,
        (after.heap.get r).dirty = if r ∈ w.reached w.identity.refs then [] else (w.heap.get r).dirty := by
  have distinct : w.identity.refs.Nodup := (reach.consistent.work_valid opened).nodup_refs
  refine ⟨⟨fun kept => ?_, ?_⟩, ?_⟩
  · cases run : Session.flush w with
    | ok n after => exact ⟨n, after, rfl⟩
    | error e after =>
      obtain ⟨r, member, unsent, changed, gone⟩ := flush_error_lost distinct run
      obtain ⟨column, pending⟩ := List.exists_mem_of_ne_nil _ changed
      have left := kept e after run r member unsent column pending
      rw [gone] at left
      exact absurd left List.not_mem_nil
  · rintro ⟨n, after, succeeded⟩ e after' failed
    rw [succeeded] at failed
    cases failed
  · intro e after failed r _
    rw [(flush_error distinct failed).1, dirty_takeAll]

/-- The member that was saved gets another name, and the store is going to refuse the next statement. -/
def refused : Program := saved.run [.set ⟨0⟩ "name" (.text "ann"), .answer [.failure .query "busy"]]

theorem reachable_refused : refused.Reachable := ((reachable_start _).run _).run _

def renamed : Work := (refused.work "main").getD default

theorem pendingKept_iff_renamed : renamed.PendingKept ↔ ∃ n after, Session.flush renamed = .ok n after :=
  (Reachable.pendingKept_iff reachable_refused (show refused.work "main" = some renamed from rfl)).1

/-- The refused change is gone, so the next flush has nothing to write. -/
theorem flush_forgets_renamed : ¬renamed.PendingKept ∧ (renamed.heap.get ⟨0⟩).dirty = ["user_name"] ∧
    ∃ e after, Session.flush renamed = .error e after ∧ (after.heap.get ⟨0⟩).dirty = [] ∧
      Session.flush after = .ok 0 after := by
  refine ⟨fun kept => ?_, rfl, .execution (.store .query "busy"), leaves Session.flush renamed, rfl, rfl, rfl⟩
  have unsent : ¬renamed.Acknowledged ⟨0⟩ := by
    rintro ⟨sent, statement, rest, made, acknowledged⟩
    have only : renamed.updates renamed.identity.refs = .ok ([] ++ (⟨0⟩, _) :: []) := rfl
    obtain ⟨rfl, rfl⟩ := split_unique (by simp) (Except.ok.inj (only.symm.trans made))
    exact acknowledged
  exact absurd (kept _ _ rfl ⟨0⟩ List.mem_cons_self unsent "user_name" List.mem_cons_self) List.not_mem_nil

end Program

end EntityMapper
