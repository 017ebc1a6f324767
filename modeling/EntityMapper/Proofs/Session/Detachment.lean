import EntityMapper.Proofs.Session.FailedPersist

namespace EntityMapper

open Work

/-- The two calls that end a session. -/
inductive Ending where
  | commit
  | rollback
  deriving DecidableEq, Repr

namespace Ending

def action : Ending → SessionM Unit
  | commit => Session.commit
  | rollback => Session.rollback

/-- What an end does before it detaches the instances. -/
def settlement : Ending → SessionM Unit
  | commit => do
    let w ← get
    if w.flushOnCommit then do
      let _ ← Session.flush
    Session.onUnit UnitOfWork.commit
  | rollback => Session.onUnit UnitOfWork.rollback

/-- The end as a step of a program. -/
def step (name : String) : Ending → Action
  | commit => .commit name
  | rollback => .rollback name

theorem action_eq (ending : Ending) : ending.action = (do
    ending.settlement
    Session.detachAll) := by
  cases ending with
  | rollback => rfl
  | commit =>
    simp only [action, settlement, Session.commit, bind_assoc]
    refine bind_congr fun w => ?_
    cases w.flushOnCommit with
    | true => simp only [if_true, bind_assoc]
    | false => simp only [Bool.false_eq_true, if_false]

theorem grows_settlement (ending : Ending) : Respects Grows ending.settlement := by
  have steps := Session.steps_grows.toSteps
  cases ending with
  | rollback => exact Session.respects_onUnit steps UnitOfWork.rollback
  | commit =>
    refine .bind .get fun w => ?_
    dsimp only
    split
    · exact .bind (Session.respects_flush steps) fun _ => Session.respects_onUnit steps UnitOfWork.commit
    · exact Session.respects_onUnit steps UnitOfWork.commit

/-- Instances are detached at the end of a session that ends well, and only there. -/
theorem endWith_action (w : Work) (ending : Ending) :
    (∃ middle, w.Grows middle ∧ (w.endWith ending.action).1 = .ok () ∧
        (w.endWith ending.action).2.1 =
          middle.identity.refs.foldl (fun h r => h.modify r Instance.detach) middle.heap) ∨
      ∃ e after, w.Grows after ∧ (w.endWith ending.action).1 = .error e ∧
        (w.endWith ending.action).2.1 = after.heap := by
  have grown := ending.grows_settlement w
  rw [action_eq]
  unfold Work.endWith
  rw [bind_run]
  cases run : ending.settlement w with
  | ok _ middle =>
    rw [leaves_of_ok run] at grown
    exact .inl ⟨middle, grown, rfl, rfl⟩
  | error e after =>
    rw [leaves_of_error run] at grown
    exact .inr ⟨e, after, grown, rfl, rfl⟩

end Ending

theorem Work.Grows.refs {w after : Work} (grown : w.Grows after) {r : Ref} (member : r ∈ w.identity.refs) :
    r ∈ after.identity.refs := by
  obtain ⟨more, entries⟩ := grown.entries
  unfold IdentityMap.refs
  rw [entries, List.map_append]
  exact List.mem_append_left _ member

theorem Heap.detached {refs : List Ref} {h : Heap} {r : Ref} (member : r ∈ refs) :
    ((refs.foldl (fun h s => h.modify s Instance.detach) h).get r).managed = false := by
  have stays : ∀ (refs : List Ref) (h : Heap), (h.get r).managed = false →
      ((refs.foldl (fun h s => h.modify s Instance.detach) h).get r).managed = false := by
    intro refs
    induction refs with
    | nil => exact fun _ free => free
    | cons s rest ih =>
      refine fun h free => ih _ ?_
      exact Heap.get_modify_related (R := fun i j => i.managed = false → j.managed = false) (fun _ free => free) h s
        (fun _ => rfl) r free
  induction refs generalizing h with
  | nil => exact absurd member List.not_mem_nil
  | cons s rest ih =>
    rcases List.mem_cons.mp member with rfl | later
    · refine stays rest _ ?_
      by_cases held : h.Holds r
      · rw [Heap.get_modify_self held]
        rfl
      · rw [Heap.get_of_not_holds (mt Heap.holds_modify.mp held)]
        rfl
    · exact ih later

namespace Program

/-- The instance counts as managed, and no open session has it registered. -/
def Orphaned (p : Program) (r : Ref) : Prop :=
  (p.heap.get r).managed = true ∧ ∀ name s, p.sessions name = some s → r ∉ s.identity.refs

section Orphans

variable {p : Program} {r : Ref} (orphaned : p.Orphaned r)

include orphaned

theorem Orphaned.of_keepsManaged {heap : Heap} (store : Store) (kept : p.heap.KeepsManaged heap) :
    ({ p with heap, store } : Program).Orphaned r := ⟨(kept r orphaned.1).2, orphaned.2⟩

theorem Orphaned.of_continues {name : String} {w after : Work} (opened : p.work name = some w)
    (continued : w.Continues after) {next : Option Session} (goesOn : ∀ s ∈ next, s = after.toSession) (store : Store) :
    (⟨after.heap, store, Function.update p.sessions name next⟩ : Program).Orphaned r := by
  obtain ⟨s, found, rfl⟩ := work_eq_some.mp opened
  obtain ⟨alike, outside⟩ := continued.outside r orphaned.1 (orphaned.2 name s found)
  refine ⟨alike.managed.trans orphaned.1, fun other t atOther => ?_⟩
  by_cases same : other = name
  · subst same
    simp only [Function.update_self] at atOther
    rw [goesOn t atOther]
    exact outside
  · simp only [Function.update_of_ne same] at atOther
    exact orphaned.2 other t atOther

theorem Orphaned.begun (name : String) {s : Session} (store : Store) (fresh : s.identity = .empty) :
    ({ p with store, sessions := Function.update p.sessions name (some s) } : Program).Orphaned r := by
  refine ⟨orphaned.1, fun other t found => ?_⟩
  by_cases same : other = name
  · subst same
    simp only [Function.update_self] at found
    cases found
    rw [fresh]
    exact List.not_mem_nil
  · simp only [Function.update_of_ne same] at found
    exact orphaned.2 other t found

/-- Nothing a program can do takes in an orphaned instance, or lets it go. -/
theorem Orphaned.step (action : Action) : (p.step action).Orphaned r := by
  refine step_cases (P := fun p => p.Orphaned r) Session.steps_continues Session.continues_detachAll action
    (fun store => ?_) (fun heap edits => ?_) (fun name s store fresh => ?_)
    fun name w after next store opened continued goesOn => ?_
  · exact orphaned.of_keepsManaged store (Heap.Keeps.refl _).keepsManaged
  · exact orphaned.of_keepsManaged p.store edits.keepsManaged
  · exact orphaned.begun name store fresh
  · exact orphaned.of_continues opened continued goesOn store

theorem Orphaned.run (actions : List Action) : (p.run actions).Orphaned r := by
  induction actions generalizing p with
  | nil => exact orphaned
  | cons action rest ih => exact ih (orphaned.step action)

/-- Every session takes an orphaned instance for another one's. -/
theorem Orphaned.refused {name : String} {w : Work} (opened : p.work name = some w) :
    Session.persist r w =
      .error (.invalidArgument (.foreignInstance (w.heap.get r).entity.name (w.heap.get r).id)) w := by
  obtain ⟨s, found, rfl⟩ := work_eq_some.mp opened
  have unknown : s.identity.contains p.heap r = false := by
    rw [Bool.eq_false_iff]
    intro known
    obtain ⟨key, _, looked⟩ := (Work.registered_iff (w := ⟨s, p.heap, p.store⟩)).mp known
    exact orphaned.2 name s found (IdentityMap.mem_refs (IdentityMap.mem_of_get? looked))
  rw [Session.persist_run, if_pos orphaned.1]
  exact if_neg (by simp [unknown])

end Orphans

/-- What the end of a session leaves of its instances depends on how it ends. One that ends well detaches all of them,
and any session takes them for new ones. One whose flush, commit or rollback fails detaches none: each stays managed
for good, and no session that is open at any later time takes it in. -/
theorem Reachable.detachment {p : Program} (reach : p.Reachable) {name : String} {w : Work}
    (opened : p.work name = some w) (ending : Ending) :
    ((∀ r ∈ w.identity.refs, ((p.step (ending.step name)).heap.get r).managed = false) ↔
        (w.endWith ending.action).1 = .ok () ∨ w.identity.refs = []) ∧
      ((w.endWith ending.action).1 = .ok () → ∀ r ∈ w.identity.refs, ∀ other v,
        (p.step (ending.step name)).work other = some v → Session.persist r v = Session.insert r v) ∧
      ((w.endWith ending.action).1 ≠ .ok () → ∀ r ∈ w.identity.refs, ∀ actions other v,
        ((p.step (ending.step name)).run actions).work other = some v →
          Session.persist r v =
            .error (.invalidArgument (.foreignInstance (v.heap.get r).entity.name (v.heap.get r).id)) v) := by
  have ended : p.step (ending.step name) = p.close name (w.endWith ending.action) := by
    cases ending with
    | commit => simp only [Ending.step, step, opened, Option.elim_some]; rfl
    | rollback => simp only [Ending.step, step, opened, Option.elim_some]; rfl
  have heap : (p.step (ending.step name)).heap = (w.endWith ending.action).2.1 := congrArg Program.heap ended
  have valid := reach.consistent.work_valid opened
  rcases ending.endWith_action w with ⟨middle, grown, well, left⟩ | ⟨e, after, grown, failed, left⟩
  · have free : ∀ r ∈ w.identity.refs, ((p.step (ending.step name)).heap.get r).managed = false := by
      intro r member
      rw [heap, left]
      exact Heap.detached (grown.refs member)
    refine ⟨⟨fun _ => .inl well, fun _ => free⟩, fun _ r member other v atOther => ?_, fun bad => absurd well bad⟩
    obtain ⟨s, _, rfl⟩ := work_eq_some.mp atOther
    rw [Session.persist_run, free r member, if_neg Bool.false_ne_true]
  · have kept : ∀ r ∈ w.identity.refs, ((p.step (ending.step name)).heap.get r).managed = true := by
      intro r member
      rw [heap, left]
      exact (grown.keyed valid).managed r (grown.refs member)
    have bad : (w.endWith ending.action).1 ≠ .ok () := by
      rw [failed]
      intro same
      cases same
    refine ⟨⟨fun free => .inr ?_, ?_⟩, fun well => absurd well bad, fun _ r member actions other v atOther => ?_⟩
    · refine List.eq_nil_iff_forall_not_mem.mpr fun r member => ?_
      have both := (kept r member).symm.trans (free r member)
      cases both
    · rintro (well | none)
      · exact absurd well bad
      · rw [none]
        exact fun r member => absurd member List.not_mem_nil
    · have orphaned : (p.step (ending.step name)).Orphaned r := by
        refine ⟨kept r member, fun other s found => ?_⟩
        rw [ended] at found
        by_cases same : other = name
        · subst same
          simp [close] at found
        · simp only [close, Function.update_of_ne same] at found
          obtain ⟨t, atName, rfl⟩ := work_eq_some.mp opened
          exact reach.consistent.apart name other t s (Ne.symm same) atName found r member
      exact (orphaned.run actions).refused atOther

/-- The store is going to refuse to commit the saved member. -/
def uncommitted : Program := saved.run [.answer [.failure .transaction "disk"]]

theorem reachable_uncommitted : uncommitted.Reachable := ((reachable_start _).run _).run _

theorem detachment_uncommitted : ∃ w, uncommitted.work "main" = some w ∧ ⟨0⟩ ∈ w.identity.refs ∧
    (w.endWith Ending.commit.action).1 ≠ .ok () ∧ ∀ actions other v,
      ((uncommitted.step (.commit "main")).run actions).work other = some v →
        Session.persist ⟨0⟩ v =
          .error (.invalidArgument (.foreignInstance (v.heap.get ⟨0⟩).entity.name (v.heap.get ⟨0⟩).id)) v := by
  have failed : (((uncommitted.work "main").getD default).endWith Ending.commit.action).1 ≠ .ok () := by
    intro same
    cases same
  have opened : uncommitted.work "main" = some ((uncommitted.work "main").getD default) := rfl
  obtain ⟨_, _, refused⟩ := reachable_uncommitted.detachment opened .commit
  exact ⟨_, rfl, List.mem_cons_self, failed, refused failed ⟨0⟩ List.mem_cons_self⟩

/-- The member stays managed after the session is over. -/
theorem commit_leaves_managed : uncommitted.Reachable ∧ ∃ w, uncommitted.work "main" = some w ∧
    ¬∀ r ∈ w.identity.refs, ((uncommitted.step (.commit "main")).heap.get r).managed = false := by
  refine ⟨reachable_uncommitted, _, rfl, fun free => ?_⟩
  exact absurd (free ⟨0⟩ List.mem_cons_self) (by decide)

end Program

end EntityMapper
