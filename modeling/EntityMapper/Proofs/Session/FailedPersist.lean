import EntityMapper.Proofs.Session.LateRefusals

namespace EntityMapper

open Work (Asks)

/-- What is registered has a usable key, under which no other instance is registered. -/
theorem IdentityMap.register_refused {m : IdentityMap} {h : Heap} {r : Ref} :
    (∃ e, m.register h r = .error e) ↔
      (∃ e, (h.get r).key = .error e) ∨ ∃ key other, (h.get r).key = .ok key ∧ m.get? key = some other ∧ other ≠ r := by
  cases keyed : (h.get r).key with
  | error e => simp [register, keyed, bind, Except.bind]
  | ok key =>
    cases found : m.get? key with
    | none => simp [register_free keyed found, found]
    | some other =>
      by_cases same : other = r
      · simp [register, keyed, found, same, Except.ok_bind]
      · simp [register, keyed, found, same, Except.ok_bind]

/-- The store makes a key for the row of a new instance, and the instance cannot be registered with it: the key is of
no use, or another instance is registered under it. -/
structure Work.KeyRejected (w : Work) (r : Ref) (keyed : Instance) : Prop where
  fresh : (w.heap.get r).managed = false
  sent : ∃ key middle, Session.sendRow (w.heap.get r) w = .ok (some key) middle ∧
    (w.heap.get r).assignKey key = .ok keyed
  rejected : (∃ e, keyed.key = .error e) ∨
    ∃ key other, keyed.key = .ok key ∧ w.identity.get? key = some other ∧ other ≠ r

/-- An instance that fails to be saved leaves all instances and what is registered as they were. -/
def Work.Traceless (w : Work) (r : Ref) : Prop :=
  ∀ e after, Session.persist r w = .error e after → after.heap = w.heap ∧ after.identity = w.identity

namespace Session

/-- A save fails before the instance is given a key, or when it is registered with the key that the store has made. -/
theorem persist_error {r : Ref} {w after : Work} {e : Error} (held : w.heap.Holds r)
    (failed : persist r w = .error e after) :
    after.heap = w.heap ∧ after.identity = w.identity ∨ ∃ keyed, w.KeyRejected r keyed := by
  rw [persist_run] at failed
  cases managed : (w.heap.get r).managed with
  | true =>
    rw [managed, if_pos rfl] at failed
    split at failed
    · cases failed
    · cases failed
      exact .inl ⟨rfl, rfl⟩
  | false =>
    rw [managed, if_neg Bool.false_ne_true, insert_run] at failed
    rcases bind_error failed with unsent | ⟨key?, middle, sent, unsettled⟩
    · have asked := respects_sendRow asks_run (w.heap.get r) w
      rw [leaves_of_error unsent] at asked
      exact .inl ⟨asked.heap, asked.identity⟩
    · obtain ⟨asks, _, free⟩ := sendRow_ok sent
      cases key? with
      | none =>
        obtain ⟨key, keyed, unregistered⟩ := free rfl
        have managed : ((w.heap.modify r Instance.manage).get r).key = .ok key := by
          rw [Heap.get_modify_self held]
          exact keyed
        have last : settle r (w.heap.get r) none middle =
            register r { middle with heap := middle.heap.modify r Instance.manage } := rfl
        rw [last, register_run, asks.heap, asks.identity, IdentityMap.register_free managed unregistered] at unsettled
        cases unsettled
      | some key =>
        cases assigned : (w.heap.get r).assignKey key with
        | error e' =>
          simp only [settle, assigned, check] at unsettled
          cases unsettled
          exact .inl ⟨asks.heap, asks.identity⟩
        | ok keyed =>
          rw [settle_some r _ keyed assigned, register_run, asks.heap, asks.identity] at unsettled
          cases refused : w.identity.register ((w.heap.modify r fun _ => keyed).modify r Instance.manage) r with
          | ok registered =>
            rw [refused] at unsettled
            cases unsettled
          | error e' =>
            have cause := IdentityMap.register_refused.mp ⟨e', refused⟩
            rw [Heap.modify_modify, Heap.get_modify_self held] at cause
            exact .inr ⟨keyed, managed, ⟨key, middle, sent, assigned⟩, cause⟩

/-- An instance that is rejected with its new key keeps the key and counts as managed, unregistered. -/
theorem persist_rejected {r : Ref} {w : Work} {keyed : Instance} (held : w.heap.Holds r)
    (rejected : w.KeyRejected r keyed) :
    ∃ e after, persist r w = .error e after ∧ after.heap = w.heap.modify r (fun _ => keyed.manage) ∧
      after.identity = w.identity := by
  obtain ⟨key, middle, sent, assigned⟩ := rejected.sent
  obtain ⟨asks, _, _⟩ := sendRow_ok sent
  have placed : (w.heap.modify r fun _ => keyed.manage).get r = keyed.manage := Heap.get_modify_self held _
  obtain ⟨e, refused⟩ : ∃ e, w.identity.register (w.heap.modify r fun _ => keyed.manage) r = .error e := by
    refine IdentityMap.register_refused.mpr ?_
    rw [placed]
    exact rejected.rejected
  refine ⟨e, { middle with heap := w.heap.modify r fun _ => keyed.manage }, ?_, rfl, asks.identity⟩
  rw [persist_run, rejected.fresh, if_neg Bool.false_ne_true, insert_run, bind_run, sent]
  dsimp only
  rw [settle_some r _ keyed assigned, register_run, Heap.modify_modify, asks.heap, asks.identity, refused]

/-- Nor is it saved by a second try. -/
theorem persist_rejected_again {r : Ref} {w after : Work} {keyed : Instance} (held : w.heap.Holds r)
    (rejected : w.KeyRejected r keyed) (heap : after.heap = w.heap.modify r fun _ => keyed.manage)
    (identity : after.identity = w.identity) :
    persist r after = .error (.invalidArgument (.foreignInstance keyed.entity.name keyed.id)) after := by
  have placed : after.heap.get r = keyed.manage := by
    rw [heap]
    exact Heap.get_modify_self held _
  have unknown : after.identity.contains after.heap r = false := by
    have same : keyed.manage.key = keyed.key := rfl
    unfold IdentityMap.contains
    rw [placed, same, identity]
    rcases rejected.rejected with ⟨e, unusable⟩ | ⟨key, other, usable, taken, different⟩
    · rw [unusable]
    · rw [usable]
      simp [taken, different]
  rw [persist_run, unknown, placed]
  rfl

end Session

/-- Whether a failed save leaves no trace is a question of the key that the store makes: every failure leaves all
instances and what is registered as they were, but the rejection of that key. An instance that is rejected with its new
key keeps it, counts as managed without being registered, has no changed columns any more, and is refused from then on
as the instance of another unit of work. -/
theorem Work.failedPersist (w : Work) {r : Ref} (held : w.heap.Holds r) :
    (w.Traceless r ↔ ¬∃ keyed, w.KeyRejected r keyed) ∧
      ∀ keyed, w.KeyRejected r keyed → ∃ e after, Session.persist r w = .error e after ∧
        after.heap = w.heap.modify r (fun _ => keyed.manage) ∧ after.identity = w.identity ∧
        Session.persist r after = .error (.invalidArgument (.foreignInstance keyed.entity.name keyed.id)) after := by
  refine ⟨⟨?_, ?_⟩, ?_⟩
  · rintro traceless ⟨keyed, rejected⟩
    obtain ⟨e, after, failed, heap, _⟩ := Session.persist_rejected held rejected
    have standing := congrArg (fun h => (h.get r).managed) (heap.symm.trans (traceless e after failed).1)
    have fresh := rejected.fresh
    simp only [Heap.get_modify_self held] at standing
    rw [← standing] at fresh
    cases fresh
  · intro accepted e after failed
    exact (Session.persist_error held failed).resolve_right accepted
  · intro keyed rejected
    obtain ⟨e, after, failed, heap, identity⟩ := Session.persist_rejected held rejected
    exact ⟨e, after, failed, heap, identity, Session.persist_rejected_again held rejected heap identity⟩

namespace Program

/-- The store is going to make the key of the saved member once more, for a second one. -/
def doubled : Program := saved.run [.create memberEntity, .answer [.rows ⟨["id"], [[.int 7]]⟩]]

theorem failedPersist_doubled : ∃ w, doubled.work "main" = some w ∧ w.heap.Holds ⟨1⟩ ∧
    (w.Traceless ⟨1⟩ ↔ ¬∃ keyed, w.KeyRejected ⟨1⟩ keyed) ∧ ∃ keyed, w.KeyRejected ⟨1⟩ keyed ∧
      ∃ e after, Session.persist ⟨1⟩ w = .error e after ∧ after.heap = w.heap.modify ⟨1⟩ (fun _ => keyed.manage) ∧
        after.identity = w.identity ∧
        Session.persist ⟨1⟩ after = .error (.invalidArgument (.foreignInstance keyed.entity.name keyed.id)) after := by
  have held : ((doubled.work "main").getD default).heap.Holds ⟨1⟩ := Nat.lt_succ_self 1
  obtain ⟨traceless, left⟩ := Work.failedPersist _ held
  have rejected : ((doubled.work "main").getD default).KeyRejected ⟨1⟩
      { Instance.new memberEntity with values := [.int 7, .null] } :=
    ⟨rfl, ⟨.int 7, _, rfl, rfl⟩, .inr ⟨⟨"member", .int 7⟩, ⟨0⟩, rfl, rfl, by decide⟩⟩
  exact ⟨_, rfl, held, traceless, _, rejected, left _ rejected⟩

/-- The second member is left with the key of the first. -/
theorem failedPersist_leaves_key : doubled.Reachable ∧ ∃ w, doubled.work "main" = some w ∧ ¬w.Traceless ⟨1⟩ := by
  refine ⟨((reachable_start _).run _).run _, _, rfl, fun traceless => ?_⟩
  have failed : Session.persist ⟨1⟩ ((doubled.work "main").getD default) =
      .error (.invalidArgument (.occupiedKey "member" (.int 7))) _ := rfl
  have ids := congrArg (fun h => (h.get ⟨1⟩).id) (traceless _ _ failed).1
  exact absurd ids (by decide)

end Program

end EntityMapper
