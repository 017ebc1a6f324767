import EntityMapper.Session.Ending
import EntityMapper.Session.Find
import EntityMapper.Proofs.Session.Instances

namespace EntityMapper

/-- Every call is noted, whatever its answer is. -/
theorem Store.calls_call (s : Store) (call : Call) : (s.call call).2.calls = s.calls ++ [call] := by
  unfold Store.call
  dsimp only
  split
  · rfl
  · rfl
  · rfl

/-- A statement reaches the store unless the unit of work refuses it. -/
theorem UnitOfWork.calls_execute (u : UnitOfWork) (s : Store) (statement : Statement) :
    (u.execute s statement).2.2.calls = s.calls ∧ (∃ e, (u.execute s statement).1 = .error e) ∨
      (u.execute s statement).2.2.calls = s.calls ++ [.statement statement] := by
  unfold execute
  split
  case h_1 e _ => exact .inl ⟨rfl, e, rfl⟩
  case h_2 => exact .inr (Store.calls_call s (.statement statement))

theorem UnitOfWork.execute_ok {u unit : UnitOfWork} {s store : Store} {statement : Statement} {rows : RowSet}
    (run : u.execute s statement = (.ok rows, unit, store)) : store.calls = s.calls ++ [.statement statement] := by
  have calls := u.calls_execute s statement
  rw [run] at calls
  rcases calls with ⟨_, e, failed⟩ | sent
  · cases failed
  · exact sent

/-- The store may have been asked something; no instance changes. -/
structure Work.Asks (w after : Work) : Prop where
  heap : after.heap = w.heap
  identity : after.identity = w.identity
  calls : w.store.calls <+: after.store.calls

instance : IsPreorder Work Work.Asks where
  refl _ := ⟨rfl, rfl, List.prefix_rfl⟩
  trans _ _ _ first second :=
    ⟨second.heap.trans first.heap, second.identity.trans first.identity, first.calls.trans second.calls⟩

namespace Session

open Work (Asks)

theorem onUnit_run {α : Type} (step : UnitOfWork → Store → Except Error α × UnitOfWork × Store) (w : Work) :
    onUnit step w =
      match step w.unit w.store with
      | (.ok a, unit, store) => .ok a { w with unit, store }
      | (.error e, unit, store) => .error e { w with unit, store } := by
  unfold onUnit
  simp only [bind_run, get_run]
  obtain ⟨answer, unit, store⟩ := step w.unit w.store
  cases answer with
  | ok a => rfl
  | error e => rfl

theorem register_run (r : Ref) (w : Work) :
    register r w =
      match w.identity.register w.heap r with
      | .ok (_, identity) => .ok () { w with identity }
      | .error e => .error e w := by
  unfold register
  simp only [bind_run, get_run]
  cases w.identity.register w.heap r with
  | ok result => rfl
  | error e => rfl

theorem heap_register (r : Ref) (w : Work) : (leaves (register r) w).heap = w.heap := by
  unfold leaves
  rw [register_run]
  cases w.identity.register w.heap r with
  | ok registered => rfl
  | error e => rfl

theorem takeChanges_run (r : Ref) (w : Work) :
    takeChanges r w =
      match w.heap.changesOf (w.heap.get r) (w.heap.get r).dirty with
      | .ok changes => .ok changes { w with heap := w.heap.modify r fun i => { i with dirty := [] } }
      | .error e => .error e { w with heap := w.heap.modify r fun i => { i with dirty := [] } } := by
  unfold takeChanges Heap.takeChanges
  simp only [bind_run, get_run, set_run]
  cases w.heap.changesOf (w.heap.get r) (w.heap.get r).dirty with
  | ok changes => rfl
  | error e => rfl

/-- What holds of a key and of its absence holds of an answer of the store. -/
theorem answer_cases {Q : SessionM Value → Prop} {e : Entity} (key : ∀ v, Q (pure v))
    (none : Q (throw (.execution (.noGeneratedKey e.table)))) (answer : Option Value) :
    Q (match answer with
      | .none | some .null => throw (.execution (.noGeneratedKey e.table))
      | some key => pure key) := by
  split
  · exact none
  · exact none
  · exact key _

/-- A generated key comes with the row, or a query asks for it, or there is none. -/
theorem generatedKey_cases {Q : SessionM Value → Prop} (e : Entity) (inserted : RowSet)
    (read : ∀ f : Work → SessionM Value, (∀ w, Q (f w)) → Q (get >>= f))
    (asked : ∀ statement (f : RowSet → SessionM Value), (∀ rows, Q (f rows)) → Q (Session.run statement >>= f))
    (key : ∀ v, Q (pure v)) (none : Q (throw (.execution (.noGeneratedKey e.table)))) :
    Q (generatedKey e inserted) := by
  refine read _ fun w => ?_
  dsimp only
  split
  · exact answer_cases key none _
  · exact asked _ _ fun rows => answer_cases key none rows.firstValue?
  · exact answer_cases key none .none

/-- The first part of an insertion: the row is sent, and a key is asked for unless the instance brings one along. -/
def sendRow (i : Instance) : SessionM (Option Value) := do
  checkNewKey i
  let w ← get
  let assignments ← check (w.heap.insertAssignments i)
  let rows ← run (compileInsert w.dialect i.entity assignments i.id.isNull)
  if i.id.isNull then do
    let key ← generatedKey i.entity rows
    pure (some key)
  else pure none

/-- The other part: the instance takes its new key, and is registered. -/
def settle (r : Ref) (i : Instance) : Option Value → SessionM Unit
  | some key => do
    let keyed ← check (i.assignKey key)
    modifyInstance r fun _ => keyed
    modifyInstance r Instance.manage
    register r
  | none => do
    modifyInstance r Instance.manage
    register r

theorem insert_run (r : Ref) (w : Work) :
    insert r w = (do
      let key? ← sendRow (w.heap.get r)
      settle r (w.heap.get r) key?) w := by
  have loaded : load r w = .ok (w.heap.get r) w := rfl
  unfold insert
  rw [bind_run, loaded]
  dsimp only
  generalize w.heap.get r = i
  unfold sendRow
  simp only [bind_assoc]
  cases i.id.isNull with
  | true => simp only [if_true, bind_assoc, pure_bind, settle]
  | false => simp only [Bool.false_eq_true, if_false, pure_bind, settle]

theorem settle_some (r : Ref) (i keyed : Instance) {key : Value} (assigned : i.assignKey key = .ok keyed) (w : Work) :
    settle r i (some key) w =
      register r { w with heap := (w.heap.modify r fun _ => keyed).modify r Instance.manage } := by
  simp only [settle, assigned, check, pure_bind]
  rfl

theorem persist_run (r : Ref) (w : Work) :
    persist r w =
      if (w.heap.get r).managed then
        if w.identity.contains w.heap r then .ok () w
        else .error (.invalidArgument (.foreignInstance (w.heap.get r).entity.name (w.heap.get r).id)) w
      else insert r w := by
  change (if (w.heap.get r).managed then
      if w.identity.contains w.heap r then pure ()
      else throw (.invalidArgument (.foreignInstance (w.heap.get r).entity.name (w.heap.get r).id))
    else insert r) w = _
  cases (w.heap.get r).managed with
  | false => rfl
  | true => cases w.identity.contains w.heap r <;> rfl

/-- The instance that is saved keeps its values or takes a key; it counts as managed before it is registered. -/
theorem settle_cases (r : Ref) (key? : Option Value) (w : Work) :
    (∃ e, settle r (w.heap.get r) key? w = .error e w) ∨
      ∃ change : Instance → Instance, (change (w.heap.get r) = (w.heap.get r).manage ∨
          ∃ key keyed, (w.heap.get r).assignKey key = .ok keyed ∧ change (w.heap.get r) = keyed.manage) ∧
        settle r (w.heap.get r) key? w = register r { w with heap := w.heap.modify r change } := by
  cases key? with
  | none => exact .inr ⟨Instance.manage, .inl rfl, rfl⟩
  | some key =>
    cases assigned : (w.heap.get r).assignKey key with
    | error e =>
      refine .inl ⟨e, ?_⟩
      simp only [settle, assigned, check]
      rfl
    | ok keyed =>
      refine .inr ⟨fun _ => keyed.manage, .inr ⟨key, keyed, assigned, rfl⟩, ?_⟩
      rw [settle_some r _ keyed assigned, Heap.modify_modify]

/-- Of all instances it changes the one that is saved, or none. -/
theorem heap_settle {motive : Heap → Prop} (r : Ref) (key? : Option Value) (w : Work) (still : motive w.heap)
    (own : ∀ change : Instance → Instance, change (w.heap.get r) = (w.heap.get r).manage →
      motive (w.heap.modify r change))
    (new : ∀ (change : Instance → Instance) key keyed, (w.heap.get r).assignKey key = .ok keyed →
      change (w.heap.get r) = keyed.manage → motive (w.heap.modify r change)) :
    motive (leaves (settle r (w.heap.get r) key?) w).heap := by
  rcases settle_cases r key? w with ⟨e, failed⟩ | ⟨change, saved, settled⟩
  · rw [leaves_of_error failed]
    exact still
  · have left : (leaves (settle r (w.heap.get r) key?) w).heap = w.heap.modify r change := by
      unfold leaves
      rw [settled]
      exact heap_register r _
    rw [left]
    rcases saved with same | ⟨key, keyed, assigned, same⟩
    · exact own change same
    · exact new change key keyed assigned same

/-- An owning association is loaded, if it can be found. -/
theorem loads_loadOwning (a : Association) (key : Value) :
    Yields (fun _ => True) (loadOwning a key) fun state _ => state.isLoaded = true :=
  .bind (.trivial _) fun _ => .pure fun _ _ => rfl

theorem loads_loadInverse (r : Ref) (a : Association) (mappedBy : String) (key : Value) :
    Yields (fun _ => True) (loadInverse r a mappedBy key) fun state _ => state.isLoaded = true := by
  refine .bind (.trivial _) fun w => .bind (.trivial _) fun target => .bind (.trivial _) fun plan =>
    .bind (.trivial _) fun items => .bind (.trivial _) fun back => .bind (.trivial _) fun _ => ?_
  split
  · exact .pure fun _ _ => rfl
  · split
    · exact .throw _
    · exact .pure fun _ _ => rfl

/-- The steps by which a session calls the store, makes instances, and writes and saves them keep a relation. -/
structure Steps (R : Work → Work → Prop) : Prop where
  called : ∀ (w : Work) unit store, R w { w with unit, store }
  made : ∀ (w : Work) e, R w { w with heap := (w.heap.allocate (.new e)).2 }
  written : ∀ (w : Work) r, R w { w with heap := w.heap.modify r fun i => { i with dirty := [] } }
  settled : ∀ (w : Work) r key?, (w.heap.get r).managed = false → R w (leaves (settle r (w.heap.get r) key?) w)

/-- So do those by which it reads rows and loads associations. -/
structure RowSteps (R : Work → Work → Prop) : Prop extends Steps R where
  read : ∀ layout rows, Respects R (hydrate layout rows)
  filled : ∀ (w : Work) r index {state : AssociationState}, state.isLoaded = true →
    R w { w with heap := w.heap.modify r (·.fill index state) }

theorem Steps.mono {R S : Work → Work → Prop} (steps : Steps R) (weaker : ∀ w after, R w after → S w after) :
    Steps S where
  called w unit store := weaker _ _ (steps.called w unit store)
  made w e := weaker _ _ (steps.made w e)
  written w r := weaker _ _ (steps.written w r)
  settled w r key? fresh := weaker _ _ (steps.settled w r key? fresh)

theorem RowSteps.mono {R S : Work → Work → Prop} (steps : RowSteps R) (weaker : ∀ w after, R w after → S w after) :
    RowSteps S where
  toSteps := steps.toSteps.mono weaker
  read layout rows := (steps.read layout rows).mono weaker
  filled w r index _ loaded := weaker _ _ (steps.filled w r index loaded)

variable {R : Work → Work → Prop}

theorem respects_check [Std.Refl R] {α : Type} (x : Except Error α) : Respects R (check x) := by
  cases x with
  | ok a => exact .pure a
  | error e => exact .throw e

theorem respects_instantiate [Std.Refl R] (made : ∀ (w : Work) e, R w { w with heap := (w.heap.allocate (.new e)).2 })
    (entity : String) : Respects R (instantiate entity) := by
  refine .get_bind fun w => ?_
  cases found : w.registry.describe entity with
  | ok e => exact made w e
  | error e => exact refl_of R w

theorem respects_onUnit (steps : Steps R) {α : Type}
    (step : UnitOfWork → Store → Except Error α × UnitOfWork × Store) : Respects R (onUnit step) := by
  intro w
  unfold leaves
  rw [onUnit_run]
  obtain ⟨answer, unit, store⟩ := step w.unit w.store
  cases answer with
  | ok a => exact steps.called w unit store
  | error e => exact steps.called w unit store

theorem respects_run (steps : Steps R) (statement : Statement) : Respects R (run statement) := respects_onUnit steps _

theorem respects_fill (steps : RowSteps R) (r : Ref) (index : Nat) {state : AssociationState}
    (loaded : state.isLoaded = true) : Respects R (modifyInstance r (·.fill index state)) :=
  .modify fun w => steps.filled w r index loaded

variable [IsPreorder Work R]

theorem respects_load (r : Ref) : Respects R (load r) := .bind .get fun _ => .pure _

theorem respects_checkNewKey (i : Instance) : Respects R (checkNewKey i) := by
  unfold checkNewKey
  split
  · exact .pure _
  · refine .bind .get fun w => .bind (respects_check _) fun key => ?_
    split
    · exact .throw _
    · exact .pure _

/-- Changes are taken from one instance after the other. -/
theorem respects_collectUpdates
    (written : ∀ (w : Work) r, R w { w with heap := w.heap.modify r fun i => { i with dirty := [] } })
    (refs : List Ref) : Respects R (collectUpdates refs) := by
  have taken (r : Ref) : Respects R (takeChanges r) := by
    intro w
    unfold leaves
    rw [takeChanges_run]
    cases w.heap.changesOf (w.heap.get r) (w.heap.get r).dirty with
    | ok changes => exact written w r
    | error e => exact written w r
  induction refs with
  | nil => exact .pure _
  | cons r rest ih =>
    refine .bind .get fun w => ?_
    dsimp only
    split
    · refine .bind (taken r) fun changes => ?_
      split
      · exact ih
      · exact .bind (respects_check _) fun _ => .bind ih fun _ => .pure _
    · exact ih

section Statements

variable (runs : ∀ statement, Respects R (run statement))

include runs

theorem respects_runAll (statements : List Statement) : Respects R (runAll statements) := by
  induction statements with
  | nil => exact .pure _
  | cons s rest ih => exact .bind (runs s) fun _ => ih

theorem respects_generatedKey (e : Entity) (inserted : RowSet) : Respects R (generatedKey e inserted) :=
  generatedKey_cases e inserted (fun _ => .bind .get) (fun _ _ => .bind (runs _)) .pure (.throw _)

/-- Until the row of an instance is sent and has its key, only the store is asked. -/
theorem respects_sendRow (i : Instance) : Respects R (sendRow i) := by
  refine .bind (respects_checkNewKey i) fun _ => .bind .get fun w => .bind (respects_check _) fun _ =>
    .bind (runs _) fun rows => ?_
  split
  · exact .bind (respects_generatedKey runs _ _) fun _ => .pure _
  · exact .pure _

theorem respects_fetchCount (p : Plan) : Respects R (fetchCount p) :=
  .bind .get fun _ => .bind (respects_check _) fun _ => .bind (runs _) fun _ => respects_check _

end Statements

section Records

variable {α : Type} (decode : Record → Except Error α) {p : Plan} (reads : Respects R (fetchRecords p))

include reads

theorem respects_fetch : Respects R (fetch decode p) := .bind reads fun _ => respects_check _

theorem respects_fetchOne : Respects R (fetchOne decode p) := by
  refine .bind reads fun records => ?_
  split
  · exact .pure _
  · exact .bind (respects_check _) fun _ => .pure _
  · exact .throw _

end Records

/-- An instance is looked up, or read by a plan of its own. -/
theorem respects_find {entity : String} {id : Value} (reads : ∀ registry e key plan,
    findPlan registry e entity key = .ok plan → Respects R (fetchRecords plan)) : Respects R (find entity id) := by
  refine .bind .get fun w => .bind (respects_check _) fun e => .bind (respects_check _) fun key => ?_
  refine .bind (respects_check _) fun _ => ?_
  split
  · exact .pure _
  · cases planned : findPlan w.registry e entity key with
    | error error => exact .throw error
    | ok plan => exact respects_fetchOne _ (reads _ _ _ _ planned)

theorem asks_run (statement : Statement) : Respects Asks (run statement) := by
  intro w
  have sent : w.store.calls <+: (w.unit.execute w.store statement).2.2.calls := by
    rcases w.unit.calls_execute w.store statement with ⟨same, _⟩ | more
    · exact same ▸ List.prefix_rfl
    · exact ⟨_, more.symm⟩
  unfold leaves run
  rw [onUnit_run]
  rcases answered : w.unit.execute w.store statement with ⟨answer, unit, store⟩
  rw [answered] at sent
  cases answer with
  | ok rows => exact ⟨rfl, rfl, sent⟩
  | error e => exact ⟨rfl, rfl, sent⟩

section Steps

variable (steps : Steps R)

include steps

theorem respects_flush : Respects R flush :=
  .bind .get fun _ => .bind (respects_collectUpdates steps.written _) fun updates =>
    .bind (respects_runAll (respects_run steps) updates) fun _ => .pure _

/-- An instance that is inserted is the same until its row is sent, so it is settled as it was before. -/
theorem respects_insert {r : Ref} {w : Work} (fresh : (w.heap.get r).managed = false) :
    R w (leaves (insert r) w) := by
  have sending := respects_sendRow (respects_run steps) (w.heap.get r) w
  have asked := respects_sendRow asks_run (w.heap.get r) w
  have parts : leaves (insert r) w = leaves (sendRow (w.heap.get r) >>= settle r (w.heap.get r)) w := by
    unfold leaves
    rw [insert_run]
  rw [parts]
  cases sent : sendRow (w.heap.get r) w with
  | error e after =>
    rw [leaves_of_error sent] at sending
    rw [leaves_bind_of_error sent]
    exact sending
  | ok key? middle =>
    rw [leaves_of_ok sent] at sending asked
    rw [leaves_bind_of_ok sent]
    rw [← asked.heap] at fresh ⊢
    exact trans_of R sending (steps.settled middle r key? fresh)

theorem respects_persist (r : Ref) : Respects R (persist r) := by
  intro w
  unfold leaves
  rw [persist_run]
  cases standing : (w.heap.get r).managed with
  | false => exact respects_insert steps standing
  | true =>
    cases w.identity.contains w.heap r with
    | true => exact refl_of R w
    | false => exact refl_of R w

theorem respects_commit (detaches : Respects R detachAll) : Respects R commit := by
  have ended : Respects R (do
      onUnit UnitOfWork.commit
      detachAll) := .bind (respects_onUnit steps _) fun _ => detaches
  refine .bind .get fun w => ?_
  dsimp only
  split
  · exact .bind (respects_flush steps) fun _ => ended
  · exact ended

theorem respects_rollback (detaches : Respects R detachAll) : Respects R rollback :=
  .bind (respects_onUnit steps _) fun _ => detaches

end Steps

section Rows

variable (steps : RowSteps R)

include steps

theorem respects_fetchRecords (p : Plan) : Respects R (fetchRecords p) :=
  .bind .get fun _ => .bind (respects_check _) fun query => .bind (respects_run steps.toSteps _) fun rows =>
    .bind (steps.read query.layout rows.rows) fun _ => .pure _

theorem respects_fetchFirst {α : Type} (decode : Record → Except Error α) (p : Plan) :
    Respects R (fetchFirst decode p) := by
  refine .bind (respects_fetchRecords steps _) fun records => ?_
  split
  · exact .pure _
  · exact .bind (respects_check _) fun _ => .pure _

theorem respects_fetchPage {α : Type} (decode : Record → Except Error α) (p : Plan) :
    Respects R (fetchPage decode p) := by
  refine .bind (respects_fetchCount (respects_run steps.toSteps) p) fun total => ?_
  split
  · exact .pure _
  · exact .bind (respects_fetch decode (respects_fetchRecords steps p)) fun _ => .pure _

theorem RowSteps.finds (entity : String) (id : Value) : Respects R (find entity id) :=
  respects_find fun _ _ _ plan _ => respects_fetchRecords steps plan

theorem respects_loadOwning (a : Association) (key : Value) : Respects R (loadOwning a key) :=
  .bind (steps.finds a.target key) fun _ => .pure _

theorem respects_loadInverse (r : Ref) (a : Association) (mappedBy : String) (key : Value) :
    Respects R (loadInverse r a mappedBy key) := by
  refine .bind .get fun w => .bind (respects_check _) fun target => .bind (respects_check _) fun plan =>
    .bind (respects_fetch _ (respects_fetchRecords steps plan)) fun items => .bind (respects_check _) fun back =>
    .bind ?_ fun _ => ?_
  · induction items with
    | nil => exact .pure _
    | cons item rest ih => exact .bind (respects_fill steps item back rfl) fun _ => ih
  · split
    · exact .pure _
    · split
      · exact .throw _
      · exact .pure _

theorem respects_resolve (r : Ref) (association : String) : Respects R (resolve r association) := by
  refine .bind (respects_load r) fun i => .bind (respects_check _) fun index => ?_
  have filled (state : AssociationState) (loaded : state.isLoaded = true) : Respects R (do
      modifyInstance r (·.fill index state)
      let now ← load r
      pure (now.stateAt index)) :=
    .bind (respects_fill steps r index loaded) fun _ => .bind (respects_load r) fun _ => .pure _
  split
  · dsimp only
    split
    · exact .bind_yields (respects_loadOwning steps _ _) (loads_loadOwning _ _) filled
    · exact .bind_yields (respects_loadInverse steps r _ _ _) (loads_loadInverse r _ _ _) filled
  · exact .pure _

end Rows

end Session

end EntityMapper
