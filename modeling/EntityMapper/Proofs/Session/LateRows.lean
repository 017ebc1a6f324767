import EntityMapper.Proofs.Compile.Resolution
import EntityMapper.Proofs.Schema.Registry
import EntityMapper.Proofs.Session.BuildErrors

namespace EntityMapper

namespace Work

/-- A row of the answer to a plan is refused with a build error. -/
def RefusesRows (w : Work) (p : Plan) : Prop :=
  ∃ query rows middle e h, compile w.registry w.dialect p = .ok query ∧
    Session.run query.statement w = .ok rows middle ∧
    Hydration.recordsOf query.layout rows.rows ⟨w.heap, w.identity, [], []⟩ = .error e h ∧ e.isBuildError = true

/-- A session that has just begun its transaction. -/
def begun (registry : Registry) (d : Dialect) : Work :=
  ⟨⟨registry, d, true, .empty, ⟨.active, true⟩⟩, .empty, ⟨[], [.begin]⟩⟩

/-- A session whose store is going to answer rows next. -/
def answering (w : Work) (rows : RowSet) : Work :=
  { w with store := { w.store with replies := .rows rows :: w.store.replies } }

end Work

namespace Session

theorem fetchRecords_uncompiled {p : Plan} {w : Work} {e : Error} (refused : compile w.registry w.dialect p = .error e) :
    fetchRecords p w = .error e w := by
  unfold fetchRecords
  rw [bind_run, get_run]
  dsimp only
  rw [refused]
  rfl

theorem fetchRecords_run {p : Plan} {w : Work} {query : CompiledQuery}
    (compiled : compile w.registry w.dialect p = .ok query) :
    fetchRecords p w = (do
      let rows ← run query.statement
      let records ← hydrate query.layout rows.rows
      pure (if p.distinct && !query.layout.fetches.isEmpty then Record.distinct records else records)) w := by
  unfold fetchRecords
  rw [bind_run, get_run]
  dsimp only
  rw [compiled]
  rfl

theorem check_ok {α : Type} {x : Except Error α} {a : α} {w after : Work} (run : check x w = .ok a after) :
    x = .ok a ∧ after = w := by
  cases x with
  | ok b =>
    cases run
    exact ⟨rfl, rfl⟩
  | error e => cases run

theorem refused_of_refusesRows {p : Plan} {w : Work} (refused : w.RefusesRows p) :
    ∃ e after statement, fetchRecords p w = .error e after ∧ e.isBuildError = true ∧
      after.store.calls = w.store.calls ++ [.statement statement] := by
  obtain ⟨query, rows, middle, e, h, compiled, answered, refused, build⟩ := refused
  obtain ⟨unit, store, rfl, calls⟩ := run_ok answered
  refine ⟨e, { w with heap := h.heap, unit, store }, query.statement, ?_, build, calls⟩
  rw [fetchRecords_run compiled, bind_run, answered]
  dsimp only
  rw [bind_run, hydrate_run, refused]

/-- Records are refused with the plan, before any statement, or with a row of the answer. -/
theorem fetchRecords_refused {p : Plan} {w after : Work} {e : Error} (failed : fetchRecords p w = .error e after)
    (build : e.isBuildError = true) :
    compile w.registry w.dialect p = .error e ∧ after = w ∨ w.RefusesRows p := by
  cases compiled : compile w.registry w.dialect p with
  | error e' =>
    rw [fetchRecords_uncompiled compiled] at failed
    cases failed
    exact .inl ⟨rfl, rfl⟩
  | ok query =>
    rw [fetchRecords_run compiled] at failed
    rcases bind_error failed with unanswered | ⟨rows, middle, answered, later⟩
    · rw [safe_run _ w e after unanswered] at build
      cases build
    · rcases bind_error later with refused | ⟨_, _, _, finished⟩
      · obtain ⟨unit, store, rfl, _⟩ := run_ok answered
        rw [hydrate_run] at refused
        cases read : Hydration.recordsOf query.layout rows.rows ⟨w.heap, w.identity, [], []⟩ with
        | ok found h =>
          rw [read] at refused
          cases refused
        | error e' h =>
          rw [read] at refused
          cases refused
          exact .inr ⟨query, rows, _, e, h, compiled, answered, read, build⟩
      · cases finished

theorem refusesEarly_fetchRecords (p : Plan) (w : Work) : RefusesEarly (fetchRecords p) w ↔ ¬w.RefusesRows p := by
  constructor
  · intro early refused
    obtain ⟨e, after, statement, failed, build, calls⟩ := refused_of_refusesRows refused
    exact absurd (calls.symm.trans (early e after failed build)) (by simp)
  · intro accepted e after failed build
    rcases fetchRecords_refused failed build with ⟨_, rfl⟩ | refused
    · rfl
    · exact absurd refused accepted

section Answered

variable {w after : Work} {p : Plan} {rows : RowSet}

theorem run_answering (active : w.unit.checkActive "execute" = .ok ()) (statement : Statement) :
    run statement (w.answering rows) = .ok rows { w with store := w.store.note (.statement statement) } := by
  rw [run, onUnit_run]
  unfold UnitOfWork.execute Work.answering
  rw [active]
  rfl

theorem active_of_run {statement : Statement} (run : run statement w = .ok rows after) :
    w.unit.checkActive "execute" = .ok () := by
  rw [Session.run, onUnit_run] at run
  unfold UnitOfWork.execute at run
  cases active : w.unit.checkActive "execute" with
  | ok u => rfl
  | error e =>
    rw [active] at run
    cases run

/-- The records of a query whose answer is known. -/
theorem fetchRecords_answering {query : CompiledQuery} (compiled : compile w.registry w.dialect p = .ok query)
    (active : w.unit.checkActive "execute" = .ok ()) {found : List Record} {h : Hydration}
    (run : Hydration.recordsOf query.layout rows.rows ⟨w.heap, w.identity, [], []⟩ = .ok found h) :
    fetchRecords p (w.answering rows) =
      .ok (if p.distinct && !query.layout.fetches.isEmpty then Record.distinct found else found)
        { w with
          heap := h.heap
          identity := ⟨w.identity.entries ++ h.staged⟩
          store := w.store.note (.statement query.statement) } := by
  have compiled : compile (w.answering rows).registry (w.answering rows).dialect p = .ok query := compiled
  rw [fetchRecords_run compiled, bind_run, run_answering active]
  dsimp only
  rw [bind_run, hydrate_run, run]
  rfl

/-- Records that are read come of a query that is compiled, in an active unit of work, from its rows. -/
theorem fetchRecords_ok {records : List Record} (fetched : fetchRecords p (w.answering rows) = .ok records after) :
    ∃ query found h, compile w.registry w.dialect p = .ok query ∧ w.unit.checkActive "execute" = .ok () ∧
      Hydration.recordsOf query.layout rows.rows ⟨w.heap, w.identity, [], []⟩ = .ok found h := by
  cases compiled : compile (w.answering rows).registry (w.answering rows).dialect p with
  | error e =>
    rw [fetchRecords_uncompiled compiled] at fetched
    cases fetched
  | ok query =>
    rw [fetchRecords_run compiled] at fetched
    obtain ⟨answer, middle, answered, fetched⟩ := bind_ok fetched
    have active : w.unit.checkActive "execute" = .ok () := active_of_run (w := w.answering rows) answered
    rw [run_answering active] at answered
    cases answered
    obtain ⟨_, _, read, _⟩ := bind_ok fetched
    rw [hydrate_run] at read
    cases run : Hydration.recordsOf query.layout rows.rows ⟨w.heap, w.identity, [], []⟩ with
    | ok found h => exact ⟨query, found, h, compiled, active, run⟩
    | error e h =>
      simp only [run] at read
      cases read

end Answered

section Decoded

variable {α : Type} {decode : Record → Except Error α} (safe : ∀ r, Except.BuildSafe (decode r)) (p : Plan) (w : Work)

include safe

theorem refusesEarly_fetch : RefusesEarly (fetch decode p) w ↔ ¬w.RefusesRows p :=
  (RefusesEarly.bind_safe fun _ => safe_check (.mapM safe _)).trans (refusesEarly_fetchRecords p w)

omit p w in
theorem safe_first (r : Record) :
    BuildSafe (do
      let result ← check (decode r)
      pure (some result) : SessionM (Option α)) :=
  .bind (safe_check (safe r)) fun _ => .pure _

theorem refusesEarly_fetchOne : RefusesEarly (fetchOne decode p) w ↔ ¬w.RefusesRows p := by
  refine (RefusesEarly.bind_safe fun records => ?_).trans (refusesEarly_fetchRecords p w)
  split
  · exact .pure _
  · exact safe_first safe _
  · exact .throw rfl

theorem refusesEarly_fetchFirst : RefusesEarly (fetchFirst decode p) w ↔
    ¬w.RefusesRows { p with limit := some (if p.limit = some 0 then 0 else 1) } := by
  refine (RefusesEarly.bind_safe fun records => ?_).trans (refusesEarly_fetchRecords _ w)
  split
  · exact .pure _
  · exact safe_first safe _

end Decoded

theorem refusesEarly_fetchCount (p : Plan) (w : Work) : RefusesEarly (fetchCount p) w :=
  RefusesEarly.get_bind.mpr <| .check_bind fun _ _ =>
    .of_safe (.bind (safe_run _) fun rows => safe_check (safe_countOf rows)) w

/-- A count that succeeds has sent its statement. -/
theorem fetchCount_ok {p : Plan} {w middle : Work} {total : Nat} (run : fetchCount p w = .ok total middle) :
    ∃ unit store statement, middle = { w with unit, store } ∧ store.calls = w.store.calls ++ [.statement statement] := by
  obtain ⟨_, _, got, counting⟩ := bind_ok run
  cases got
  obtain ⟨statement, _, compiled, sending⟩ := bind_ok counting
  obtain ⟨_, rfl⟩ := check_ok compiled
  obtain ⟨rows, _, answered, reading⟩ := bind_ok sending
  obtain ⟨unit, store, rfl, calls⟩ := run_ok answered
  obtain ⟨_, rfl⟩ := check_ok reading
  exact ⟨unit, store, statement, rfl, calls⟩

end Session

/-- The plan of a page, or a row of it, is refused after the rows have been counted. -/
def Work.RefusesPage (w : Work) (p : Plan) : Prop :=
  ∃ total middle, Session.fetchCount p w = .ok total middle ∧ total ≠ 0 ∧
    ((∃ e, compile w.registry w.dialect p = .error e ∧ e.isBuildError = true) ∨ middle.RefusesRows p)

namespace Session

theorem fetchPage_run {α : Type} {decode : Record → Except Error α} {p : Plan} {w middle : Work} {total : Nat}
    (counted : fetchCount p w = .ok total middle) (some : total ≠ 0) :
    fetchPage decode p w = (do
      let results ← fetch decode p
      pure ⟨results, total, p.offset, p.limit⟩ : SessionM (Page α)) middle := by
  unfold fetchPage
  rw [bind_run, counted]
  dsimp only
  rw [if_neg some]

theorem fetchPage_error {α : Type} {decode : Record → Except Error α} {p : Plan} {w middle after : Work} {total : Nat}
    {e : Error} (counted : fetchCount p w = .ok total middle) (some : total ≠ 0)
    (failed : fetchRecords p middle = .error e after) : fetchPage decode p w = .error e after := by
  rw [fetchPage_run counted some, fetch]
  simp only [bind_run, failed]

theorem refusesEarly_fetchPage {α : Type} {decode : Record → Except Error α}
    (safe : ∀ r, Except.BuildSafe (decode r)) (p : Plan) (w : Work) :
    RefusesEarly (fetchPage decode p) w ↔ ¬w.RefusesPage p := by
  constructor
  · rintro early ⟨total, middle, counted, some, cause⟩
    obtain ⟨unit, store, statement, rfl, sent⟩ := fetchCount_ok counted
    rcases cause with ⟨e, refused, build⟩ | refused
    · have same := early e _ (fetchPage_error counted some (fetchRecords_uncompiled refused)) build
      exact absurd (sent.symm.trans same) (by simp)
    · obtain ⟨e, after, page, failed, build, calls⟩ := refused_of_refusesRows refused
      have same := early e after (fetchPage_error counted some failed) build
      rw [calls, sent] at same
      simp at same
  · intro accepted e after failed build
    rcases bind_error failed with uncounted | ⟨total, middle, counted, later⟩
    · exact refusesEarly_fetchCount p w e after uncounted build
    · by_cases none : total = 0
      case pos =>
        rw [if_pos none] at later
        cases later
      case neg =>
        obtain ⟨unit, store, statement, rfl, _⟩ := fetchCount_ok counted
        have whole : fetchPage decode p w = .error e after := failed
        rw [fetchPage_run counted none] at whole
        rcases bind_error whole with unread | ⟨_, _, _, finished⟩
        case inr => cases finished
        rcases bind_error unread with refused | ⟨records, last, _, undecoded⟩
        · rcases fetchRecords_refused refused build with ⟨uncompiled, _⟩ | rows
          · exact absurd ⟨total, _, counted, none, .inl ⟨e, uncompiled, build⟩⟩ accepted
          · exact absurd ⟨total, _, counted, none, .inr rows⟩ accepted
        · rw [safe_check (.mapM safe _) last e after undecoded] at build
          cases build

end Session

theorem BuildSafe.check_bind {α β : Type} {x : Except Error α} {f : α → HydrationM β} (safe : Except.BuildSafe x)
    (next : ∀ a, x = .ok a → BuildSafe (f a)) : BuildSafe (Hydration.check x >>= f) := by
  cases x with
  | ok a => exact next a rfl
  | error e =>
    intro h e' after run
    cases run
    exact safe e rfl

namespace Hydration

theorem safe_fieldValues (fields : List Field) (values : List Value) : Except.BuildSafe (fieldValues fields values) := by
  induction fields generalizing values with
  | nil => exact .ok _
  | cons f rest ih =>
    cases values with
    | nil => exact .ok _
    | cons v others => exact .bind (f.type.safe_coerce v) fun _ => .bind (ih others) fun _ => .ok _

theorem safe_statesOf (e : Entity) (id : Value) (columns : List Value) (associations : List Association) :
    Except.BuildSafe (statesOf e id columns associations) := by
  induction associations with
  | nil => exact .ok _
  | cons a rest ih =>
    refine .bind ?_ fun _ => .bind ih fun _ => .ok _
    unfold stateOf
    split
    · exact .ok _
    · exact .bind (a.keyType.safe_coerce _) fun _ => .ok _

/-- Values of any type but one identify instances. -/
theorem usable_key {type : DataType} (usable : type ≠ .float) {id : Value} (typed : id.HasType type)
    (present : id.isNull = false) (entity : String) : ∃ key, EntityKey.of entity id = .ok key := by
  cases id with
  | null => cases present
  | float d => exact absurd (typed .float rfl).symm usable
  | int i => exact ⟨_, rfl⟩
  | text s => exact ⟨_, rfl⟩
  | bool b => exact ⟨_, rfl⟩

theorem safe_entity {e : Entity} (usable : e.primaryKey.type ≠ .float) (columns : List Value) :
    BuildSafe (entity e columns) := by
  refine .check_bind (e.primaryKey.type.safe_coerce _) fun id coerced => ?_
  split
  case isTrue => exact .pure _
  case isFalse present =>
    obtain ⟨key, known⟩ := usable_key usable (DataType.hasType_of_coerce coerced) (by simpa using present) e.name
    refine .check_bind (known ▸ .ok key) fun _ _ => .bind .get fun h => ?_
    split
    · exact .pure _
    · refine .check_bind (.bind (safe_fieldValues _ _) fun _ => .bind (safe_statesOf _ _ _ _) fun _ => .ok _) ?_
      exact fun i _ => .bind (fun _ _ _ run => nomatch run) fun _ => .pure _

theorem safe_cells (row : List Value) {items : List LayoutItem}
    (usable : ∀ item ∈ items, ∀ e, item.kind = .entity e → e.primaryKey.type ≠ .float) (found : Found) :
    BuildSafe (cells row items found) := by
  induction items generalizing found with
  | nil => exact .pure _
  | cons item rest ih =>
    have later := ih fun other member => usable other (List.mem_cons_of_mem item member)
    unfold cells
    split
    case h_1 type _ =>
      refine .check_bind ?_ fun _ _ => .bind (later found) fun _ => .pure _
      cases type with
      | none => exact .ok _
      | some type => exact type.safe_coerce _
    case h_2 e kind =>
      exact .bind (safe_entity (usable item List.mem_cons_self e kind) _) fun _ => .bind (later _) fun _ => .pure _

/-- Without fetched associations, and with usable keys, no row is refused with a build error. -/
theorem safe_recordsOf {layout : Layout} (unfetched : layout.fetches = [])
    (usable : ∀ item ∈ layout.items, ∀ e, item.kind = .entity e → e.primaryKey.type ≠ .float) (rows : List (List Value)) :
    BuildSafe (recordsOf layout rows) := by
  have one (row : List Value) : BuildSafe (record layout row) := by
    unfold record
    split
    · exact .throw rfl
    · rw [unfetched]
      exact .bind (safe_cells row usable _) fun _ => .bind (.pure ()) fun _ => .pure _
  induction rows with
  | nil => exact .pure _
  | cons row rest ih => exact .bind (one row) fun _ => .bind ih fun _ => .pure _

end Hydration

/-- Without joins nothing is fetched. -/
theorem compile_unfetched {registry : Registry} {d : Dialect} {p : Plan} {query : CompiledQuery}
    (compiled : compile registry d p = .ok query) (unjoined : p.joins = []) :
    query.layout = .ofProjections p.projections [] := by
  obtain ⟨s, resolved, compiled⟩ := Except.bind_eq_ok.mp compiled
  cases compiled
  obtain ⟨scope, r⟩ := Select.ofPlan_eq_ok.mp resolved
  obtain ⟨fetched, atFetches, fetches⟩ := r.fetches
  have nothing : s.fetches = [] := by
    rw [fetches, if_neg (by decide)]
    unfold Plan.fetches at atFetches
    rw [unjoined] at atFetches
    cases atFetches
    rfl
  rw [← nothing]

/-- A plan that reads the instances of one entity refuses no row where the keys of the entity are usable. -/
theorem not_refusesRows {w : Work} {p : Plan} {source : Alias} (selected : p.projections = [.entity source])
    (unjoined : p.joins = []) (usable : source.entity.primaryKey.type ≠ .float) : ¬w.RefusesRows p := by
  rintro ⟨query, rows, middle, e, h, compiled, _, refused, build⟩
  have safe : BuildSafe (Hydration.recordsOf query.layout rows.rows) := by
    rw [compile_unfetched compiled unjoined]
    refine Hydration.safe_recordsOf rfl ?_ _
    rw [selected]
    intro item member entity kind
    cases List.mem_singleton.mp member
    cases kind
    exact usable
  rw [safe _ e h refused] at build
  cases build

namespace Session

theorem entityAs_ok {registry : Registry} {entity name : String} {source : Alias}
    (run : registry.entityAs entity name = .ok source) : registry.describe entity = .ok source.entity := by
  obtain ⟨e, described, run⟩ := Except.bind_eq_ok.mp run
  split at run
  · cases run
  · cases run
    exact described

/-- A key that an entity's instances are looked up by is of a type that tells them apart. -/
theorem usable_of_keyOf {e : Entity} {entity : String} {id v : Value} {key : EntityKey}
    (coerced : keyOf e entity id = .ok v) (keyed : EntityKey.of entity v = .ok key) : e.primaryKey.type ≠ .float := by
  obtain ⟨_, _, coerced⟩ := Except.bind_eq_ok.mp coerced
  intro float
  have typed := DataType.hasType_of_coerce coerced
  rw [float] at typed
  cases v with
  | int i => cases typed _ rfl
  | text s => cases typed _ rfl
  | bool b => cases typed _ rfl
  | null => cases keyed
  | float d => cases keyed

/-- Looking an instance up by its key meets build errors before any statement. -/
theorem refusesEarly_find (entity : String) (id : Value) (w : Work) : RefusesEarly (find entity id) w := by
  refine RefusesEarly.get_bind.mpr <| .check_bind fun e described => .check_bind fun v coerced =>
    .check_bind fun key keyed => ?_
  split
  · exact .of_safe (.pure _) w
  · refine .check_bind fun plan planned => (refusesEarly_fetchOne Record.safe_toEntity plan w).mpr ?_
    obtain ⟨source, named, planned⟩ := Except.bind_eq_ok.mp planned
    obtain ⟨condition, _, planned⟩ := Except.bind_eq_ok.mp planned
    cases planned
    cases described.symm.trans (entityAs_ok named)
    exact not_refusesRows rfl rfl (usable_of_keyOf coerced keyed)

theorem refusesEarly_loadOwning (a : Association) (key : Value) (w : Work) : RefusesEarly (loadOwning a key) w :=
  (RefusesEarly.bind_safe fun _ => .pure _).mpr (refusesEarly_find a.target key w)

/-- Behind the plan for the instances that refer to an owner, their entity has the association that they do it by. -/
theorem inversePlan_ok {registry : Registry} {target : Entity} {entity mappedBy : String} {key : Value} {plan : Plan}
    (described : registry.describe entity = .ok target)
    (run : inversePlan registry target entity mappedBy key = .ok plan) :
    ∃ back, target.associationIndex mappedBy = .ok back := by
  obtain ⟨source, named, run⟩ := Except.bind_eq_ok.mp run
  obtain ⟨path, reached, _⟩ := Except.bind_eq_ok.mp run
  obtain ⟨found, declared, _⟩ := Except.bind_eq_ok.mp reached
  cases described.symm.trans (entityAs_ok named)
  have known := Entity.association_eq_ok.mp declared
  rw [← Entity.name_of_association? known]
  exact Entity.associationIndex_of_mem (List.mem_of_find?_eq_some known)

end Session

/-- An instance among those that refer to an owner is refused with a build error. -/
def Work.RefusesItems (w : Work) (r : Ref) (association : String) : Prop :=
  ∃ index key mappedBy target plan, (w.heap.get r).entity.associationIndex association = .ok index ∧
    (w.heap.get r).stateAt index = .deferred key ∧
    ((w.heap.get r).entity.associations.getD index default).mappedBy = some mappedBy ∧
    w.registry.describe ((w.heap.get r).entity.associations.getD index default).target = .ok target ∧
    Session.inversePlan w.registry target ((w.heap.get r).entity.associations.getD index default).target mappedBy key =
      .ok plan ∧ w.RefusesRows plan

namespace Session

theorem safe_modifyInstance (r : Ref) (change : Instance → Instance) : BuildSafe (modifyInstance r change) :=
  .modify _

theorem safe_load (r : Ref) : BuildSafe (load r) := .bind .get fun _ => .pure _

/-- What was loaded is pointed back and counted without a refusal, where the side that points back is known. -/
theorem safe_pointBack (r : Ref) (a : Association) {mappedBy : String} {target : Entity} {back : Nat} (items : List Ref)
    (found : target.associationIndex mappedBy = .ok back) :
    BuildSafe (do
      let back ← check (target.associationIndex mappedBy)
      items.forM fun item => modifyInstance item (·.fill back (.one (some r)))
      match a.cardinality with
      | .many => pure (.many items)
      | .one => if 1 < items.length then throw (.nonUniqueResult items.length) else pure (.one items.head?)
        : SessionM AssociationState) := by
  refine .bind (safe_check (found ▸ .ok back)) fun back => .bind ?_ fun _ => ?_
  · induction items with
    | nil => exact .pure _
    | cons item rest ih => exact .bind (safe_modifyInstance item _) fun _ => ih
  · split
    · exact .pure _
    · split
      · exact .throw rfl
      · exact .pure _

theorem refusesEarly_loadInverse (r : Ref) (a : Association) (mappedBy : String) (key : Value) (w : Work) :
    RefusesEarly (loadInverse r a mappedBy key) w ↔
      ¬∃ target plan, w.registry.describe a.target = .ok target ∧
        inversePlan w.registry target a.target mappedBy key = .ok plan ∧ w.RefusesRows plan := by
  constructor
  · rintro early ⟨target, plan, described, planned, refused⟩
    obtain ⟨back, found⟩ := inversePlan_ok described planned
    have fetched := (RefusesEarly.check_bind_ok planned).mp
      ((RefusesEarly.check_bind_ok described).mp (RefusesEarly.get_bind.mp early))
    have read := (RefusesEarly.bind_safe fun items => safe_pointBack r a items found).mp fetched
    exact (refusesEarly_fetch Record.safe_toEntity plan w).mp read refused
  · intro accepted
    refine RefusesEarly.get_bind.mpr <| .check_bind fun target described => .check_bind fun plan planned => ?_
    obtain ⟨back, found⟩ := inversePlan_ok described planned
    refine (RefusesEarly.bind_safe fun items => safe_pointBack r a items found).mpr ?_
    exact (refusesEarly_fetch Record.safe_toEntity plan w).mpr fun refused =>
      accepted ⟨target, plan, described, planned, refused⟩

/-- What resolving an association does in a session, once the state of the association is read. -/
theorem refusesEarly_resolve_iff (r : Ref) (association : String) (w : Work) :
    RefusesEarly (resolve r association) w ↔ RefusesEarly (do
      let index ← check ((w.heap.get r).entity.associationIndex association)
      match (w.heap.get r).stateAt index with
      | .deferred key => do
        let a := (w.heap.get r).entity.associations.getD index default
        let loaded ← match a.mappedBy with
          | none => loadOwning a key
          | some mappedBy => loadInverse r a mappedBy key
        modifyInstance r (·.fill index loaded)
        let now ← load r
        pure (now.stateAt index)
      | loaded => pure loaded) w := Iff.rfl

theorem refusesEarly_resolve (r : Ref) (association : String) (w : Work) :
    RefusesEarly (resolve r association) w ↔ ¬w.RefusesItems r association := by
  rw [refusesEarly_resolve_iff]
  have filled (index : Nat) (loaded : AssociationState) : BuildSafe (do
      modifyInstance r (·.fill index loaded)
      let now ← load r
      pure (now.stateAt index) : SessionM AssociationState) :=
    .bind (safe_modifyInstance r _) fun _ => .bind (safe_load r) fun _ => .pure _
  constructor
  · rintro early ⟨index, key, mappedBy, target, plan, found, deferred, inverse, described, planned, refused⟩
    have loading := (RefusesEarly.check_bind_ok found).mp early
    rw [deferred] at loading
    dsimp only at loading
    rw [inverse] at loading
    have loaded := (RefusesEarly.bind_safe (filled index)).mp loading
    exact (refusesEarly_loadInverse r _ mappedBy key w).mp loaded ⟨target, plan, described, planned, refused⟩
  · intro accepted
    refine .check_bind fun index found => ?_
    split
    case h_2 => exact .of_safe (.pure _) w
    case h_1 key deferred =>
      dsimp only
      split
      case h_1 => exact (RefusesEarly.bind_safe (filled index)).mpr (refusesEarly_loadOwning _ key w)
      case h_2 mappedBy inverse =>
        refine (RefusesEarly.bind_safe (filled index)).mpr ((refusesEarly_loadInverse r _ mappedBy key w).mpr ?_)
        rintro ⟨target, plan, described, planned, refused⟩
        exact accepted ⟨index, key, mappedBy, target, plan, found, deferred, inverse, described, planned, refused⟩

end Session

end EntityMapper
