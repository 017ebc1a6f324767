import EntityMapper.Proofs.Session.ColumnOrder
import EntityMapper.Proofs.Session.FailedFlush
import EntityMapper.Proofs.Session.Listings
import EntityMapper.Proofs.Session.RowKeys
import EntityMapper.Proofs.Sql.Clauses

namespace EntityMapper

theorem Value.dataType?_of_hasType {v : Value} {type : DataType} (typed : v.HasType type) (usable : v.isNull = false) :
    v.dataType? = some type := by
  cases own : v.dataType? with
  | none => cases v <;> simp [Value.isNull, Value.dataType?] at usable own
  | some other => exact congrArg some (typed other own)

theorem Instance.usable_of_key {i : Instance} {key : EntityKey} (keyed : i.key = .ok key) : i.id.isNull = false := by
  obtain ⟨value, read, _⟩ := Except.bind_eq_ok.mp keyed
  cases id : i.id with
  | null =>
    rw [id] at read
    cases read
  | bool | int | float | text => rfl

/-- Inverse associations are loaded by the primary key of their entity. -/
def Entity.KeysAgree (e : Entity) : Prop :=
  ∀ a ∈ e.associations, a.isOwning = false → a.keyType = e.primaryKey.type

theorem Registry.keysAgree_build {definitions : List Definition} {registry : Registry}
    (built : build definitions = .ok registry) {e : Entity} (member : e ∈ registry.entities) : e.KeysAgree := by
  intro a listed inverse
  obtain ⟨t, _, leads⟩ := leads_build built member listed
  rcases leads.sides with refers | ⟨b, _, mirrors, refers⟩
  · rw [refers.isOwning] at inverse
    cases inverse
  · exact mirrors.type.trans refers.type

namespace Instance

/-- What an association is going to be loaded by is a key, and of the type of its keys. -/
def DeferredTyped (i : Instance) : Prop := i.entity.KeysAgree → ∀ n a key, i.entity.associations[n]? = some a →
  i.stateAt n = .deferred key → key.dataType? = some a.keyType

theorem deferredTyped_of_loaded {i : Instance} (loaded : ∀ n, (i.stateAt n).isLoaded = true) : i.DeferredTyped := by
  intro _ n a key _ deferred
  have loads := loaded n
  rw [deferred] at loads
  cases loads

theorem loaded_new (e : Entity) (n : Nat) : ((new e).stateAt n).isLoaded = true := by
  rw [stateAt, new, List.getD_eq_getElem?_getD, List.getElem?_map]
  cases e.associations[n]? with
  | none => rfl
  | some a =>
    rw [Option.map_some, Option.getD_some]
    split
    · rfl
    · rfl

/-- The key that a row defers an association by is the instance's own or a foreign key, each brought to its type. -/
theorem deferredTyped_instanceOf {e : Entity} {id : Value} {columns : List Value} {i : Instance}
    (coerced : e.primaryKey.type.coerce (columns.getD e.key .null) = .ok id) (usable : id.isNull = false)
    (made : Hydration.instanceOf e id columns = .ok i) : i.DeferredTyped := by
  obtain ⟨entity, _⟩ := Hydration.instanceOf_id made coerced usable
  intro agree n a key declared deferred
  rw [entity] at agree declared
  rcases Hydration.stateAt_instanceOf made n with ⟨b, own, read⟩ | ⟨none, _⟩
  · cases own.symm.trans declared
    rw [deferred, Hydration.stateOf] at read
    cases side : a.isOwning with
    | false =>
      rw [side, Bool.not_false, if_pos rfl] at read
      cases read
      rw [agree a (List.mem_of_getElem? declared) side]
      exact Value.dataType?_of_hasType (DataType.hasType_of_coerce coerced) usable
    | true =>
      rw [side, Bool.not_true, if_neg Bool.false_ne_true] at read
      obtain ⟨foreign, brought, read⟩ := Except.bind_eq_ok.mp read
      cases null : foreign.isNull with
      | true =>
        rw [null, if_pos rfl] at read
        cases read
      | false =>
        rw [null, if_neg Bool.false_ne_true] at read
        cases read
        exact Value.dataType?_of_hasType (DataType.hasType_of_coerce brought) null
  · cases none.symm.trans declared

theorem lasting_deferredTyped : Lasting DeferredTyped := by
  refine .of_states (fun i j entity states typed => ?_) (deferredTyped_of_loaded fun _ => rfl)
    (fun e => deferredTyped_of_loaded (loaded_new e)) (fun _ _ _ _ => deferredTyped_instanceOf) ?_
  · intro agree n a key declared deferred
    rw [entity] at agree declared
    rw [stateAt, states] at deferred
    exact typed agree n a key declared deferred
  · intro i index state loaded typed agree n a key declared deferred
    rw [stateAt_withState] at deferred
    split at deferred
    · rw [deferred] at loaded
      cases loaded
    · exact typed agree n a key declared deferred

end Instance

/-- The statement compares the column of a primary key with its last parameter, which is the key. -/
structure Statement.ComparesKey (st : Statement) (d : Dialect) (e : Entity) (id : Value) : Prop where
  text : ∃ front, st.sql = front ++ "WHERE " ++ d.quoted e.primaryKey.column ++ " = " ++ d.placeholder st.params.length
  bound : st.params.getLast? = some id

theorem Writer.written_comparison (d : Dialect) (last : Option Char) (n : Nat) (column : String) {id : Value}
    (usable : id.isNull = false) :
    written d last n (.word "WHERE" :: .space :: assignmentTokens column id) =
      ("WHERE " ++ d.quoted column ++ " = " ++ d.placeholder (n + 1)).toList := by
  have mark : (d.quoted column).toList.getLast? = some d.quoteMark := by
    rw [Dialect.quoted, String.toList_ofList, List.getLast?_concat]
  have solid : Solid d.quoteMark := by cases d <;> exact ⟨by decide, by decide⟩
  have behind (m : Nat) : Token.space.written d (some d.quoteMark) m = [' '] := Token.written_space_of_solid d m solid
  have equals (m : Nat) (more : List Token) :
      written d (some d.quoteMark) m (.space :: .symbol "=" :: .space :: more) =
        " = ".toList ++ written d (some ' ') m more := by
    rw [written, behind]
    rfl
  have value (m : Nat) : written d (some ' ') m [.value id] = (d.placeholder (m + 1)).toList := by
    rw [written, Token.written, usable, if_neg Bool.false_ne_true, written, List.append_nil]
  have start : written d last n (.word "WHERE" :: .space :: assignmentTokens column id) =
      "WHERE ".toList ++ written d (some ' ') n (assignmentTokens column id) := rfl
  rw [start, assignmentTokens, written, Token.written, mark, Option.some_or, equals, value]
  simp [Token.param?]

theorem Statement.comparesKey_of_compileUpdate {d : Dialect} {e : Entity} {changes : Assignments} {id : Value}
    {st : Statement} (compiled : compileUpdate d e changes id = .ok st) (usable : id.isNull = false) :
    st.ComparesKey d e id := by
  unfold compileUpdate at compiled
  split at compiled
  case isTrue => cases compiled
  case isFalse =>
    cases compiled
    obtain ⟨start, split⟩ : ∃ start, updateTokens e changes id =
        start ++ words ["WHERE"] ++ [.space] ++ assignmentTokens e.primaryKey.column id := ⟨_, rfl⟩
    obtain ⟨front, split⟩ : ∃ front, updateTokens e changes id =
        front ++ (.word "WHERE" :: .space :: assignmentTokens e.primaryKey.column id) :=
      ⟨start ++ [.space], by simp [split, words]⟩
    have written : Writer.empty.tokens d (updateTokens e changes id) =
        (Writer.empty.tokens d front).tokens d (.word "WHERE" :: .space :: assignmentTokens e.primaryKey.column id) := by
      rw [split, Writer.tokens, List.foldl_append]
      rfl
    obtain ⟨text, params⟩ := Writer.tokens_eq d (Writer.empty.tokens d front)
      (.word "WHERE" :: .space :: assignmentTokens e.primaryKey.column id)
    have bound : Token.params (.word "WHERE" :: .space :: assignmentTokens e.primaryKey.column id) = [id] := by
      cases id with
      | null => cases usable
      | bool | int | float | text => rfl
    rw [bound, ← written] at params
    rw [Writer.written_comparison d _ _ _ usable, ← written] at text
    refine ⟨⟨(Writer.empty.tokens d front).sql, ?_⟩, ?_⟩
    · refine String.toList_inj.mp ?_
      rw [Statement.ofTokens, Writer.finish]
      dsimp only
      rw [text, params]
      simp
    · rw [Statement.ofTokens, Writer.finish]
      dsimp only
      rw [params, List.getLast?_concat]

theorem Work.compiled_of_updates {w : Work} {refs : List Ref} {pending : List (Ref × Statement)}
    (made : w.updates refs = .ok pending) : ∀ entry ∈ pending, entry.1 ∈ refs ∧ ∃ changes,
      compileUpdate w.dialect (w.heap.get entry.1).entity changes (w.heap.get entry.1).id = .ok entry.2 := by
  induction refs generalizing pending with
  | nil =>
    cases made
    exact fun _ none => absurd none List.not_mem_nil
  | cons r rest ih =>
    obtain ⟨update, own, made⟩ := Except.bind_eq_ok.mp made
    obtain ⟨others, later, made⟩ := Except.bind_eq_ok.mp made
    cases made
    rintro ⟨s, st⟩ member
    rcases List.mem_append.mp member with here | behind
    · obtain ⟨statement, given, same⟩ := List.mem_map.mp here
      cases same
      rw [Option.mem_toList.mp given] at own
      obtain ⟨changes, _, compiled⟩ := updateOf_some own
      exact ⟨List.mem_cons_self, changes, compiled⟩
    · obtain ⟨inside, compiled⟩ := ih later _ behind
      exact ⟨List.mem_cons_of_mem _ inside, compiled⟩

namespace Session

/-- Of a list of statements the first ones reach the store, all of them or those up to a failure. -/
theorem runAll_sends (statements : List Statement) (w : Work) :
    ∃ sent, sent <+: statements ∧
      (leaves (runAll statements) w).store.calls = w.store.calls ++ sent.map Call.statement := by
  induction statements generalizing w with
  | nil => exact ⟨[], List.nil_prefix, (List.append_nil _).symm⟩
  | cons statement rest ih =>
    have calls := w.unit.calls_execute w.store statement
    unfold leaves
    rw [runAll_cons]
    rcases answered : w.unit.execute w.store statement with ⟨answer, unit, store⟩
    rw [answered] at calls
    cases answer with
    | error e =>
      rcases calls with ⟨unsent, _⟩ | sent
      · exact ⟨[], List.nil_prefix, unsent.trans (List.append_nil _).symm⟩
      · exact ⟨[statement], ⟨rest, rfl⟩, sent⟩
    | ok rows =>
      have first : store.calls = w.store.calls ++ [.statement statement] := UnitOfWork.execute_ok answered
      obtain ⟨others, front, later⟩ := ih { w with unit, store }
      refine ⟨statement :: others, (List.prefix_cons_inj statement).mpr front, later.trans ?_⟩
      rw [first, List.append_assoc]
      rfl

/-- What a flush sends, also one that fails, are updates of registered instances. -/
theorem flush_sends {w : Work} (valid : w.Valid) :
    ∃ sent : List Statement, (leaves flush w).store.calls = w.store.calls ++ sent.map Call.statement ∧
      ∀ st ∈ sent, ∃ r ∈ w.identity.refs, ∃ changes,
        compileUpdate w.dialect (w.heap.get r).entity changes (w.heap.get r).id = .ok st := by
  have outside := (Work.takeAll_outside w (w.reached w.identity.refs)).2
  have collected := collectUpdates_run valid.nodup_refs w
  have begins : leaves flush w = leaves (do
      let updates ← collectUpdates w.identity.refs
      runAll updates
      pure updates.length) w := rfl
  rw [begins]
  cases made : w.updates w.identity.refs with
  | error e =>
    rw [made] at collected
    rw [leaves_bind_of_error collected, outside]
    exact ⟨[], (List.append_nil _).symm, fun _ none => absurd none List.not_mem_nil⟩
  | ok pending =>
    rw [made] at collected
    obtain ⟨sent, front, calls⟩ := runAll_sends (pending.map (·.2)) (w.takeAll (w.reached w.identity.refs))
    refine ⟨sent, ?_, fun st member => ?_⟩
    · rw [leaves_bind_of_ok collected, leaves_bind_pure, calls, outside]
    · obtain ⟨⟨r, statement⟩, listed, rfl⟩ := List.mem_map.mp (front.subset member)
      obtain ⟨inside, compiled⟩ := Work.compiled_of_updates made _ listed
      exact ⟨r, inside, compiled⟩

end Session

namespace Program

/-- Instances are typed: every value by its field, what an association is deferred by by the keys of the association, and
every registered instance has its key. So whatever a flush sends compares the key of an instance with a parameter. -/
structure TypedInstances (p : Program) : Prop where
  values : ∀ r n f, (p.heap.get r).entity.fields[n]? = some f → ((p.heap.get r).valueAt n).HasType f.type
  deferred : ∀ definitions registry, Registry.build definitions = .ok registry →
    ∀ r n a key, (p.heap.get r).entity ∈ registry.entities → (p.heap.get r).entity.associations[n]? = some a →
      (p.heap.get r).stateAt n = .deferred key → key.dataType? = some a.keyType
  keyed : ∀ name s, p.sessions name = some s → ∀ r ∈ s.identity.refs,
    (p.heap.get r).id.dataType? = some (p.heap.get r).entity.primaryKey.type
  updates : ∀ name w, p.work name = some w → ∃ sent : List Statement,
    (leaves Session.flush w).store.calls = w.store.calls ++ sent.map Call.statement ∧
      ∀ st ∈ sent, ∃ r ∈ w.identity.refs, st.ComparesKey w.dialect (w.heap.get r).entity (w.heap.get r).id

theorem Consistent.usable {p : Program} (consistent : p.Consistent) {name : String} {s : Session}
    (opened : p.sessions name = some s) {r : Ref} (member : r ∈ s.identity.refs) :
    (p.heap.get r).id.isNull = false := by
  obtain ⟨⟨key, _⟩, listed, rfl⟩ := List.mem_map.mp member
  exact Instance.usable_of_key ((consistent.valid name s opened).keyed key _ listed)

theorem Reachable.typedInstances {p : Program} (reach : p.Reachable) : p.TypedInstances := by
  have consistent := reach.consistent
  refine ⟨consistent.typed, ?_, fun name s opened r member => ?_, fun name w opened => ?_⟩
  · intro definitions registry built r n a key described declared deferred
    exact reach.every Instance.lasting_deferredTyped r (Registry.keysAgree_build built described) n a key declared deferred
  · have typed := consistent.typed r _ _ (List.getElem?_eq_getElem (p.heap.get r).entity.key.isLt)
    exact Value.dataType?_of_hasType typed (consistent.usable opened member)
  · obtain ⟨sent, calls, updates⟩ := Session.flush_sends (consistent.work_valid opened)
    refine ⟨sent, calls, fun st member => ?_⟩
    obtain ⟨r, registered, changes, compiled⟩ := updates st member
    obtain ⟨s, found, rfl⟩ := work_eq_some.mp opened
    exact ⟨r, registered, Statement.comparesKey_of_compileUpdate compiled (consistent.usable found registered)⟩

/-- A session finds an issue in a row of a store that has numbers for truth values and for whole numbers, and changes
it. -/
def settled : Program :=
  (start ⟨[.rows .empty, .rows ⟨["is_urgent", "id", "author_id", "assignee_id"],
      [[.int 1, .int 7, .null, .int 3]]⟩], []⟩).run
    [.begin "main" ⟨.postgres, .defaults⟩ board, .request "main" (.find "Issue" (.int 7)),
      .set ⟨0⟩ "urgent" (.bool false)]

theorem typedInstances_settled : settled.TypedInstances ∧ Registry.build boardDefinitions = .ok board ∧
    (settled.heap.get ⟨0⟩).values = [.bool false, .int 7] ∧
    (settled.heap.get ⟨0⟩).states = [.one none, .deferred (.int 7), .deferred (.int 3)] := by
  refine ⟨Reachable.typedInstances ((reachable_start _).run _), rfl, ?_, ?_⟩
  · decide +kernel
  · decide +kernel

end Program

end EntityMapper
