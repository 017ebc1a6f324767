import EntityMapper.Proofs.Session.LateRows
import EntityMapper.Proofs.Session.RowListings

namespace EntityMapper

namespace Hydration

/-- Rows without fetched associations attach nothing. -/
theorem not_attaches {layout : Layout} (unfetched : layout.fetches = []) (rows : List (List Value)) (h : Hydration)
    (owner : Ref) (a : Association) (target : Option Ref) (call : Hydration) :
    ¬Attaches layout rows h owner a target call := by
  intro reached
  induction reached with
  | here _ _ reached =>
    rw [unfetched, attachesRow_nil] at reached
    exact reached
  | later _ _ ih => exact ih

theorem accumulates_quiet :
    Accumulates fun h calls k => (∀ owner a target call, ¬calls owner a target call) → h.Quiet k where
  still h _ := refl_of Quiet h
  join first next none := by
    have early := first fun owner a target call reached => none owner a target call (.inl reached)
    have late := next fun owner a target call reached => none owner a target call (.inr reached)
    exact trans_of Quiet early late
  read e columns h _ := quiet_entity e columns h
  attached e columns before owner a target h _ none := (none owner a target h ⟨rfl, rfl, rfl, rfl⟩).elim

theorem quiet_recordsOf {layout : Layout} (unfetched : layout.fetches = []) (rows : List (List Value)) :
    Respects Quiet (recordsOf layout rows) :=
  fun h => accumulates_recordsOf accumulates_quiet layout rows h (not_attaches unfetched rows h)

/-- Rows without fetched associations load nothing of an instance that is there. -/
theorem slot_unfetched {layout : Layout} (unfetched : layout.fetches = []) (rows : List (List Value)) {heap : Heap}
    (identity : IdentityMap) {r : Ref} (held : heap.Holds r) (n : Nat) :
    (leaves (recordsOf layout rows) ⟨heap, identity, [], []⟩).slot r n = (heap.get r).stateAt n := by
  have outcome := outcome_recordsOf (i := n) layout rows (h := ⟨heap, identity, [], []⟩) held List.not_mem_nil
  cases outcome with
  | spared _ spares => exact spares.slot
  | loaded does =>
    obtain ⟨owner, a, target, call, reached, _⟩ := does
    exact (not_attaches unfetched rows _ owner a target call reached).elim

end Hydration

namespace Session

/-- No collection gains anything. -/
def Quiet (w after : Work) : Prop := w.heap.Quiet after.heap

instance : IsPreorder Work Quiet where
  refl _ := .refl _
  trans _ _ _ first second := trans_of Heap.Quiet first second

theorem quiet_fill (r : Ref) (n : Nat) {state : AssociationState} (empty : state.items = []) :
    Respects Quiet (modifyInstance r (·.fill n state)) := .modify fun w => w.heap.quiet_fill r n empty

/-- The end of an insertion changes the values of the instance, as it was before, and its standing. -/
theorem quiet_settle (w : Work) (r : Ref) (key? : Option Value) :
    Quiet w (leaves (settle r (w.heap.get r) key?) w) := by
  refine heap_settle (motive := w.heap.Quiet) r key? w (.refl w.heap) (fun change same => ?_)
    fun change key keyed assigned same => ?_
  · exact w.heap.quiet_of_states r (by rw [same]; rfl) (by rw [same]; rfl)
  · obtain ⟨_, _, run⟩ := Except.bind_eq_ok.mp assigned
    cases run
    exact w.heap.quiet_of_states r (by rw [same]; rfl) (by rw [same]; rfl)

theorem steps_quiet : Steps Quiet where
  called w _ _ := .refl w.heap
  made w e := w.heap.quiet_allocate (Instance.items_new e)
  written w r := w.heap.quiet_of_states r rfl rfl
  settled w r key? _ := quiet_settle w r key?

theorem quiet_detachAll : Respects Quiet detachAll :=
  .modify fun w => List.foldlRecOn (motive := w.heap.Quiet) _ _ (.refl w.heap) fun h before s _ =>
    trans_of Heap.Quiet before (h.quiet_of_states s rfl rfl)

theorem leaves_check {α : Type} (x : Except Error α) (w : Work) : leaves (check x) w = w := by
  cases x with
  | ok a => rfl
  | error e => rfl

/-- What changes nothing leaves what was left before. -/
theorem leaves_bind_still {α β : Type} {m : SessionM α} {f : α → SessionM β} (still : ∀ a w, leaves (f a) w = w)
    (w : Work) : leaves (m >>= f) w = leaves m w := by
  cases run : m w with
  | ok a middle => rw [leaves_bind_of_ok run, leaves_of_ok run, still]
  | error e after => rw [leaves_bind_of_error run, leaves_of_error run]

section Decoded

variable {α : Type} (decode : Record → Except Error α) (p : Plan) (w : Work)

theorem leaves_fetch : leaves (fetch decode p) w = leaves (fetchRecords p) w :=
  leaves_bind_still (fun _ _ => leaves_check _ _) w

theorem leaves_first (r : Record) : leaves (do
    let result ← check (decode r)
    pure (some result) : SessionM (Option α)) w = w := by
  rw [leaves_bind_pure, leaves_check]

theorem leaves_fetchOne : leaves (fetchOne decode p) w = leaves (fetchRecords p) w := by
  refine leaves_bind_still (fun records v => ?_) w
  split
  · rfl
  · exact leaves_first decode v _
  · rfl

theorem leaves_fetchFirst : leaves (fetchFirst decode p) w =
    leaves (fetchRecords { p with limit := some (if p.limit = some 0 then 0 else 1) }) w := by
  refine leaves_bind_still (fun records v => ?_) w
  split
  · rfl
  · exact leaves_first decode v _

end Decoded

/-- The instances that a query leaves are those that its rows do. -/
theorem heap_fetchRecords {p : Plan} {w middle : Work} {query : CompiledQuery} {rows : RowSet}
    (compiled : compile w.registry w.dialect p = .ok query) (answered : run query.statement w = .ok rows middle) :
    (leaves (fetchRecords p) w).heap =
      (leaves (Hydration.recordsOf query.layout rows.rows) ⟨w.heap, w.identity, [], []⟩).heap := by
  obtain ⟨unit, store, rfl, _⟩ := run_ok answered
  have sent : leaves (fetchRecords p) w = leaves (do
      let records ← hydrate query.layout rows.rows
      pure (if p.distinct && !query.layout.fetches.isEmpty then Record.distinct records else records))
      { w with unit, store } := by
    unfold leaves
    rw [fetchRecords_run compiled, bind_run, answered]
  rw [sent, leaves_bind_pure, heap_hydrate]

/-- A query that is refused or not answered leaves all instances alone. -/
theorem heap_fetchRecords_unanswered {p : Plan} {w : Work}
    (unanswered : ∀ query rows middle, compile w.registry w.dialect p = .ok query →
      run query.statement w ≠ .ok rows middle) : (leaves (fetchRecords p) w).heap = w.heap := by
  cases compiled : compile w.registry w.dialect p with
  | error e => rw [leaves_of_error (fetchRecords_uncompiled compiled)]
  | ok query =>
    have asked := asks_run query.statement w
    cases answered : run query.statement w with
    | ok rows middle => exact absurd answered (unanswered query rows middle compiled)
    | error e after =>
      rw [leaves_of_error answered] at asked
      have failed : fetchRecords p w = .error e after := by rw [fetchRecords_run compiled, bind_run, answered]
      rw [leaves_of_error failed, asked.heap]

theorem fetches_of_unjoined {registry : Registry} {d : Dialect} {p : Plan} {query : CompiledQuery}
    (compiled : compile registry d p = .ok query) (unjoined : p.joins = []) : query.layout.fetches = [] := by
  rw [compile_unfetched compiled unjoined]
  rfl

section Unjoined

variable {p : Plan} (unjoined : p.joins = [])

include unjoined

theorem quiet_fetchRecords : Respects Quiet (fetchRecords p) := by
  intro w
  by_cases answered : ∃ query rows middle, compile w.registry w.dialect p = .ok query ∧
      run query.statement w = .ok rows middle
  · obtain ⟨query, rows, middle, compiled, answered⟩ := answered
    rw [Quiet, heap_fetchRecords compiled answered]
    have unfetched := fetches_of_unjoined compiled unjoined
    exact (Hydration.quiet_recordsOf unfetched rows.rows ⟨w.heap, w.identity, [], []⟩).1
  · rw [Quiet, heap_fetchRecords_unanswered fun query rows middle compiled same =>
      answered ⟨query, rows, middle, compiled, same⟩]
    exact .refl _

/-- A query without joins loads nothing of an instance that is there. -/
theorem state_fetchRecords {w : Work} {r : Ref} (held : w.heap.Holds r) (n : Nat) :
    ((leaves (fetchRecords p) w).heap.get r).stateAt n = (w.heap.get r).stateAt n := by
  by_cases answered : ∃ query rows middle, compile w.registry w.dialect p = .ok query ∧
      run query.statement w = .ok rows middle
  · obtain ⟨query, rows, middle, compiled, answered⟩ := answered
    rw [heap_fetchRecords compiled answered]
    exact Hydration.slot_unfetched (fetches_of_unjoined compiled unjoined) rows.rows w.identity held n
  · rw [heap_fetchRecords_unanswered fun query rows middle compiled same =>
      answered ⟨query, rows, middle, compiled, same⟩]

end Unjoined

theorem joins_findPlan {registry : Registry} {e : Entity} {entity : String} {key : Value} {plan : Plan}
    (planned : findPlan registry e entity key = .ok plan) : plan.joins = [] := by
  obtain ⟨source, _, planned⟩ := Except.bind_eq_ok.mp planned
  obtain ⟨condition, _, planned⟩ := Except.bind_eq_ok.mp planned
  cases planned
  rfl

theorem quiet_find (entity : String) (id : Value) : Respects Quiet (find entity id) :=
  respects_find fun _ _ _ _ planned => quiet_fetchRecords (joins_findPlan planned)

end Session

end EntityMapper
