import EntityMapper.Session.Session

namespace EntityMapper.Session

/-- Turns rows into records through the identity map of the session. -/
def hydrate (layout : Layout) (rows : List (List Value)) : SessionM (List Record) := do
  let w ← get
  match Hydration.records layout rows ⟨w.heap, w.identity, [], []⟩ with
  | .ok records h => do
    set { w with heap := h.heap, identity := h.identity }
    pure records
  | .error e h => do
    set { w with heap := h.heap, identity := h.identity }
    throw e

/-- The records of a plan. Fetched columns repeat a row, so distinct rows are told apart again. -/
def fetchRecords (p : Plan) : SessionM (List Record) := do
  let w ← get
  let query ← check (compile w.registry w.dialect p)
  let rows ← run query.statement
  let records ← hydrate query.layout rows.rows
  pure (if p.distinct && !query.layout.fetches.isEmpty then Record.distinct records else records)

/-- Every result of a plan. -/
def fetch {α : Type} (decode : Record → Except Error α) (p : Plan) : SessionM (List α) := do
  let records ← fetchRecords p
  check (records.mapM decode)

/-- The only result of a plan, if there is one. -/
def fetchOne {α : Type} (decode : Record → Except Error α) (p : Plan) : SessionM (Option α) := do
  let records ← fetchRecords p
  match records with
  | [] => pure none
  | [r] => do
    let result ← check (decode r)
    pure (some result)
  | several => throw (.nonUniqueResult several.length)

/-- The first result of a plan, which is asked for one row only, or for none where it allows none. -/
def fetchFirst {α : Type} (decode : Record → Except Error α) (p : Plan) : SessionM (Option α) := do
  let records ← fetchRecords { p with limit := some (if p.limit = some 0 then 0 else 1) }
  match records with
  | [] => pure none
  | r :: _ => do
    let result ← check (decode r)
    pure (some result)

/-- The number that a count statement answers. -/
def countOf (rows : RowSet) : Except Error Nat := do
  match ← HostType.int64.convert (rows.firstValue?.getD (.int 0)) with
  | .int n => if n.toInt < 0 then .error (.decode "u64" (Value.int n).shown) else .ok n.toInt.toNat
  | other => .error (.decode "u64" other.shown)

/-- The number of rows of a plan without order and pages. -/
def fetchCount (p : Plan) : SessionM Nat := do
  let w ← get
  let statement ← check (compileCount w.registry w.dialect p)
  let rows ← run statement
  check (countOf rows)

/-- A page of results with the number of all rows. Without any row the page is not read. -/
def fetchPage {α : Type} (decode : Record → Except Error α) (p : Plan) : SessionM (Page α) := do
  let total ← fetchCount p
  let results ← if total = 0 then pure [] else fetch decode p
  pure { results, total, offset := p.offset, limit := p.limit }

end EntityMapper.Session
