import EntityMapper.Session.Fetch

namespace EntityMapper.Session

/-- A key that the instance brings along must not be registered. -/
def checkNewKey (i : Instance) : SessionM Unit :=
  if i.id.isNull then pure ()
  else do
    let w ← get
    let key ← check i.key
    if (w.identity.get? key).isSome then throw (.invalidArgument (.takenKey i.entity.name i.id)) else pure ()

/-- The key that the store made for an inserted row: returned by the insert, or asked for after it. -/
def generatedKey (e : Entity) (inserted : RowSet) : SessionM Value := do
  let w ← get
  let answer ← match w.dialect.returnsKeys, w.dialect.lastKeyQuery? with
    | true, _ => pure inserted.firstValue?
    | false, some sql => do
      let rows ← run ⟨sql, []⟩
      pure rows.firstValue?
    | false, none => pure none
  match answer with
  | none | some .null => throw (.execution (.noGeneratedKey e.table))
  | some key => pure key

/-- Inserts an instance that no unit of work knows. -/
def insert (r : Ref) : SessionM Unit := do
  let i ← load r
  checkNewKey i
  let w ← get
  let assignments ← check (w.heap.insertAssignments i)
  let rows ← run (compileInsert w.dialect i.entity assignments i.id.isNull)
  if i.id.isNull then do
    let key ← generatedKey i.entity rows
    let keyed ← check (i.assignKey key)
    modifyInstance r fun _ => keyed
  modifyInstance r Instance.manage
  register r

/-- Saves an instance. One that the session holds is saved already; one that another session holds is refused. -/
def persist (r : Ref) : SessionM Unit := do
  let w ← get
  let i ← load r
  if i.managed then
    if w.identity.contains w.heap r then pure ()
    else throw (.invalidArgument (.foreignInstance i.entity.name i.id))
  else insert r

/-- The changed columns of an instance, which count as written from then on. -/
def takeChanges (r : Ref) : SessionM Assignments := do
  let w ← get
  match w.heap.takeChanges r with
  | (changes, heap) => do
    set { w with heap }
    check changes

/-- The updates that changed instances need, in the order of their registration. -/
def collectUpdates : List Ref → SessionM (List Statement)
  | [] => pure []
  | r :: rest => do
    let w ← get
    let i := w.heap.get r
    if i.isDirty then do
      let changes ← takeChanges r
      if changes.isEmpty then collectUpdates rest
      else do
        let statement ← check (compileUpdate w.dialect i.entity changes i.id)
        let others ← collectUpdates rest
        pure (statement :: others)
    else collectUpdates rest

def runAll : List Statement → SessionM Unit
  | [] => pure ()
  | s :: rest => do
    let _ ← run s
    runAll rest

/-- Writes the changes of registered instances; the number of updates. -/
def flush : SessionM Nat := do
  let w ← get
  let updates ← collectUpdates w.identity.refs
  runAll updates
  pure updates.length

/-- Forgets every instance. Later reads make new ones. -/
def clear : SessionM Unit := detachAll

end EntityMapper.Session
