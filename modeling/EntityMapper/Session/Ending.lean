import EntityMapper.Session.Persist

namespace EntityMapper

namespace Session

/-- Writes pending changes, unless the settings leave them, and commits. -/
def commit : SessionM Unit := do
  let w ← get
  if w.flushOnCommit then do
    let _ ← flush
  onUnit UnitOfWork.commit
  detachAll

def rollback : SessionM Unit := do
  onUnit UnitOfWork.rollback
  detachAll

end Session

namespace Work

/-- A session ends with its last action, whether that fails or not. A transaction still in hand is dropped. -/
def endWith (w : Work) (action : SessionM Unit) : Except Error Unit × Heap × Store :=
  match action w with
  | .ok _ w => (.ok (), w.heap, w.unit.drop w.store)
  | .error e w => (.error e, w.heap, w.unit.drop w.store)

def commit (w : Work) : Except Error Unit × Heap × Store := w.endWith Session.commit

def rollback (w : Work) : Except Error Unit × Heap × Store := w.endWith Session.rollback

def drop (w : Work) : Except Error Unit × Heap × Store := w.endWith (pure ())

end Work

end EntityMapper
