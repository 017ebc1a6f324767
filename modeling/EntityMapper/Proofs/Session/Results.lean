import EntityMapper.Proofs.Session.Continuity

namespace EntityMapper

/-- The instance is the registered one for its own key. -/
def Work.Registered (w : Work) (r : Ref) : Prop := w.identity.contains w.heap r = true

/-- The identity map of the session is valid for its instances. -/
def Work.Valid (w : Work) : Prop := w.identity.Keyed w.heap

theorem Work.Registered.of_get? {w : Work} (valid : w.Valid) {key : EntityKey} {r : Ref}
    (found : w.identity.get? key = some r) : w.Registered r :=
  IdentityMap.contains_of_get? found (valid.keyed key r (IdentityMap.mem_of_get? found))

/-- The instances in a result. -/
def Result.refs : Result → List Ref
  | record r => r.refs
  | value _ => []
  | entity found => found.toList
  | tuple t => t.cells.flatMap Cell.refs

namespace Session

open Work

theorem valid_grows {α : Type} {m : SessionM α} (grown : Respects Grows m) : Yields Valid m fun _ => Valid :=
  grown.yields fun _ _ continued valid => continued.keyed valid

/-- The records of rows mention registered instances only. -/
theorem yields_hydrate (layout : Layout) (rows : List (List Value)) :
    Yields Valid (hydrate layout rows) fun records w => ∀ record ∈ records, ∀ r ∈ record.refs, w.Registered r := by
  intro w records after valid run record member r mentioned
  rw [hydrate_run] at run
  cases materialized : Hydration.recordsOf layout rows ⟨w.heap, w.identity, [], []⟩ with
  | error e h =>
    rw [materialized] at run
    cases run
  | ok found h =>
    rw [materialized] at run
    cases run
    have extended := Hydration.respects_recordsOf layout rows ⟨w.heap, w.identity, [], []⟩
    rw [leaves_of_ok materialized] at extended
    have sound := Hydration.yields_recordsOf layout rows _ _ _ ⟨Hydration.staged_nil _ _ _, valid⟩ materialized
    obtain ⟨key, looked, keyed⟩ := sound.2 r (List.mem_flatMap.mpr ⟨record, member, mentioned⟩)
    refine IdentityMap.contains_of_get? ?_ keyed
    unfold Hydration.lookup IdentityMap.get? at looked
    rw [extended.identity] at looked
    unfold IdentityMap.get?
    rw [List.lookup_append]
    exact looked

theorem mem_of_mem_distinctFrom {seen : List (List Cell)} {records : List Record} {record : Record}
    (member : record ∈ Record.distinctFrom seen records) : record ∈ records := by
  induction records generalizing seen with
  | nil => exact member
  | cons first rest ih =>
    unfold Record.distinctFrom at member
    split at member
    · exact List.mem_cons_of_mem _ (ih member)
    · rcases List.mem_cons.mp member with same | later
      · exact same ▸ List.mem_cons_self
      · exact List.mem_cons_of_mem _ (ih later)

theorem yields_fetchRecords (p : Plan) :
    Yields Valid (fetchRecords p) fun records w => ∀ record ∈ records, ∀ r ∈ record.refs, w.Registered r := by
  refine .bind ((Respects.get (R := Grows)).yields fun _ _ continued valid => continued.keyed valid) fun w => ?_
  refine .bind (valid_grows (respects_check _)) fun query =>
    .bind (valid_grows (respects_run steps_grows.toSteps _)) fun rows => ?_
  refine .bind (yields_hydrate query.layout rows.rows) fun records => .pure fun after registered record member => ?_
  split at member
  · exact registered record (mem_of_mem_distinctFrom member)
  · exact registered record member

section Decoded

variable {α : Type} {decode : Record → Except Error α} {refs : α → List Ref}

/-- What is decoded from a record mentions only instances that the record mentions. -/
def Faithful (decode : Record → Except Error α) (refs : α → List Ref) : Prop :=
  ∀ record a, decode record = .ok a → ∀ r ∈ refs a, r ∈ record.refs

theorem yields_check {β : Type} {P : Work → Prop} {Q : β → Work → Prop} {x : Except Error β}
    (holds : ∀ b w, x = .ok b → P w → Q b w) : Yields P (check x) Q := by
  cases x with
  | ok b => exact .pure fun w before => holds b w rfl before
  | error e => exact .throw e

theorem yields_fetch (faithful : Faithful decode refs) (p : Plan) :
    Yields Valid (fetch decode p) fun results w => ∀ r ∈ results.flatMap refs, w.Registered r := by
  refine .bind (yields_fetchRecords p) fun records => yields_check fun results w decoded registered r member => ?_
  obtain ⟨a, inResults, mentioned⟩ := List.mem_flatMap.mp member
  obtain ⟨record, inRecords, found⟩ := Except.mem_of_mapM decoded inResults
  exact registered record inRecords r (faithful record a found r mentioned)

/-- What is decoded from the first of some records mentions instances that are registered. -/
theorem yields_first (faithful : Faithful decode refs) (record : Record) (rest : List Record) :
    Yields (fun w => ∀ other ∈ record :: rest, ∀ r ∈ other.refs, w.Registered r) (do
      let result ← check (decode record)
      pure (some result) : SessionM (Option α)) fun result w => ∀ a ∈ result, ∀ r ∈ refs a, w.Registered r := by
  refine .bind (yields_check (Q := fun a w => ∀ r ∈ refs a, w.Registered r)
    fun a w decoded registered r mentioned => ?_)
    fun a => .pure fun w registered b same => Option.some.inj same ▸ registered
  exact registered record List.mem_cons_self r (faithful record a decoded r mentioned)

theorem yields_fetchOne (faithful : Faithful decode refs) (p : Plan) :
    Yields Valid (fetchOne decode p) fun result w => ∀ a ∈ result, ∀ r ∈ refs a, w.Registered r := by
  refine .bind (yields_fetchRecords p) fun records => ?_
  split
  · exact .pure fun w _ a none => nomatch none
  · exact yields_first faithful _ []
  · exact .throw _

theorem yields_fetchFirst (faithful : Faithful decode refs) (p : Plan) :
    Yields Valid (fetchFirst decode p) fun result w => ∀ a ∈ result, ∀ r ∈ refs a, w.Registered r := by
  refine .bind (yields_fetchRecords _) fun records => ?_
  split
  · exact .pure fun w _ a none => nomatch none
  · exact yields_first faithful _ _

theorem yields_fetchPage (faithful : Faithful decode refs) (p : Plan) :
    Yields Valid (fetchPage decode p) fun page w => ∀ r ∈ page.results.flatMap refs, w.Registered r := by
  refine .bind (valid_grows (respects_fetchCount (respects_run steps_grows.toSteps) p)) fun total => ?_
  split
  · exact .pure fun w _ r member => absurd member List.not_mem_nil
  · exact .bind (yields_fetch faithful p) fun results => .pure fun w registered => registered

end Decoded

theorem faithful_toEntity : Faithful Record.toEntity fun r => [r] := by
  intro record a decoded r member
  cases List.mem_singleton.mp member
  match record, decoded with
  | .cell (.entity (some s)), same =>
    cases same
    exact List.mem_singleton.mpr rfl

theorem faithful_toEntity? : Faithful Record.toEntity? Option.toList := by
  intro record a decoded r member
  match record, decoded with
  | .cell (.entity found), same =>
    cases same
    exact member

theorem faithful_toTuple : Faithful Record.toTuple fun t => t.cells.flatMap Cell.refs := by
  intro record a decoded r member
  match record, decoded with
  | .tuple t, same =>
    cases same
    exact member

theorem faithful_decode (type : ResultType) : Faithful type.decode Result.refs := by
  intro record a decoded r member
  have mapped {β : Type} {x : Except Error β} {f : β → Result} (run : f <$> x = .ok a) : ∃ b, x = .ok b ∧ a = f b := by
    cases x with
    | ok b => exact ⟨b, rfl, (Except.ok.inj run).symm⟩
    | error e => cases run
  cases type with
  | record =>
    cases decoded
    exact member
  | value =>
    obtain ⟨v, _, rfl⟩ := mapped decoded
    exact absurd member List.not_mem_nil
  | entity =>
    obtain ⟨s, found, rfl⟩ := mapped decoded
    exact faithful_toEntity record s found r member
  | optionalEntity =>
    obtain ⟨s, found, rfl⟩ := mapped decoded
    exact faithful_toEntity? record s found r member
  | tuple =>
    obtain ⟨t, found, rfl⟩ := mapped decoded
    exact faithful_toTuple record t found r member
  | scalar host =>
    obtain ⟨v, _, rfl⟩ := mapped decoded
    exact absurd member List.not_mem_nil
  | optionalScalar host =>
    obtain ⟨v, _, rfl⟩ := mapped decoded
    exact absurd member List.not_mem_nil

/-- An instance that is found is registered, whether it was there or has been read. -/
theorem yields_find (entity : String) (id : Value) :
    Yields Valid (find entity id) fun found w => ∀ r ∈ found, w.Registered r := by
  have checked {α : Type} (w : Work) (x : Except Error α) :
      Yields (fun t => t = w ∧ w.Valid) (check x) fun _ t => t = w ∧ w.Valid :=
    yields_check fun _ _ _ before => before
  refine .get_bind fun w => .bind (checked w _) fun e => .bind (checked w _) fun v => .bind (checked w _) fun key => ?_
  split
  case h_1 existing found =>
    refine .pure fun t before r member => ?_
    obtain ⟨rfl, valid⟩ := before
    cases Option.some.inj member
    exact .of_get? valid found
  case h_2 =>
    refine .bind (checked w _) fun plan => ?_
    refine (yields_fetchOne faithful_toEntity plan).mono (fun t before => before.1 ▸ before.2) ?_
    exact fun found after registered r member => registered r member r List.mem_cons_self

/-- A key that is registered is found at once: nothing is asked of the store and nothing changes. -/
theorem find_registered {w : Work} {entity : String} {id v : Value} {e : Entity} {key : EntityKey} {r : Ref}
    (described : w.registry.describe entity = .ok e) (coerced : keyOf e entity id = .ok v)
    (keyed : EntityKey.of entity v = .ok key) (found : w.identity.get? key = some r) :
    find entity id w = .ok (some r) w := by
  unfold find
  simp only [bind_run, get_run, described, check, pure, EStateM.pure, coerced, keyed, found]

theorem yields_register (r : Ref) : Yields (fun _ => True) (register r) fun _ w => w.Registered r := by
  intro w _ after _ run
  rw [register_run] at run
  cases registered : w.identity.register w.heap r with
  | error e =>
    rw [registered] at run
    cases run
  | ok result =>
    rw [registered] at run
    cases run
    obtain ⟨keyed, ⟨found, same⟩ | ⟨free, added⟩⟩ := IdentityMap.register_ok registered
    · exact IdentityMap.contains_of_get? (by rw [same]; exact found) keyed
    · refine IdentityMap.contains_of_get? ?_ keyed
      unfold IdentityMap.get? at free
      simp [added, IdentityMap.get?, List.lookup_append, free]

theorem yields_insert (r : Ref) : Yields (fun _ => True) (insert r) fun _ w => w.Registered r := by
  have settled : Yields (fun _ => True) (do
      modifyInstance r Instance.manage
      register r) fun _ w => w.Registered r := .bind (.trivial _) fun _ => yields_register r
  refine .bind (.trivial _) fun i => .bind (.trivial _) fun _ => .bind (.trivial _) fun w => .bind (.trivial _) fun _ =>
    .bind (.trivial _) fun rows => ?_
  dsimp only
  split
  · exact .bind (.trivial _) fun _ => .bind (.trivial _) fun _ => .bind (.trivial _) fun _ => settled
  · exact settled

/-- An instance that is accepted to be saved is registered from then on. -/
theorem yields_persist (r : Ref) : Yields (fun _ => True) (persist r) fun _ w => w.Registered r := by
  intro w _ after _ run
  rw [persist_run] at run
  split at run
  · split at run
    · cases run
      assumption
    · cases run
  · exact yields_insert r w () after True.intro run

end Session

end EntityMapper
