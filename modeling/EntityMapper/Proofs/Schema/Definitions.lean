import EntityMapper.Proofs.Action
import EntityMapper.Schema.Registry
import Mathlib.Data.List.Nodup

namespace EntityMapper

/-- Behind a name that was not seen before, the names are distinct and unseen if they are so with that name. -/
theorem apart_cons {seen rest : List String} {first : String} (fresh : first ∉ seen) :
    (rest.Nodup ∧ ∀ name ∈ rest, name ∉ first :: seen) ↔
      (first :: rest).Nodup ∧ ∀ name ∈ first :: rest, name ∉ seen := by
  rw [List.nodup_cons, List.forall_mem_cons]
  constructor
  · rintro ⟨distinct, apart⟩
    have unseen : first ∉ rest := fun inside => apart first inside List.mem_cons_self
    exact ⟨⟨unseen, distinct⟩, fresh, fun name inside old => apart name inside (List.mem_cons_of_mem _ old)⟩
  · rintro ⟨⟨unseen, distinct⟩, _, apart⟩
    refine ⟨distinct, fun name inside old => ?_⟩
    rcases List.mem_cons.mp old with rfl | old
    · exact unseen inside
    · exact apart name inside old

/-- No name is repeated exactly if the names are distinct and none of them was seen before. -/
theorem firstRepeated?_eq_none {seen names : List String} :
    firstRepeated? seen names = none ↔ names.Nodup ∧ ∀ name ∈ names, name ∉ seen := by
  induction names generalizing seen with
  | nil => simp [firstRepeated?]
  | cons first rest ih =>
    by_cases known : first ∈ seen
    · have repeated : firstRepeated? seen (first :: rest) = some first := by simp [firstRepeated?, known]
      rw [repeated]
      exact ⟨nofun, fun distinct => absurd known (distinct.2 first List.mem_cons_self)⟩
    · have later : firstRepeated? seen (first :: rest) = firstRepeated? (first :: seen) rest := by
        simp [firstRepeated?, known]
      rw [later, ih, apart_cons known]

theorem split_of_firstRepeated? {seen names : List String} {name : String}
    (found : firstRepeated? seen names = some name) :
    ∃ before after, names = before ++ name :: after ∧ (name ∈ seen ∨ name ∈ before) := by
  induction names generalizing seen with
  | nil => cases found
  | cons first rest ih =>
    by_cases known : first ∈ seen
    · have here : first = name := by simpa [firstRepeated?, known] using found
      exact ⟨[], rest, by rw [here, List.nil_append], .inl (here ▸ known)⟩
    · have later : firstRepeated? (first :: seen) rest = some name := by simpa [firstRepeated?, known] using found
      obtain ⟨before, after, split, again⟩ := ih later
      refine ⟨first :: before, after, by rw [split, List.cons_append], ?_⟩
      rcases again with old | old
      · rcases List.mem_cons.mp old with rfl | old
        · exact .inr List.mem_cons_self
        · exact .inl old
      · exact .inr (List.mem_cons_of_mem _ old)

/-- What has a name of its own is found by it. -/
theorem find?_of_nodup {α : Type} {name : α → String} {xs : List α} (distinct : (xs.map name).Nodup) {x : α}
    (listed : x ∈ xs) : xs.find? (name · == name x) = some x := by
  cases found : xs.find? (name · == name x) with
  | none => exact absurd (List.find?_eq_none.mp found x listed) (by simp)
  | some y =>
    have same : name y = name x := by simpa using List.find?_some found
    exact congrArg some (List.inj_on_of_nodup_map distinct (List.mem_of_find?_eq_some found) listed same)

theorem map_eq_of_forall₂ {α β γ : Type} {R : α → β → Prop} {f : α → γ} {g : β → γ} {xs : List α} {ys : List β}
    (related : List.Forall₂ R xs ys) (same : ∀ x y, R x y → g y = f x) : ys.map g = xs.map f := by
  induction related with
  | nil => rfl
  | cons first _ ih => rw [List.map_cons, List.map_cons, same _ _ first, ih]

/-- The field that a primary key is kept in. -/
def Member.keyField? : Member → Option Field
  | id name type => some ⟨name, name, type⟩
  | _ => none

theorem Member.field?_of_keyField? {m : Member} {f : Field} (keyed : m.keyField? = some f) : m.field? = some f := by
  cases m with
  | id name type => exact keyed
  | _ => cases keyed

theorem Member.keyName?_eq (m : Member) : m.keyName? = m.keyField?.map (·.name) := by cases m <;> rfl

def Link.target : Link → String
  | owning _ target _ | inverse _ target .. => target

namespace Definition

variable {d : Definition}

/-- The field of the primary key that is declared last. -/
def lastKey? (d : Definition) : Option Field := (d.members.filterMap Member.keyField?).getLast?

theorem keyName?_eq (d : Definition) : d.keyName? = d.lastKey?.map (·.name) := by
  have names : d.members.filterMap Member.keyName? = (d.members.filterMap Member.keyField?).map (·.name) := by
    rw [List.map_filterMap]
    exact List.filterMap_congr fun m _ => m.keyName?_eq
  rw [keyName?, names, List.getLast?_map, lastKey?]

theorem mem_fields_of_lastKey? {f : Field} (declared : d.lastKey? = some f) : f ∈ d.fields := by
  obtain ⟨m, member, keyed⟩ := List.mem_filterMap.mp (List.mem_of_getLast? declared)
  exact List.mem_filterMap.mpr ⟨m, member, Member.field?_of_keyField? keyed⟩

theorem keyField_eq_ok {f : Field} : d.keyField = .ok f ↔ ∃ key, d.key = .ok key ∧ d.fields.get key = f := by
  unfold keyField
  cases d.key with
  | error => simp [Except.map]
  | ok key => simp [Except.map]

/-- A definition that declares a primary key has a field of its name. -/
theorem key_of_lastKey? {f : Field} (declared : d.lastKey? = some f) :
    ∃ key, d.key = .ok key ∧ (d.fields.get key).name = f.name := by
  have name : d.keyName?.getD "" = f.name := by rw [keyName?_eq, declared, Option.map_some, Option.getD_some]
  cases found : d.fields.findFinIdx? (·.name == f.name) with
  | none =>
    have absent := List.findFinIdx?_eq_none_iff.mp found f (mem_fields_of_lastKey? declared)
    exact absurd (beq_self_eq_true _) absent
  | some key =>
    refine ⟨key, by rw [Definition.key, name, found]; rfl, ?_⟩
    simpa using (List.findFinIdx?_eq_some_iff.mp found).1

theorem exists_lastKey (declared : d.keyName? ≠ none) : ∃ f, d.lastKey? = some f := by
  rw [keyName?_eq, ne_eq, Option.map_eq_none_iff] at declared
  exact Option.ne_none_iff_exists'.mp declared

theorem exists_key (declared : d.keyName? ≠ none) : ∃ key, d.key = .ok key := by
  obtain ⟨f, last⟩ := exists_lastKey declared
  obtain ⟨key, found, _⟩ := key_of_lastKey? last
  exact ⟨key, found⟩

/-- Where the members have names of their own, the primary key is the field of the key declared last. -/
theorem lastKey?_of_key (distinct : d.memberNames.Nodup) (declared : d.keyName? ≠ none) {key : Fin d.fields.length}
    (found : d.key = .ok key) : d.lastKey? = some (d.fields.get key) := by
  obtain ⟨f, last⟩ := exists_lastKey declared
  obtain ⟨other, same, name⟩ := key_of_lastKey? last
  cases same.symm.trans found
  have fields : (d.fields.map (·.name)).Nodup := (List.nodup_append.mp distinct).1
  have equal := List.inj_on_of_nodup_map fields (List.getElem_mem key.isLt) (mem_fields_of_lastKey? last) name
  rw [last]
  exact congrArg some equal.symm

theorem joinColumn?_eq_none {name target : String} :
    d.joinColumn? name target = none ↔ ∀ column, .owning name target column ∉ d.links := by
  rw [joinColumn?, List.findSome?_eq_none_iff]
  constructor
  · intro none column listed
    simpa using none _ listed
  · intro missing link listed
    cases link with
    | inverse => rfl
    | owning otherName otherTarget column =>
      have apart : ¬(otherName = name ∧ otherTarget = target) := by
        rintro ⟨rfl, rfl⟩
        exact missing column listed
      exact if_neg apart

theorem mem_links_of_joinColumn? {name target column : String} (found : d.joinColumn? name target = some column) :
    .owning name target column ∈ d.links := by
  obtain ⟨link, member, own⟩ := List.exists_of_findSome?_eq_some found
  cases link with
  | owning otherName otherTarget other =>
    dsimp only at own
    split at own
    case isTrue same =>
      cases own
      rwa [same.1, same.2] at member
    case isFalse => cases own
  | inverse => cases own

end Definition

/-- Definitions pass the check exactly if each declares a primary key and no member twice, and if their names are
distinct. -/
theorem checkDefinitions_eq_ok {names : List String} {definitions : List Definition} :
    checkDefinitions names definitions = .ok () ↔ (∀ d ∈ definitions, d.keyName? ≠ none ∧ d.memberNames.Nodup) ∧
      (definitions.map (·.name)).Nodup ∧ ∀ name ∈ definitions.map (·.name), name ∉ names := by
  induction definitions generalizing names with
  | nil => simp [checkDefinitions]
  | cons d rest ih =>
    unfold checkDefinitions
    split
    case h_1 keyless =>
      have failed : ¬(d.keyName? ≠ none ∧ d.memberNames.Nodup) := fun passed => passed.1 keyless
      simp [failed]
    case h_2 name keyed =>
      split
      case h_1 member repeated =>
        have failed : ¬d.memberNames.Nodup := fun distinct => by
          have none := firstRepeated?_eq_none.mpr ⟨distinct, fun _ _ => List.not_mem_nil⟩
          cases none.symm.trans repeated
        simp [failed]
      case h_2 unrepeated =>
        have distinct : d.memberNames.Nodup := (firstRepeated?_eq_none.mp unrepeated).1
        split
        case isTrue taken => simp [taken]
        case isFalse free =>
          have declared : d.keyName? ≠ none := by rw [keyed]; exact nofun
          rw [ih, List.map_cons, apart_cons free]
          refine and_congr_left fun _ => ?_
          rw [List.forall_mem_cons]
          exact ⟨fun passed => ⟨⟨declared, distinct⟩, passed⟩, And.right⟩

/-- A failing check has met a definition that declares no primary key, a member again or a name again. -/
theorem checkDefinitions_error {names : List String} {definitions : List Definition} {e : Error}
    (failed : checkDefinitions names definitions = .error e) :
    ∃ before d after, definitions = before ++ d :: after ∧
      (d.keyName? = none ∧ e = .invalidArgument (.noPrimaryKey d.name) ∨
        (∃ name, firstRepeated? [] d.memberNames = some name ∧ e = .invalidArgument (.repeatedMember d.name name)) ∨
        (d.name ∈ names ∨ d.name ∈ before.map (·.name)) ∧ e = .invalidArgument (.repeatedEntity d.name)) := by
  induction definitions generalizing names with
  | nil => cases failed
  | cons d rest ih =>
    unfold checkDefinitions at failed
    split at failed
    case h_1 keyless =>
      cases failed
      exact ⟨[], d, rest, rfl, .inl ⟨keyless, rfl⟩⟩
    case h_2 =>
      split at failed
      case h_1 name repeated =>
        cases failed
        exact ⟨[], d, rest, rfl, .inr (.inl ⟨name, repeated, rfl⟩)⟩
      case h_2 =>
        split at failed
        case isTrue taken =>
          cases failed
          exact ⟨[], d, rest, rfl, .inr (.inr ⟨.inl taken, rfl⟩)⟩
        case isFalse =>
          obtain ⟨before, other, after, split, reason⟩ := ih failed
          refine ⟨d :: before, other, after, by rw [split, List.cons_append], ?_⟩
          rcases reason with keyless | repeated | ⟨again, error⟩
          · exact .inl keyless
          · exact .inr (.inl repeated)
          · refine .inr (.inr ⟨?_, error⟩)
            rw [List.map_cons, List.mem_cons]
            rw [List.mem_cons] at again
            tauto

section Resolution

variable {all : List Definition} {owner : Definition} {ownKey : Field} {name target joinColumn mappedBy : String}
  {cardinality : Cardinality} {a : Association}

/-- An owning association is resolved to one on the primary key of the definition that it leads to. -/
theorem Link.resolve_owning_ok (run : (Link.owning name target joinColumn).resolve all owner ownKey = .ok a) :
    ∃ found key, all.find? (·.name == target) = some found ∧ found.keyField = .ok key ∧
      a = ⟨name, owner.name, target, found.table, .one, joinColumn, key.column, none, key.type⟩ := by
  simp only [resolve] at run
  split at run
  case h_1 => cases run
  case h_2 found atTarget =>
    obtain ⟨key, keyed, run⟩ := Except.bind_eq_ok.mp run
    cases run
    exact ⟨found, key, atTarget, keyed, rfl⟩

/-- An inverse association is resolved to one on the foreign key of the link that it is mapped by. -/
theorem Link.resolve_inverse_ok
    (run : (Link.inverse name target mappedBy cardinality).resolve all owner ownKey = .ok a) :
    ∃ found column, all.find? (·.name == target) = some found ∧
      found.joinColumn? mappedBy owner.name = some column ∧
      a = ⟨name, owner.name, target, found.table, cardinality, ownKey.column, column, some mappedBy, ownKey.type⟩ := by
  simp only [resolve] at run
  split at run
  case h_1 => cases run
  case h_2 found atTarget =>
    split at run
    case h_1 => cases run
    case h_2 column joined =>
      cases run
      exact ⟨found, column, atTarget, joined, rfl⟩

/-- Where every definition has its key, a link fails for the definition that it leads to or for the one that maps it. -/
theorem Link.resolve_error {link : Link} {e : Error} (keyed : ∀ d ∈ all, ∃ key, d.key = .ok key)
    (failed : link.resolve all owner ownKey = .error e) :
    all.find? (·.name == link.target) = none ∧ e = .unknownEntity link.target ∨
      ∃ name target mappedBy cardinality found, link = .inverse name target mappedBy cardinality ∧
        all.find? (·.name == target) = some found ∧ found.joinColumn? mappedBy owner.name = none ∧
        e = .unknownAssociation target mappedBy := by
  cases link with
  | owning name target joinColumn =>
    simp only [resolve] at failed
    split at failed
    case h_1 missing =>
      cases failed
      exact .inl ⟨missing, rfl⟩
    case h_2 found atTarget =>
      obtain ⟨key, own⟩ := keyed found (List.mem_of_find?_eq_some atTarget)
      rw [Definition.keyField_eq_ok.mpr ⟨key, own, rfl⟩, Except.ok_bind] at failed
      cases failed
  | inverse name target mappedBy cardinality =>
    simp only [resolve] at failed
    split at failed
    case h_1 missing =>
      cases failed
      exact .inl ⟨missing, rfl⟩
    case h_2 found atTarget =>
      split at failed
      case h_1 unmapped =>
        cases failed
        exact .inr ⟨name, target, mappedBy, cardinality, found, rfl, atTarget, unmapped, rfl⟩
      case h_2 => cases failed

theorem Link.target_of_resolve {link : Link} (run : link.resolve all owner ownKey = .ok a) :
    ∃ found, all.find? (·.name == link.target) = some found := by
  cases link with
  | owning =>
    obtain ⟨found, _, atTarget, _⟩ := resolve_owning_ok run
    exact ⟨found, atTarget⟩
  | inverse =>
    obtain ⟨found, _, atTarget, _⟩ := resolve_inverse_ok run
    exact ⟨found, atTarget⟩

theorem Link.name_of_resolve {link : Link} (run : link.resolve all owner ownKey = .ok a) : a.name = link.name := by
  cases link with
  | owning =>
    obtain ⟨_, _, _, _, rfl⟩ := resolve_owning_ok run
    rfl
  | inverse =>
    obtain ⟨_, _, _, _, rfl⟩ := resolve_inverse_ok run
    rfl

end Resolution

namespace Definition

variable {all : List Definition} {d : Definition} {e : Entity}

/-- A resolved definition keeps its fields and its key. Its associations are resolved one by one. -/
theorem resolve_ok (run : d.resolve all = .ok e) :
    ∃ key associations, d.key = .ok key ∧ e = ⟨d.name, d.table, d.fields, key, associations⟩ ∧
      List.Forall₂ (fun link a => link.resolve all d (d.fields.get key) = .ok a) d.links associations := by
  obtain ⟨key, keyed, run⟩ := Except.bind_eq_ok.mp run
  obtain ⟨associations, resolved, run⟩ := Except.bind_eq_ok.mp run
  cases run
  exact ⟨key, associations, keyed, rfl, Except.mapM_eq_ok.mp resolved⟩

/-- Where every definition has its key, one fails to be resolved for one of its links. -/
theorem resolve_error {failure : Error} (keyed : ∀ d ∈ all, ∃ key, d.key = .ok key) (listed : d ∈ all)
    (failed : d.resolve all = .error failure) :
    ∃ link ∈ d.links, ∃ ownKey, link.resolve all d ownKey = .error failure := by
  obtain ⟨key, found⟩ := keyed d listed
  rw [resolve, found, Except.ok_bind] at failed
  rcases Except.bind_eq_error failed with unlinked | ⟨_, _, finished⟩
  · obtain ⟨link, declared, broken⟩ := Except.mapM_error unlinked
    exact ⟨link, declared, _, broken⟩
  · cases finished

theorem name_of_resolve (run : d.resolve all = .ok e) : e.name = d.name := by
  obtain ⟨_, _, _, rfl, _⟩ := resolve_ok run
  rfl

theorem table_of_resolve (run : d.resolve all = .ok e) : e.table = d.table := by
  obtain ⟨_, _, _, rfl, _⟩ := resolve_ok run
  rfl

theorem keyField_of_resolve (run : d.resolve all = .ok e) : d.keyField = .ok e.primaryKey := by
  obtain ⟨key, associations, keyed, rfl, _⟩ := resolve_ok run
  exact keyField_eq_ok.mpr ⟨key, keyed, rfl⟩

theorem link_of_resolve (run : d.resolve all = .ok e) {a : Association} (listed : a ∈ e.associations) :
    ∃ link ∈ d.links, link.resolve all d e.primaryKey = .ok a := by
  obtain ⟨key, associations, _, rfl, links⟩ := resolve_ok run
  exact Except.mem_of_mapM (Except.mapM_eq_ok.mpr links) listed

theorem association_of_resolve (run : d.resolve all = .ok e) {link : Link} (declared : link ∈ d.links) :
    ∃ a ∈ e.associations, link.resolve all d e.primaryKey = .ok a := by
  obtain ⟨key, associations, _, rfl, links⟩ := resolve_ok run
  exact Except.ok_of_mapM (Except.mapM_eq_ok.mpr links) declared

end Definition

end EntityMapper
