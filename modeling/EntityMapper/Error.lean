import EntityMapper.Value

namespace EntityMapper

/-- The stages of a unit of work. -/
inductive TransactionState where
  | notStarted
  | active
  | committed
  | rolledBack
  deriving DecidableEq, Repr, Inhabited

def TransactionState.name : TransactionState → String
  | notStarted => "NotStarted"
  | active => "Active"
  | committed => "Committed"
  | rolledBack => "RolledBack"

/-- Why an argument is refused. -/
inductive ArgumentFault where
  | emptyAlias
  | noPrimaryKey (entity : String)
  | repeatedMember (entity member : String)
  | repeatedEntity (entity : String)
  | nullOperand (operation : String)
  | noForeignKey (entity association : String)
  | negative (bound : String) (given : Int64)
  | emptyUpdate (entity : String)
  | fixedKey (entity : String)
  | inverseSide (entity association : String)
  | wrongTarget (entity association expected given : String)
  | isCollection (entity association : String)
  | notCollection (entity association : String)
  | notLoaded (entity association : String)
  | unsavedTarget (entity association target : String)
  | unusableKey (key : Value)
  | occupiedKey (entity : String) (key : Value)
  | foreignInstance (entity : String) (key : Value)
  | takenKey (entity : String) (key : Value)
  | tuplePosition (position count : Nat)
  | tupleItem (position : Nat)
  | unprojectedExpr
  | unprojectedEntity (name : String)
  | stated (text : String)
  deriving DecidableEq, Repr

def ArgumentFault.message : ArgumentFault → String
  | emptyAlias => "entity alias must not be empty"
  | noPrimaryKey entity => s!"entity {entity} declares no primary key"
  | repeatedMember entity member => s!"{entity} declares {member} twice"
  | repeatedEntity entity => s!"entity {entity} is registered twice"
  | nullOperand operation => s!"{operation} with a NULL operand never matches; use is_null()"
  | noForeignKey entity association => s!"{entity}.{association} is not the owning side and has no foreign key"
  | negative bound given => s!"{bound} must not be negative, got {given.toInt}"
  | emptyUpdate entity => s!"update of {entity} assigns no column"
  | fixedKey entity => s!"the primary key of a managed {entity} cannot change"
  | inverseSide entity association => s!"{entity}.{association} is not the owning side of its association"
  | wrongTarget entity association expected given => s!"{entity}.{association} expects {expected}, got {given}"
  | isCollection entity association => s!"{entity}.{association} is a collection"
  | notCollection entity association => s!"{entity}.{association} is not a collection"
  | notLoaded entity association => s!"{entity}.{association} is not loaded, resolve it through the session"
  | unsavedTarget entity association target => s!"{entity}.{association} points at a {target} that has not been persisted"
  | unusableKey key => s!"{key.shown} cannot identify an instance"
  | occupiedKey entity key => s!"another {entity} instance with id {key.shown} is already in the unit of work"
  | foreignInstance entity key => s!"{entity} {key.shown} belongs to another unit of work"
  | takenKey entity key => s!"{entity} {key.shown} is already in the unit of work"
  | tuplePosition position count => s!"tuple position {position} out of {count} items"
  | tupleItem position => s!"tuple has no item {position}"
  | unprojectedExpr => "<expr> is not projected"
  | unprojectedEntity name => s!"entity {name} is not projected"
  | stated text => text

/-- Why a plan is refused. Paths are given as they are shown. -/
inductive PlanFault where
  | noJoin (operation : String)
  | notScalar
  | noSource
  | noProjection
  | repeatedAlias (name : String)
  | longJoin (target : String)
  | undeclaredOwner (target owner : String)
  | wrongJoinTarget (owner association leadsTo given : String)
  | bareLeftJoin (target : String)
  | outerNavigation (path : String)
  | unknownAlias (name path : String)
  | hopInJoinCondition (path hop : String)
  | hopToMany (path hop : String)
  | wrongEntity (name standsFor given : String)
  | uncoveredPath (path : String)
  | unsourcedProjection (name : String)
  | ungroupedPath (path : String)
  | ungroupedEntity (name : String)
  | groupedFetch
  | nestedFetch
  | unrelatedFetch (target : String)
  | conditionalFetch (target : String)
  | strayFetch (target owner : String)
  | misplacedAggregate (function clause : String)
  | nestedAggregate
  | stated (text : String)
  deriving DecidableEq, Repr

def PlanFault.message : PlanFault → String
  | noJoin operation => s!"{operation} requires a preceding join"
  | notScalar => "a subquery must project exactly one scalar expression"
  | noSource => "a query needs at least one source"
  | noProjection => "a query needs at least one projection"
  | repeatedAlias name => s!"alias {name} is declared more than once"
  | longJoin target => s!"join to {target} must follow a single association"
  | undeclaredOwner target owner => s!"join to {target} navigates from {owner}, which is not declared before it"
  | wrongJoinTarget owner association leadsTo given =>
    s!"association {owner}.{association} leads to {leadsTo}, not {given}"
  | bareLeftJoin target => s!"left theta join to {target} needs an on condition"
  | outerNavigation path => s!"{path} navigates from the enclosing query's alias; join it explicitly"
  | unknownAlias name path => s!"unknown alias {name} in {path}"
  | hopInJoinCondition path hop => s!"{path} in a join condition needs an explicit join for {hop}"
  | hopToMany path hop => s!"{path} traverses the to-many association {hop}; use an explicit join"
  | wrongEntity name standsFor given => s!"alias {name} stands for {standsFor}, not {given}"
  | uncoveredPath path => s!"no join covers {path}"
  | unsourcedProjection name => s!"projected alias {name} is not a source of the query"
  | ungroupedPath path => s!"{path} must appear in group_by or be aggregated"
  | ungroupedEntity name => s!"entity {name} is projected in a grouped query without grouping by its id"
  | groupedFetch => "fetch joins cannot be combined with grouping"
  | nestedFetch => "fetch joins are not allowed in subqueries"
  | unrelatedFetch target => s!"fetch join to {target} has no association"
  | conditionalFetch target => s!"fetch join to {target} cannot carry an on condition"
  | strayFetch target owner =>
    s!"fetch join to {target} hangs off {owner}, which is neither a projected entity nor a fetched one"
  | misplacedAggregate function clause => s!"aggregate {function} is not allowed in {clause}"
  | nestedAggregate => "aggregate functions cannot be nested"
  | stated text => text

/-- The part of the store that failed. -/
inductive StorePart where
  | connection
  | query
  | transaction
  deriving DecidableEq, Repr

def StorePart.name : StorePart → String
  | connection => "connection"
  | query => "query"
  | transaction => "transaction"

def StorePart.label : StorePart → String
  | connection => "Connection error"
  | query => "Query error"
  | transaction => "Transaction error"

/-- Why running a statement failed. -/
inductive ExecutionFault where
  | store (part : StorePart) (text : String)
  | shortRow (columns width : Nat)
  | noGeneratedKey (table : String)
  | stated (text : String)
  deriving DecidableEq, Repr

def ExecutionFault.message : ExecutionFault → String
  | store part text => s!"{part.label}: {text}"
  | shortRow columns width => s!"row has {columns} columns, the query selects {width}"
  | noGeneratedKey table => s!"insert into {table} returned no generated key"
  | stated text => text

/-- Why a unit of work refuses a step. -/
inductive TransactionFault where
  | alreadyBegun (state : TransactionState)
  | notActive (action : String) (state : TransactionState)
  | stated (text : String)
  deriving DecidableEq, Repr

def TransactionFault.message : TransactionFault → String
  | alreadyBegun state => s!"cannot begin a unit of work in state {state.name}"
  | notActive action state => s!"cannot {action} outside an active transaction (state {state.name})"
  | stated text => text

/-- Why settings are refused. -/
inductive SettingsFault where
  | noBackend (url : String)
  | notNumber (given : String)
  | notFlag (key given : String)
  | malformed
  | stated (text : String)
  deriving DecidableEq, Repr

def SettingsFault.message : SettingsFault → String
  | noBackend url => s!"no backend available for {url}"
  | notNumber given => s!"max_connections must be a number, got {given}"
  | notFlag key given => s!"{key} must be a boolean, got {given}"
  | malformed => "malformed document"
  | stated text => text

/-- Everything that can go wrong between describing entities and running statements. -/
inductive Error where
  | unknownEntity (name : String)
  | unknownField (entity field : String)
  | unknownAssociation (entity association : String)
  | typeMismatch (context : String) (left right : DataType)
  | invalidArgument (fault : ArgumentFault)
  | invalidPlan (fault : PlanFault)
  | nonUniqueResult (found : Nat)
  | execution (fault : ExecutionFault)
  | decode (expected shown : String)
  | transaction (fault : TransactionFault)
  | configuration (fault : SettingsFault)
  deriving DecidableEq, Repr

namespace Error

/-- The kind of an error, which leaves out what the error is about. -/
def kind : Error → String
  | unknownEntity _ => "UnknownEntity"
  | unknownField .. => "UnknownField"
  | unknownAssociation .. => "UnknownAssociation"
  | typeMismatch .. => "TypeMismatch"
  | invalidArgument _ => "InvalidArgument"
  | invalidPlan _ => "InvalidPlan"
  | nonUniqueResult _ => "NonUniqueResult"
  | execution _ => "Execution"
  | decode .. => "Decode"
  | transaction _ => "Transaction"
  | configuration _ => "Configuration"

def message : Error → String
  | unknownEntity name => s!"Unknown entity: {name}"
  | unknownField entity field => s!"Unknown field: {entity}.{field}"
  | unknownAssociation entity association => s!"Unknown association: {entity}.{association}"
  | typeMismatch context left right => s!"Type mismatch in {context}: {left.name} is not compatible with {right.name}"
  | invalidArgument fault => s!"Invalid argument: {fault.message}"
  | invalidPlan fault => s!"Invalid plan: {fault.message}"
  | nonUniqueResult found => s!"Expected at most one result, found {found}"
  | execution fault => s!"Execution failed: {fault.message}"
  | decode expected shown => s!"Cannot decode {shown} as {expected}"
  | transaction fault => s!"Transaction error: {fault.message}"
  | configuration fault => s!"Configuration error: {fault.message}"

/-- The error is found by looking at a description, a plan or an argument alone. -/
def isBuildError : Error → Bool
  | unknownEntity _ | unknownField .. | unknownAssociation .. | typeMismatch .. | invalidArgument _ | invalidPlan _ => true
  | nonUniqueResult _ | execution _ | decode .. | transaction _ | configuration _ => false

/-- The failure of the store behind an execution error. -/
def source : Error → Option String
  | execution fault => some fault.message
  | _ => none

end Error

end EntityMapper
