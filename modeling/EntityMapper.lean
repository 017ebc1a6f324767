import EntityMapper.Query.Builder
import EntityMapper.Query.Equality
import EntityMapper.Query.Typed
import EntityMapper.Compile.Change
import EntityMapper.Compile.Query
import EntityMapper.Session.Ending
import EntityMapper.Session.Find
import EntityMapper.Proofs.Compile.Parameters
import EntityMapper.Proofs.Compile.PathColumns
import EntityMapper.Proofs.Compile.Layouts
import EntityMapper.Proofs.Compile.AliasEntities
import EntityMapper.Proofs.Compile.Meaning
import EntityMapper.Proofs.Compile.Counting
import EntityMapper.Proofs.Session.RowReads
import EntityMapper.Proofs.Session.OneInstance
import EntityMapper.Proofs.Session.FailedFlush
import EntityMapper.Proofs.Session.Changes
import EntityMapper.Proofs.Session.LateRefusals
import EntityMapper.Proofs.Compile.BoundValues
import EntityMapper.Proofs.Session.Detachment
import EntityMapper.Proofs.Session.BothSides
import EntityMapper.Proofs.Session.Transactions
import EntityMapper.Proofs.Query.TypedOperands
import EntityMapper.Proofs.Compile.Dialects
import EntityMapper.Proofs.Compile.GeneratedAliases
import EntityMapper.Proofs.Compile.Grouping
import EntityMapper.Proofs.Compile.JoinConditions
import EntityMapper.Proofs.Session.EmptyPages
import EntityMapper.Proofs.Session.FirstResult
import EntityMapper.Proofs.Session.ColumnOrder
import EntityMapper.Proofs.Session.FetchedCollections
import EntityMapper.Proofs.Compile.Aggregates
import EntityMapper.Proofs.Sql.Identifiers
import EntityMapper.Proofs.Sql.SortOrder
import EntityMapper.Proofs.Compile.EmptyLists
import EntityMapper.Proofs.Session.EagerAndLazy
import EntityMapper.Proofs.Schema.Graph
import EntityMapper.Proofs.Session.SharedColumns
import EntityMapper.Proofs.Session.References
import EntityMapper.Proofs.Session.Typing
import EntityMapper.Proofs.Query.NullOperands
import EntityMapper.Proofs.Numbers.Readings
import EntityMapper.Proofs.Numbers.Equality
import EntityMapper.Proofs.Session.KeptNumbers
import EntityMapper.Proofs.Compile.Shapes
import EntityMapper.Proofs.Session.DistinctRecords
import EntityMapper.Proofs.Session.LiveTransactions
import EntityMapper.Proofs.Compile.FreshNames
import EntityMapper.Proofs.Session.Registrations
import EntityMapper.Proofs.Query.Combinations
