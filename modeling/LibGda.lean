import LibGda.AccessWrapperRuns
import LibGda.ArrayXmlValues
import LibGda.AsyncTasks
import LibGda.AttributesRuns
import LibGda.BestIndex
import LibGda.CachedRestore
import LibGda.ChunkTracking
import LibGda.ColumnAssignment
import LibGda.CommitAssertions
import LibGda.CompoundOperation
import LibGda.CursorSimulation
import LibGda.DataComparator
import LibGda.DefaultValues
import LibGda.DmlContract
import LibGda.DollarQuotes
import LibGda.DsnReload
import LibGda.EscapePairs
import LibGda.EscapedLiterals
import LibGda.EventsHistory
import LibGda.ExecutedStatements
import LibGda.FinishedChanges
import LibGda.FormattedTimes
import LibGda.HandlerNumerical
import LibGda.HandlerTime
import LibGda.HolderBindingRuns
import LibGda.LockBalance
import LibGda.MetaContexts
import LibGda.MetaMigrationOutcome
import LibGda.MetaStruct
import LibGda.MetaUpdates
import LibGda.ModelIterWrites
import LibGda.NullParameterContract
import LibGda.ParamRoundTrip
import LibGda.PivotAggregates
import LibGda.QuarkList
import LibGda.RepetitiveStatement
import LibGda.RowImportResults
import LibGda.RowModifications
import LibGda.SelectColumns
import LibGda.SelectJoins
import LibGda.ServerOperationItems
import LibGda.ServerOperationRuns
import LibGda.SqlBatch
import LibGda.SqlExpr
import LibGda.SqliteHandlerBin
import LibGda.StatementCaches
import LibGda.SyncOutcome
import LibGda.ThreadJobRuns
import LibGda.TimezoneChange
import LibGda.TreeFilling
import LibGda.TreeUpdates
import LibGda.ValueOrder
import LibGda.VirtualSimulation
import LibGda.VirtualTableNames
import LibGda.VirtualWrites
import LibGda.XaIdText
import LibGda.XaIdentity
