import R2sql.Lib.Bytes
import R2sql.Lib.Hex
import R2sql.Lib.Numerals
import R2sql.Lib.Base64
import R2sql.Lib.Dialogue
import R2sql.Lib.Raising
import R2sql.Lib.Like
import R2sql.Lib.Walks
import R2sql.Lib.Runs
import R2sql.Lib.Locking
import R2sql.Lib.Templates
import R2sql.Lib.Emplace
import R2sql.Lib.Quoted
import R2sql.Lib.Keyed
import R2sql.Lib.Layout
import R2sql.Lib.Argv
import R2sql.Lib.ArgvWords
import R2sql.Lib.ArgvQuotes
import R2sql.Lib.Options
import R2sql.Lib.Delimited
import R2sql.Lib.Fronts
import R2sql.Lib.Checkpoints
import R2sql.Json
import R2sql.JsonErrors
import R2sql.JsonUtils
import R2sql.Backend
import R2sql.CheckedJson
import R2sql.Iterators
import R2sql.FunctionTables
import R2sql.FunctionPushdown
import R2sql.StreamedRows
import R2sql.Xrefs
import R2sql.XrefsPushdown
import R2sql.Grep
import R2sql.GrepPattern
import R2sql.LikeTurns
import R2sql.R2Pipe
import R2sql.R2PipeReplies
import R2sql.ReadLoops
import R2sql.PipeFailures
import R2sql.R2Launch
import R2sql.ProjectLists
import R2sql.McpServer
import R2sql.McpQueue
import R2sql.McpReturns
import R2sql.McpTimeouts
import R2sql.McpOrder
import R2sql.McpResults
import R2sql.Transports
import R2sql.Rowids
import R2sql.SqlFunctions
import R2sql.WritableTables
import R2sql.WriteCommands
import R2sql.RejectedNames
import R2sql.CommandLines
import R2sql.R2Flags
import R2sql.FlagRows
import R2sql.BookmarkRuns
import R2sql.CommentsMap
import R2sql.TypeTables
import R2sql.CheckedTables
import R2sql.FieldTexts
import R2sql.Ports
import R2sql.CliArgs
import R2sql.TableExceptions
import R2sql.TypeLayout
import R2sql.TypeSizes
import R2sql.BackendNames
import R2sql.TkDumps
import R2sql.TypeDefine
import R2sql.TableCommands
import R2sql.Snapshots
import R2sql.PluginLocks
import R2sql.PluginReentry
import R2sql.PluginDeadlocks
import R2sql.AddressKeys
import R2sql.CommonViews
import R2sql.McpThreads
import R2sql.McpMutexes
import R2sql.McpProgress
import R2sql.McpSessions
import R2sql.McpTool
import R2sql.PluginServers
import R2sql.PluginReplies
import R2sql.PluginRequests
import R2sql.PluginServices
import R2sql.ResultTexts
import R2sql.Cli
import R2sql.Projects
import R2sql.PluginLines
import R2sql.PipedRuns
import R2sql.Projections
