import Eds.Consumer.Acknowledge
import Eds.Consumer.Disposition
import Eds.Consumer.Failures
import Eds.Consumer.Staleness
import Eds.Drivers.Accepted
import Eds.Consumer.SqlComposition
import Eds.Import.Client
import Eds.Import.Recovery
import Eds.Import.Attempts
import Eds.Import.Once
import Eds.Import.Complete
import Eds.Consumer.Cutoff
import Eds.Import.Command
import Eds.Import.Unfinished
import Eds.Import.Persisted
import Eds.Consumer.Consumer
import Eds.Consumer.Watched
import Eds.Consumer.Sequence
import Eds.Consumer.Pending
import Eds.Util.Optimize
import Eds.Drivers.Snowflake.Flush
import Eds.Drivers.Snowflake.Coalesce
import Eds.Drivers.Redelivery
import Eds.Drivers.Timeline
import Eds.Drivers.Current
import Eds.Drivers.Refinement
import Eds.Drivers.Sqlserver.Redelivery
import Eds.Importer.Records
import Eds.Importer.Resume
import Eds.Importer.Batches
import Eds.Importer.Grouped
import Eds.Registry.Coherence
import Eds.Registry.Stored
import Eds.Drivers.ColumnTypes
import Eds.Drivers.Migration
import Eds.Consumer.Columns
import Eds.Consumer.Reconcile
import Eds.Import.Budget
import Eds.Import.Filter
import Eds.Import.Wrapping
import Eds.Effects.Machine
import Eds.Server.Wrapper
import Eds.Server.ImportAction
import Eds.Lexing.Transducer
import Eds.Lexing.Sql
import Eds.Lexing.Cut
import Eds.Lexing.Tsql
import Eds.Lexing.Json
import Eds.Lexing.JsonText
import Eds.Drivers.Configuration
import Eds.Util.Loads
import Eds.Util.Numbers
import Eds.Util.Reproduce
import Eds.Util.Gostruct
import Eds.Util.Urls
import Eds.Util.Mask
import Eds.Drivers.Masking
import Eds.Drivers.Lexing
import Eds.Drivers.Mysql.Lexing
import Eds.Drivers.Sqlserver.Lexing
import Eds.Drivers.Sqlserver.Literals
import Eds.Drivers.Siblings
import Eds.Drivers.Deletion
import Eds.Drivers.Clocks
import Eds.Drivers.Postgresql.Lexing
import Eds.Drivers.Postgresql.Updates
import Eds.Drivers.Snowflake.Lexing
import Eds.Drivers.Snowflake.Literals
import Eds.Drivers.Snowflake.Tracker
import Eds.Consumer.Overlap
import Eds.Server.Fork
import Eds.Drivers.Kafka.Flush
import Eds.Effects.Pool
import Eds.Drivers.S3.Flush
import Eds.Registry.Restart
import Eds.Lexing.Percent
import Eds.Util.Gourl
import Eds.Util.Gourl.Escapes
import Eds.Util.Gourl.Hosts
import Eds.Util.Gourl.Printable
import Eds.Util.Gourl.Normal
import Eds.Util.Gourl.Hierarchy
import Eds.Util.Gourl.Queries
import Eds.Util.Gourl.Segments
import Eds.Util.Gourl.Ports
import Eds.Drivers.Eventhub.Connection
import Eds.Drivers.Snowflake.Keypair
import Eds.Lexing.Runs
import Eds.Drivers.S3.Config
import Eds.Drivers.DatabaseUrl
import Eds.Numeric.Calendar
import Eds.Drivers.Mysql.Timestamps
import Eds.Drivers.Postgresql.Connection
import Eds.Util.Encoding
import Eds.Lexing.JsonGrammar
import Eds.Util.Compact
import Eds.Lexing.Utf8Order
import Eds.Tracker
import Eds.Numeric.Civil
import Eds.Drivers.Digits
import Eds.Datetime.Isoformat
import Eds.Import.Cutoffs
import Eds.Util.Crdb
import Eds.Lexing.Toml
import Eds.Server.ConfigFile
import Eds.Util.Settled
import Eds.Util.Equality
import Eds.Dbchange
import Eds.Server.Args
import Eds.Drivers.Eventhub.Batches
import Eds.Import.RunId
import Eds.Util.Shortest
import Eds.Importer.Decoder
import Eds.Collections.Sorted
import Eds.Drivers.Snowflake.Order
import Eds.Importer.Truncated
import Eds.Import.Expiry
import Eds.Util.SchemaRefs
import Eds.Util.SchemaLoad
import Eds.Effects.Interrupted
import Eds.Util.Paths
import Eds.Upgrade.Apply
import Eds.Util.Http
import Eds.Upgrade.Download
import Eds.Effects.Graded
import Eds.Server.Sessions
import Eds.Collections.Resumed
import Eds.Consumer.Steady
import Eds.Consumer.Transactions
import Eds.Consumer.Handover
import Eds.Lexing.Codewords
import Eds.Consumer.Redelivered
import Eds.Server.Responses
import Eds.Server.Notifications
import Eds.Server.Exchanges
import Eds.Collections.Replayed
import Eds.Drivers.Kafka.Ordering
import Eds.Lexing.Subjects
import Eds.Consumer.Credentials
import Eds.Consumer.Setup
import Eds.Consumer.Confined
import Eds.Collections.Snapshot
import Eds.Consumer.Bootstrap
import Eds.Drivers.Sqlserver.Writes
import Eds.Consumer.Merges
