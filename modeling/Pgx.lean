import Pgx.Go.Utf8
import Pgx.Go.Strconv
import Pgx.Go.Time
import Pgx.Go.Slices
import Pgx.Sanitize.Lexer
import Pgx.Sanitize.Run
import Pgx.Sanitize.Transfer
import Pgx.Sanitize.Segment
import Pgx.Sanitize.Sanitize
import Pgx.Sanitize.Cross
import Pgx.Sanitize.Injection
import Pgx.Sanitize.Placeholders
import Pgx.Sanitize.Quote
import Pgx.NamedArgs.Rewrite
import Pgx.Proto.Messages
import Pgx.Proto.Receive
import Pgx.Proto.Flyweight
import Pgx.StmtCache.LRU
import Pgx.Pgtype.Hstore
import Pgx.Pgtype.HstoreText
import Pgx.Pgtype.Range
import Pgx.Pgtype.Interval
import Pgx.Pgtype.Composite
import Pgx.Pgtype.Numeric
import Pgx.Pgconn.Config
import Pgx.Pgconn.BGReader
import Pgx.Pgconn.CtxWatch
import Pgx.Tx.Nested
import Pgx.Iobufpool.Pool
import Pgx.Rows.NamedStruct
import Pgx.Pgconn.Scram
import Pgx.Go.Calendar
import Pgx.Go.TimeParse
import Pgx.Pgtype.Timestamp
import Pgx.Pgtype.Date
import Pgx.Pgconn.PipelineState
import Pgx.Pgconn.PipelineProtocol
import Pgx.Pgconn.Pipeline
import Pgx.Lib.Nested
import Pgx.Pgtype.Array
import Pgx.Pgtype.ArrayText
