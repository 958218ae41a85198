import RaphDb.Basic
import RaphDb.Connection.Cursor
import RaphDb.Connection.Frame
import RaphDb.Connection.Framing
import RaphDb.Connection.RoundTrip
import RaphDb.Connection.Stability
import RaphDb.Connection.Agreement
import RaphDb.Connection.Accepted
import RaphDb.Connection.Command
import RaphDb.Connection.Exchange
import RaphDb.Store.MiniRedis
import RaphDb.Store.MiniRedisIndex
import RaphDb.Store.MiniRedisTtl
import RaphDb.Store.PurgeTask
import RaphDb.Store.SimpleStore
import RaphDb.Store.Writers
