import PostgresChat.Lib.Execution
import PostgresChat.Lib.PastTrace
import PostgresChat.Lib.EsMap
import PostgresChat.Lib.Groups
import PostgresChat.Lib.Lists
import PostgresChat.Lib.Announced
import PostgresChat.Lib.Owed
import PostgresChat.Js.Text
import PostgresChat.Js.Number
import PostgresChat.Js.Integers
import PostgresChat.Js.Doubles
import PostgresChat.Js.Shortest
import PostgresChat.Js.Json
import PostgresChat.Js.Numerals
import PostgresChat.Js.Encode
import PostgresChat.Js.Utf8
import PostgresChat.Js.QueryString
import PostgresChat.Js.Stringify
import PostgresChat.Js.Printing
import PostgresChat.Js.WellFormed
import PostgresChat.Common
import PostgresChat.Database.Uuid
import PostgresChat.Database.Tables
import PostgresChat.Database.Messages
import PostgresChat.Database.Assignment
import PostgresChat.Database.Steps
import PostgresChat.Database.Ledger
import PostgresChat.Postgres.Listen
import PostgresChat.Postgres.Agreement
import PostgresChat.Postgres.Undisturbed
import PostgresChat.Postgres.OnlyListens
import PostgresChat.Postgres.Reconnect
import PostgresChat.Postgres.Shutdown
import PostgresChat.Postgres.Feed
import PostgresChat.Postgres.Tuned
import PostgresChat.Postgres.Rollback
import PostgresChat.Postgres.Outstanding
import PostgresChat.Postgres.Vouched
import PostgresChat.Postgres.Pool
import PostgresChat.Postgres.Transaction
import PostgresChat.Postgres.Upkeep
import PostgresChat.Postgres.Awaited
import PostgresChat.Postgres.Recovery
import PostgresChat.Chat.Payload
import PostgresChat.Chat.Service
import PostgresChat.Database.Broadcast
import PostgresChat.Database.Followed
import PostgresChat.Chat.Listener
import PostgresChat.Chat.Paging
import PostgresChat.Chat.Wire
import PostgresChat.Node.System
import PostgresChat.Node.Frames
import PostgresChat.Node.Rooms
import PostgresChat.Node.Sockets
import PostgresChat.Node.Stores
import PostgresChat.Node.Recipients
import PostgresChat.Node.Calm
import PostgresChat.Node.Registry
import PostgresChat.Node.Heartbeat
import PostgresChat.Node.Leak
import PostgresChat.Node.Coverage
import PostgresChat.Node.Joining
import PostgresChat.Node.JoinGap
import PostgresChat.Node.Delivery
import PostgresChat.Node.Reception
import PostgresChat.Node.SendOrder
import PostgresChat.Node.Tasks
import PostgresChat.Node.FailedJoin
import PostgresChat.Node.Batching
import PostgresChat.Node.Identifiers
import PostgresChat.Node.Spelling
import PostgresChat.Node.Standing
import PostgresChat.Chat.Http
import PostgresChat.Chat.Sending
import PostgresChat.Chat.History
import PostgresChat.Chat.Cursors
import PostgresChat.Chat.Views
import PostgresChat.Chat.Outgoing
import PostgresChat.Cluster.System
import PostgresChat.Cluster.Agreement
import PostgresChat.Cluster.Delivery
import PostgresChat.Cluster.Authorised
import PostgresChat.Node.Underway
import PostgresChat.Cluster.Leaving
import PostgresChat.Cluster.Provenance
import PostgresChat.Node.Sent
import PostgresChat.Cluster.EndToEnd
import PostgresChat.Node.FrameOrder
import PostgresChat.Node.Presence
import PostgresChat.Cluster.Presence
import PostgresChat.Cluster.Sweeping
import PostgresChat.Auth.Tables
import PostgresChat.Auth.Service
import PostgresChat.Auth.Soundness
import PostgresChat.Auth.Lookup
import PostgresChat.Auth.Sessions
import PostgresChat.Auth.SingleUse
import PostgresChat.Auth.LogoutEverywhere
import PostgresChat.Auth.FailedRefresh
import PostgresChat.Auth.Ownership
import PostgresChat.Auth.Tokens
import PostgresChat.Auth.Revocation
import PostgresChat.Node.Handshake
import PostgresChat.Cluster.Admission
import PostgresChat.Rooms.Service
import PostgresChat.Rooms.Creator
import PostgresChat.Migrate.Files
import PostgresChat.Migrate.System
import PostgresChat.Migrate.Concurrent
import PostgresChat.Migrate.Sequential
