import SimpleDsp.AdMap.AdTexts
import SimpleDsp.AdMap.Auction
import SimpleDsp.AdMap.Bidding
import SimpleDsp.AdMap.Candidates
import SimpleDsp.AdMap.ChargeAmounts
import SimpleDsp.AdMap.Clicks
import SimpleDsp.AdMap.CronRule
import SimpleDsp.AdMap.Filters
import SimpleDsp.AdMap.Labels
import SimpleDsp.AdMap.MarketShops
import SimpleDsp.AdMap.Rotation
import SimpleDsp.AdMap.Schedules
import SimpleDsp.AdMap.Serving
import SimpleDsp.AdMap.WeightedECPM
import SimpleDsp.AdServer.Accounts
import SimpleDsp.AdServer.AdOp
import SimpleDsp.AdServer.Alone
import SimpleDsp.AdServer.Functions
import SimpleDsp.AdServer.Turns
import SimpleDsp.Lib.Codecs
import SimpleDsp.Lib.DecimalText
import SimpleDsp.Lib.FormatScan
import SimpleDsp.Lib.Interleaving
import SimpleDsp.Lib.Interrupts
import SimpleDsp.Lib.Intersection
import SimpleDsp.Lib.LateTurns
import SimpleDsp.Lib.Ledgers
import SimpleDsp.Lib.LineReader
import SimpleDsp.Lib.Lockstep
import SimpleDsp.Lib.Monitors
import SimpleDsp.Lib.Program
import SimpleDsp.Lib.Ranking
import SimpleDsp.Lib.RealText
import SimpleDsp.Lib.Records
import SimpleDsp.Lib.Replays
import SimpleDsp.Lib.RequestReply
import SimpleDsp.Lib.Rotation
import SimpleDsp.Lib.Rounding
import SimpleDsp.Lib.Truncation
import SimpleDsp.Lib.Visits
import SimpleDsp.Lib.WeightedMean
import SimpleDsp.Messages.LeafEncoders
import SimpleDsp.Messages.MessageLayouts
import SimpleDsp.Messages.MultiCount
import SimpleDsp.Messages.Nodes
import SimpleDsp.Receivers.AddInput
import SimpleDsp.Receivers.ArriveTime
import SimpleDsp.Receivers.Buffers
import SimpleDsp.Receivers.Consumers
import SimpleDsp.Receivers.EitherBackend
import SimpleDsp.Receivers.ListDecoding
import SimpleDsp.Receivers.ListMessages
import SimpleDsp.Receivers.Listings
import SimpleDsp.Receivers.MacNumbers
import SimpleDsp.Receivers.MissingValues
import SimpleDsp.Receivers.Outcomes
import SimpleDsp.Receivers.PhoneUpdates
import SimpleDsp.Receivers.Positions
import SimpleDsp.Receivers.Records
import SimpleDsp.Receivers.ScoreRanges
import SimpleDsp.Receivers.SharedStore
import SimpleDsp.Receivers.SharedTotals
import SimpleDsp.Receivers.ShopDurations
import SimpleDsp.Receivers.ShopVisits
import SimpleDsp.Receivers.StayBounds
import SimpleDsp.Receivers.StayCredits
import SimpleDsp.Receivers.StoredPositions
import SimpleDsp.Receivers.TagReports
import SimpleDsp.Receivers.Uninitialised
import SimpleDsp.Receivers.UserOp
import SimpleDsp.Receivers.UserZero
import SimpleDsp.Receivers.VipLookup
import SimpleDsp.Register.AdTable
import SimpleDsp.Register.Processes
import SimpleDsp.Register.SharedTable
import SimpleDsp.Signals.LazyPirate
import SimpleDsp.Store.Clock
import SimpleDsp.Store.CommandOutput
import SimpleDsp.Store.FloatFormats
import SimpleDsp.Store.Formats
import SimpleDsp.Store.IntSets
import SimpleDsp.Store.Keys
import SimpleDsp.Store.Mdb
import SimpleDsp.Store.RecordKinds
import SimpleDsp.Store.Redis
import SimpleDsp.Store.Tair
import SimpleDsp.Store.TextRoundTrips
import SimpleDsp.Store.Value
import SimpleDsp.Store.WriteReports
import SimpleDsp.UserMap.Calls
import SimpleDsp.UserMap.Connections
import SimpleDsp.UserMap.Effects
import SimpleDsp.UserMap.Footprint
import SimpleDsp.UserMap.Functions
import SimpleDsp.UserMap.Indexes
import SimpleDsp.UserMap.KeyStreams
import SimpleDsp.UserMap.LogIds
import SimpleDsp.UserMap.LookupLock
import SimpleDsp.UserMap.MacNumber
import SimpleDsp.UserMap.Machine
import SimpleDsp.UserMap.TimeSlices
import SimpleDsp.UserMap.UserIds
