import IrcServer.Library.Transition
import IrcServer.Library.UnorderedMap
import IrcServer.Library.Outbox
import IrcServer.Library.Text
import IrcServer.Library.Ledger
import IrcServer.Library.Ranking
import IrcServer.Library.History
import IrcServer.Library.Interleaving
import IrcServer.Library.Silent
import IrcServer.Library.Gather
import IrcServer.Reply
import IrcServer.Parser
import IrcServer.Server
import IrcServer.ChannelOperations
import IrcServer.ChannelCommands
import IrcServer.Commands
import IrcServer.Dispatch
import IrcServer.Exits
import IrcServer.Network
import IrcServer.PollLoop
import IrcServer.Process
import IrcServer.Registry
import IrcServer.ParserLaws
import IrcServer.Effects
import IrcServer.Roles
import IrcServer.UserLimit
import IrcServer.Admission
import IrcServer.Doors
import IrcServer.NameList
import IrcServer.Input
import IrcServer.Runs
import IrcServer.Isolation
import IrcServer.Refusals
import IrcServer.Whitelist
import IrcServer.Commas
import IrcServer.JoinLoop
import IrcServer.Noninterference
import IrcServer.Growth
import IrcServer.InStep
import IrcServer.Delivery
import IrcServer.Scan
import IrcServer.Descriptors
import IrcServer.Erasure
import IrcServer.Refinement
import IrcServer.Levels
import IrcServer.Shutdown
import IrcServer.Names
import IrcServer.Identity
import IrcServer.Invitations
import IrcServer.Disconnect
import IrcServer.Forwarding
import IrcServer.Registration
import IrcServer.Membership
import IrcServer.TopicRules
import IrcServer.Framing
import IrcServer.Routing
import IrcServer.Stream
import IrcServer.Extraction
import IrcServer.Inbox
import IrcServer.Progress
import IrcServer.Messages
import IrcServer.Schedules
import IrcServer.Topics
import IrcServer.Traffic
import IrcServer.Order
import IrcServer.Startup
import IrcServer.Login
import IrcServer.Numerics
