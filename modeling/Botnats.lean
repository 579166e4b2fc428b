import Botnats.Machine
import Botnats.Bucket
import Botnats.Assoc
import Botnats.Text
import Botnats.Signing
import Botnats.Json
import Botnats.AttemptStore
import Botnats.Totp
import Botnats.ClaimStore
import Botnats.Envelope
import Botnats.EnvelopeDelivery
import Botnats.EnvelopeReplay
import Botnats.Presence
import Botnats.PresenceClaim
import Botnats.PresenceEvidence
import Botnats.PresenceReclaim
import Botnats.Watches
import Botnats.History
import Botnats.PutNewer
import Botnats.Validators
import Botnats.ChannelRecord
import Botnats.ChannelManager
import Botnats.ChannelMesh
import Botnats.ChannelPuts
import Botnats.ChannelKeys
import Botnats.Newest
import Botnats.ChannelTables
import Botnats.Session
import Botnats.SigningDomains
import Botnats.Authorizer
import Botnats.AuthorizerRekey
import Botnats.AuthorizerImports
import Botnats.SessionSync
import Botnats.RevocationQueue
import Botnats.SessionBot
import Botnats.PendingQueue
import Botnats.Members
import Botnats.IrcEvents
import Botnats.IdentityRevocation
import Botnats.ServerChannels
import Botnats.MemberHandlers
import Botnats.MemberTracking
import Botnats.JoinTracking
import Botnats.Glob
import Botnats.Masks
import Botnats.PeerHelp
import Botnats.HelpMesh
import Botnats.BanTable
import Botnats.ChannelModes
import Botnats.PongReply
import Botnats.SessionCover
import Botnats.SessionMesh
import Botnats.AuthFlow
import Botnats.Identities
import Botnats.SlidingWindow
import Botnats.RateLimits
import Botnats.TokenBucket
import Botnats.SendLoop
import Botnats.Packing
import Botnats.ReplyLines
import Botnats.PresenceOwnership
import Botnats.CommandWatches
import Botnats.Revisions
import Botnats.Correction
import Botnats.ModeIntent
import Botnats.ModeEnforcement
import Botnats.Registration
import Botnats.Triples
import Botnats.Commands
import Botnats.CommandTurns
import Botnats.CommandEffects
import Botnats.MakeRoom
import Botnats.NickReclaim
import Botnats.Discovery
import Botnats.OpHandout
import Botnats.Connections
