import OdsAccess.Lib.FixedBytes
import OdsAccess.Lib.PathMap
import OdsAccess.Lib.OnceCells
import OdsAccess.Lib.CellRuns
import OdsAccess.Lib.SecondaryIndex
import OdsAccess.Members.Types
import OdsAccess.Members.Smt
import OdsAccess.Members.Trie
import OdsAccess.Members.SmtSpec
import OdsAccess.Members.Binding
import OdsAccess.Members.TrieSpec
import OdsAccess.Members.Mutators
import OdsAccess.Members.DeltaSpec
import OdsAccess.Members.World
import OdsAccess.Members.Sample
import OdsAccess.Members.Representation
import OdsAccess.Members.Refinement
import OdsAccess.Members.History
import OdsAccess.Members.Canonical
import OdsAccess.Members.RoundTrip
import OdsAccess.Lib.Postcard
import OdsAccess.Lib.PostcardScan
import OdsAccess.Lib.Interaction
import OdsAccess.Lib.Processes
import OdsAccess.Lib.KeyedList
import OdsAccess.Members.Wire
import OdsAccess.Members.WireScan
import OdsAccess.Node.Types
import OdsAccess.Members.Roster
import OdsAccess.Node.Verify
import OdsAccess.Node.Chain
import OdsAccess.Node.Service
import OdsAccess.Node.Receive
import OdsAccess.Node.Spec
import OdsAccess.Node.Registry
import OdsAccess.Node.Rules
import OdsAccess.Node.Outcomes
import OdsAccess.Node.Delivery
import OdsAccess.Node.Proposals
import OdsAccess.Node.Publish
import OdsAccess.Node.Setup
import OdsAccess.Node.Network
import OdsAccess.Node.ForkSafety
import OdsAccess.Members.RootBinding
import OdsAccess.Node.DeltaBytes
import OdsAccess.Node.SelfDelete
import OdsAccess.Node.UnsignedFields
import OdsAccess.Node.ReceivePaths
import OdsAccess.Node.Rebuilding
import OdsAccess.Node.Replay
import OdsAccess.OnChain.OrgRegistry
import OdsAccess.Lib.BlockTree
import OdsAccess.Client.Events
import OdsAccess.Client.BestLane
import OdsAccess.OnChain.Calls
import OdsAccess.OnChain.Finality
import OdsAccess.OnChain.ChainWrite
import OdsAccess.OnChain.WriteSpec
import OdsAccess.OnChain.SubmitUpdate
import OdsAccess.OnChain.Sample
import OdsAccess.OnChain.GenesisCeremony
import OdsAccess.Members.Differences
import OdsAccess.Node.HonestDelta
import OdsAccess.Members.Rotation
import OdsAccess.Members.Quint
import OdsAccess.Members.Conformance
import OdsAccess.Node.RecordedKeys
import OdsAccess.Node.Saves
import OdsAccess.Lib.PostcardLength
import OdsAccess.Node.Store
import OdsAccess.Lib.Scale
import OdsAccess.Lib.Words
import OdsAccess.Client.Decode
import OdsAccess.Client.Foreign
import OdsAccess.OnChain.Storage
import OdsAccess.Client.OrgState
import OdsAccess.Node.Agreement
import OdsAccess.Node.CatchUp
import OdsAccess.OnChain.Multisig
import OdsAccess.Policy.Sessions
import OdsAccess.Lib.PostcardPrefix
import OdsAccess.Client.GapFill
import OdsAccess.Node.Framing
import OdsAccess.Node.Postings
import OdsAccess.Node.Rounds
import OdsAccess.Node.Standing
import OdsAccess.Node.Following
import OdsAccess.Lib.Followers
import OdsAccess.Protocol.State
import OdsAccess.Protocol.Safety
import OdsAccess.Node.NoRollback
import OdsAccess.Node.Blobs
import OdsAccess.App.Commands
import OdsAccess.App.Jobs
import OdsAccess.App.Sample
import OdsAccess.App.Founders
import OdsAccess.App.Events
import OdsAccess.Client.Subscription
import OdsAccess.Lib.Simulations
import OdsAccess.Node.Unconfirmed
import OdsAccess.Node.MockNetwork
import OdsAccess.OnChain.Production
