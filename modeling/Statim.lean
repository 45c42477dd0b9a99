import Statim.Name
import Statim.TraceName
import Statim.Packet
import Statim.Support.OrderedMap
import Statim.Support.Schedule
import Statim.Support.OrderedSet
import Statim.State.ForwardingReference
import Statim.Control.Message
import Statim.Control.LocalOrder
import Statim.Control.FlowTableActions
import Statim.Control.FlowTableRuns
import Statim.Engine.MessageAccounting
import Statim.Engine.Recovery
import Statim.Pipeline.FibHistory
import Statim.State.PendingHistory
import Statim.Stateful.ContentStore
import Statim.Support.History
import Statim.Engine.FlowBalance
import Statim.Engine.ExceptionSafety
import Statim.Engine.RouteSelection
import Statim.Engine.NonceIntegrity
import Statim.Engine.PrefixIsolation
import Statim.Engine.GuardTransparency
import Statim.Engine.LeaseArithmetic
import Statim.Pipeline.HeaderFields
import Statim.Occupancy.Agreement
import Statim.Engine.Reforwarding
import Statim.Pipeline.Verdict
import Statim.Stateful.Eviction
import Statim.Control.RetryBounds
import Statim.Control.RejectedUpdates
import Statim.Support.Checks
import Statim.Support.DecimalText
import Statim.Support.Dictionary
import Statim.Support.JsonText
import Statim.Experiments.Reconstruction
import Statim.Network.TracePaths
import Statim.Apps.ConsumerTimeouts
import Statim.Apps.ConsumerDelays
import Statim.Apps.MobileRetries
import Statim.Routing.RouteWalks
