import LibSwitcher.InfoTree.Accessors
import LibSwitcher.InfoTree.BuilderGrammar
import LibSwitcher.InfoTree.Decoding
import LibSwitcher.InfoTree.EscapeDots
import LibSwitcher.InfoTree.KeyValSerializer
import LibSwitcher.InfoTree.Merge
import LibSwitcher.InfoTree.SharedCopy
import LibSwitcher.InfoTree.Subtrees
import LibSwitcher.Plugins.Executor.ChildExits
import LibSwitcher.Plugins.Executor.Lifecycle
import LibSwitcher.Plugins.Executor.Placeholders
import LibSwitcher.Plugins.Glfw.MultipleBuffer
import LibSwitcher.Plugins.Glfw.RenderingTasks
import LibSwitcher.Plugins.Jack.ShmdataToJackAlignment
import LibSwitcher.Plugins.Pjsip.Authorizations
import LibSwitcher.Plugins.Pjsip.CallStatus
import LibSwitcher.Plugins.Pjsip.ExposedQuiddities
import LibSwitcher.Plugins.Pjsip.IncomingCalls
import LibSwitcher.Plugins.Pjsip.MediaAlignment
import LibSwitcher.Plugins.Pjsip.MediaLabel
import LibSwitcher.Plugins.Pjsip.PJPresence
import LibSwitcher.Plugins.Pjsip.PJStunTurn
import LibSwitcher.Plugins.Pjsip.SharedReaders
import LibSwitcher.Plugins.Portmidi.LearntMappings
import LibSwitcher.Plugins.Portmidi.PortMidiScheduler
import LibSwitcher.Plugins.Webrtc.Peers
import LibSwitcher.Plugins.Webrtc.SignalingDelivery
import LibSwitcher.Shmdata.ShmdataMirror
import LibSwitcher.Plugins.Webrtc.WssMessage
import LibSwitcher.Quiddities.ShmBufferRuns
import LibSwitcher.Quiddity.Bundle.DescriptionRoundTrip
import LibSwitcher.Quiddity.Bundle.ExposedPoints
import LibSwitcher.Quiddity.Bundle.QuotedParams
import LibSwitcher.Quiddity.Bundle.WiringRuns
import LibSwitcher.Quiddity.Claw.ConnectionSpecGrammar
import LibSwitcher.Quiddity.Claw.ConnectionSpecMirror
import LibSwitcher.Quiddity.Claw.DynamicPoints
import LibSwitcher.Quiddity.Claw.EntryPoints
import LibSwitcher.Quiddity.Claw.HeldIds
import LibSwitcher.Quiddity.Claw.Labels
import LibSwitcher.Quiddity.ContainerInvariant
import LibSwitcher.Quiddity.MemberNames
import LibSwitcher.Quiddity.Method.MBag
import LibSwitcher.Quiddity.Method.Method
import LibSwitcher.Quiddity.Property.Fraction
import LibSwitcher.Quiddity.Property.GProp
import LibSwitcher.Quiddity.Property.Mirroring
import LibSwitcher.Quiddity.Property.Replacement
import LibSwitcher.Quiddity.Property.Subscriptions
import LibSwitcher.Session.SessionNames
import LibSwitcher.Switcher.BundleRegistration
import LibSwitcher.Switcher.LoadEntries
import LibSwitcher.Switcher.ShmZombies
import LibSwitcher.Switcher.StateRoundTrip
import LibSwitcher.Utils.AudioRingBufferLinearizable
import LibSwitcher.Utils.AudioRingBufferRefinement
import LibSwitcher.Utils.DriftObserver
import LibSwitcher.Utils.EscapeJson
import LibSwitcher.Utils.IdsRuns
import LibSwitcher.Utils.PeriodicTask
import LibSwitcher.Utils.SplitJoin
import LibSwitcher.Utils.ThreadedWrapperProgress
import LibSwitcher.Utils.TupleRoundTrip
import LibSwitcher.Plugins.Jack.JackToShmdata
import LibSwitcher.Plugins.Jack.JackToShmdataConnections
import LibSwitcher.Plugins.Jack.JackToShmdataSessions
