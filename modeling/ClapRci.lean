import ClapRci.Lib.ActionSystem
import ClapRci.Lib.BoundedFifo
import ClapRci.Lib.CString
import ClapRci.Lib.CommandLine
import ClapRci.Lib.Decimal
import ClapRci.Lib.FrameSchedule
import ClapRci.Lib.LossyChannel
import ClapRci.Lib.MixedRadix
import ClapRci.Lib.OrdMap
import ClapRci.Lib.Progress
import ClapRci.Lib.RingIndex
import ClapRci.Lib.RoundEven
import ClapRci.Lib.BinaryFormat
import ClapRci.Lib.RunningMax
import ClapRci.Lib.SoleHolder
import ClapRci.Lib.Waiting
import ClapRci.Core.Global
import ClapRci.Core.Timestamp
import ClapRci.Core.StampArithmetic
import ClapRci.Core.StampClock
import ClapRci.Core.StringCopy
import ClapRci.Core.BlkRingQueue
import ClapRci.Core.BlkRingQueueMask
import ClapRci.Core.BlkRingQueueFifo
import ClapRci.Core.BlkRingQueuePrograms
import ClapRci.Core.BlkRingQueueCalls
import ClapRci.Core.BlkRingQueueMoves
import ClapRci.Core.ProcessHandle
import ClapRci.Core.ProcessHandleMoves
import ClapRci.Core.ProcessHandleWindows
import ClapRci.Core.ProcessArguments
import ClapRci.Server.Wrappers
import ClapRci.Server.CqEventHandler
import ClapRci.Server.AlarmRuns
import ClapRci.Server.ServerEventStream
import ClapRci.Server.StreamLifetime
import ClapRci.Server.SharedData
import ClapRci.Server.PollRounds
import ClapRci.Server.PollChannel
import ClapRci.Server.PollRestart
import ClapRci.Server.PollRetry
import ClapRci.Server.PollSessions
import ClapRci.Server.PollSharing
import ClapRci.Server.PollDelays
import ClapRci.Server.StreamCq
import ClapRci.Server.StreamCqRuns
import ClapRci.Server.Handshake
import ClapRci.Server.ServerCtrl
import ClapRci.Server.ServerLifetime
import ClapRci.Server.ServerCtrlThreads
import ClapRci.Server.PendingTags
import ClapRci.Server.Registry
import ClapRci.Server.UnaryCalls
import ClapRci.Server.AcceptLoop
import ClapRci.Server.Shutdown
import ClapRci.Server.StopReturns
import ClapRci.Server.Instances
import ClapRci.Server.ConnectClient
import ClapRci.Server.Ownership
import ClapRci.Server.Routing
import ClapRci.Plugin.CorePluginLifetime
import ClapRci.Plugin.EnqueueAuxiliaries
import ClapRci.Plugin.Parameter
import ClapRci.Plugin.ClientParams
import ClapRci.Plugin.ClientParamDrops
import ClapRci.Plugin.ClientParamEffects
import ClapRci.Plugin.ProcessGuiEvents
import ClapRci.Plugin.BatchShutdown
import ClapRci.Plugin.HostEvents
import ClapRci.Plugin.ClientView
import ClapRci.Plugin.HostToClient
import ClapRci.Plugin.Arrival
import ClapRci.Plugin.HostView
import ClapRci.Plugin.AddParameter
import ClapRci.Plugin.ModuleParameters
import ClapRci.Plugin.ParameterIds
import ClapRci.Plugin.ProcessBlock
import ClapRci.Plugin.BlockSteps
import ClapRci.Plugin.GuiCalls
import ClapRci.Plugin.GuiCreate
import ClapRci.Plugin.GuiChildren
import ClapRci.Server.Metadata
import ClapRci.Server.DisconnectClient
import ClapRci.Plugin.GuiHandOff
import ClapRci.Plugin.HashLifetimes
import ClapRci.Plugin.ParamCalls
import ClapRci.Plugin.ParameterText
import ClapRci.Plugin.DoubleText
