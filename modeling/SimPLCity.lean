import SimPLCity.Runs
import SimPLCity.PathTree
import SimPLCity.PathText
import SimPLCity.CursorFile
import SimPLCity.FileXVolume
import SimPLCity.FileDescriptors
import SimPLCity.FileNamespace
import SimPLCity.LocatedPaths
import SimPLCity.NamespaceEffects
import SimPLCity.RenameTransaction
import SimPLCity.HandleSteps
import SimPLCity.CallEffects
import SimPLCity.CurrentDirectory
import SimPLCity.DescriptorIdentity
import SimPLCity.SoleDescriptor
import SimPLCity.FileOffsets
import SimPLCity.OpenHandles
import SimPLCity.SeekPastEnd
import SimPLCity.ModeSwitching
import SimPLCity.ThreadLifecycle
import SimPLCity.ControlBlocks
import SimPLCity.BlockBooks
import SimPLCity.BlockEffects
import SimPLCity.Reclamation
import SimPLCity.JoinProgress
import SimPLCity.RegistryIds
import SimPLCity.IntrusiveList
import SimPLCity.ConditionVariables
import SimPLCity.Wakeups
import SimPLCity.ThreadKeys
import SimPLCity.KeyService
import SimPLCity.EtherTypes
import SimPLCity.ClassicBpf
import SimPLCity.PacketFilter
import SimPLCity.FrameReceive
import SimPLCity.FrameDelivery
import SimPLCity.LinkedChain
import SimPLCity.ReceiveSlots
import SimPLCity.SlotConservation
import SimPLCity.NorFlash
import SimPLCity.SystemTime
import SimPLCity.ThreadExit
import SimPLCity.EmulatedTls
import SimPLCity.ThreadStorage
import SimPLCity.LinuxTimer
import SimPLCity.TimerWorker
import SimPLCity.TimerSilence
import SimPLCity.LockOrder
import SimPLCity.RawSocket
import SimPLCity.SocketSafety
import SimPLCity.WordArithmetic
import SimPLCity.SleepFor
import SimPLCity.SeekArithmetic
import SimPLCity.CheckedBuffer
import SimPLCity.PathEvaluation
import SimPLCity.PathMigration
import SimPLCity.XorMultiplyHash
import SimPLCity.StatCall
import SimPLCity.InodeNumbers
import SimPLCity.StatAgreement
import SimPLCity.OpenRollback
import SimPLCity.OneTime
import SimPLCity.StaticGuards
import SimPLCity.StaticInitialization
import SimPLCity.OnceHandles
import SimPLCity.CallOnce
import SimPLCity.LazyCreation
import SimPLCity.LazySemaphores
import SimPLCity.SemaphoreTokens
import SimPLCity.UnitScaling
import SimPLCity.TickCounter
import SimPLCity.HighResolutionTime
import SimPLCity.TimedWaits
import SimPLCity.DirectMedia
import SimPLCity.CardAccess
import SimPLCity.PartitionAddressing
import SimPLCity.ThreadAttributes
import SimPLCity.LockPool
import SimPLCity.LockReuse
import SimPLCity.ClockConversions
import SimPLCity.TimerArithmetic
import SimPLCity.OverflowWait
import SimPLCity.DurationTicks
import SimPLCity.RestartedTimer
import SimPLCity.SocketDeadlines
import SimPLCity.CivilCalendar
import SimPLCity.CivilDates
import SimPLCity.StackTracking
import SimPLCity.PinRegistry
import SimPLCity.PinOwnership
import SimPLCity.FailedJoins
import SimPLCity.KeyDestructors
import SimPLCity.ExitCallbacks
import SimPLCity.ThreadExitCalls
import SimPLCity.LazyMutexes
import SimPLCity.MutualExclusion
import SimPLCity.FailingWaits
import SimPLCity.SwallowedSignals
import SimPLCity.DirectoryStreams
import SimPLCity.MaskedSections
import SimPLCity.Atomics
import SimPLCity.NorDriver
import SimPLCity.OutputPins
import SimPLCity.SharedOwners
import SimPLCity.InputPins
import SimPLCity.EthernetController
import SimPLCity.TlsBlocks
import SimPLCity.FlashMedia
