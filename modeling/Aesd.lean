import Aesd.Effects.Program
import Aesd.Effects.Typestate
import Aesd.CharDriver.CircularBuffer
import Aesd.Streams.Lines
import Aesd.CharDriver.Kernel
import Aesd.CharDriver.Main
import Aesd.CharDriver.Calls
import Aesd.CharDriver.LineLog
import Aesd.CharDriver.LogMachine
import Aesd.CharDriver.Simulation
import Aesd.CharDriver.WriteLog
import Aesd.CharDriver.ReadLog
import Aesd.CharDriver.FailedCalls
import Aesd.CharDriver.Ownership
import Aesd.CharDriver.Leaks
import Aesd.Effects.Pool
import Aesd.Effects.Link
import Aesd.Effects.Outline
import Aesd.CharDriver.LockDiscipline
import Aesd.CLib.Strings
import Aesd.Server.Posix
import Aesd.Server.HandleClient
import Aesd.Server.Descriptors
import Aesd.Server.Sessions
import Aesd.Server.Requests
import Aesd.Server.Host
import Aesd.Streams.Provenance
import Aesd.Server.Packets
import Aesd.Server.Responses
import Aesd.CharDriver.Reachable
import Aesd.CharDriver.Seek
import Aesd.CharDriver.SeekWalk
import Aesd.CharDriver.Llseek
import Aesd.Effects.Interference
import Aesd.CharDriver.SeekMoments
import Aesd.CharDriver.SeekRace
import Aesd.CharDriver.SeekEvictions
import Aesd.Server.Rounds
import Aesd.Server.SeekAnswer
import Aesd.Server.ChunkFed
import Aesd.Effects.Cancel
import Aesd.Server.Threads
import Aesd.Server.ThreadPhases
import Aesd.Server.ThreadTexts
import Aesd.Server.DeadOwners
import Aesd.Server.ThreadRuns
import Aesd.CharDriver.RingRuns
import Aesd.Server.BufferAccess
import Aesd.Server.BufferBounds
import Aesd.Server.NodeStatus
import Aesd.Server.NodeSteps
import Aesd.Server.ThreadNodes
import Aesd.Server.LostThreads
import Aesd.CharDriver.Sections
import Aesd.CharDriver.Sharing
import Aesd.CharDriver.Outlines
import Aesd.CharDriver.WriteOutline
import Aesd.CharDriver.Atomic
import Aesd.Server.MutexOrder
import Aesd.Server.Deadlocks
import Aesd.Effects.Beside
import Aesd.CharDriver.Readers
import Aesd.Server.Stack
import Aesd.Server.Stored
import Aesd.Server.ListeningSocket
import Aesd.Server.Process
import Aesd.Server.ProcessViews
import Aesd.Server.ProcessInvariant
import Aesd.Server.ProcessSteps
import Aesd.Server.ProcessRuns
import Aesd.Server.OpenFiles
import Aesd.Server.ProcessThreads
import Aesd.SystemCalls.Exec
