import WaycaScheduler.RearrangeTermination
import WaycaScheduler.AssertionValidity
import WaycaScheduler.AttributePropagation
import WaycaScheduler.FreeTarget
import WaycaScheduler.PlacementTable
import WaycaScheduler.ProcessLedger
import WaycaScheduler.AttachUndone
import WaycaScheduler.TaskQueue
import WaycaScheduler.PoolWakeups
import WaycaScheduler.AffinityDecoding
import WaycaScheduler.CpulistGrammar
import WaycaScheduler.HotplugBounds
import WaycaScheduler.OnlineCheck
import WaycaScheduler.IrqPairs
import WaycaScheduler.FineDeployment
import WaycaScheduler.MemoryBench
import WaycaScheduler.SetIteration
import WaycaScheduler.IdlestSelection
import WaycaScheduler.DocumentFilter
import WaycaScheduler.BenchShutdown
import WaycaScheduler.Calibration
import WaycaScheduler.TreeShowsCpus
