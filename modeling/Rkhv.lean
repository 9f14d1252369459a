import Rkhv.ByteMemory
import Rkhv.WordFields
import Rkhv.StateOutcome
import Rkhv.RadixWalk
import Rkhv.PageRuns
import Rkhv.HostTypes
import Rkhv.HostState
import Rkhv.FreePages
import Rkhv.FreePageSearch
import Rkhv.FreePageContract
import Rkhv.BootPagePool
import Rkhv.BootPaging
import Rkhv.BootWindow
import Rkhv.BootTables
import Rkhv.BootLoading
import Rkhv.BootMapping
import Rkhv.BootRuns
import Rkhv.MemoryMapImport
import Rkhv.AddressablePages
import Rkhv.Arenas
import Rkhv.PageTracker
import Rkhv.PageTrackerRuns
import Rkhv.VmxPages
import Rkhv.MsrBitmaps
import Rkhv.Ept
import Rkhv.EptWalk
import Rkhv.MachinePages
import Rkhv.MachineSteps
import Rkhv.EptMapping
import Rkhv.EptAgreement
import Rkhv.EptIdentity
import Rkhv.VmxInstructions
import Rkhv.VmManager
import Rkhv.Vmcs
import Rkhv.GuestMemory
import Rkhv.HostPages
import Rkhv.HostSteps
import Rkhv.HostOperations
import Rkhv.HostRuns
import Rkhv.GuestIsolation
import Rkhv.GuestRam
import Rkhv.EptReservation
import Rkhv.DescendingPages
import Rkhv.FreeRegion
import Rkhv.ComponentRuns
import Rkhv.Vmd8250Uart
import Rkhv.VmIoPorts
import Rkhv.UartChain
import Rkhv.UartIsolation
import Rkhv.VmxMsr
import Rkhv.VmGuestPaging
import Rkhv.VmEmulatedInstructions
import Rkhv.VmxVmexit
import Rkhv.VmexitEffects
import Rkhv.VmexitFrame
import Rkhv.MsrSwitch
import Rkhv.Cr4Shadow
import Rkhv.GuestXcr0
import Rkhv.GuestAccess
import Rkhv.GuestIdentity
import Rkhv.ByteBlocks
import Rkhv.GuestLinuxLoader
import Rkhv.LinuxPreparation
import Rkhv.LinuxCmdline
import Rkhv.LinuxParameters
import Rkhv.LinuxFilling
import Rkhv.LinuxKernel
import Rkhv.LinuxCopy
import Rkhv.LinuxLayout
import Rkhv.LinuxReads
import Rkhv.Cr3Loads
import Rkhv.RegisterHalves
import Rkhv.Retracking
import Rkhv.NestedWalk
import Rkhv.RightsWalk
import Rkhv.PortStrings
import Rkhv.LinkedLists
import Rkhv.ArenaLinks
import Rkhv.ArenaSpace
import Rkhv.UartRegisters
import Rkhv.UartOutput
import Rkhv.DeviceRegistration
import Rkhv.Numerals
import Rkhv.NumberStrings
import Rkhv.Printf
import Rkhv.PrintfLanguage
import Rkhv.DigitBuffers
import Rkhv.UartBuffer
import Rkhv.ExitMemory
import Rkhv.VmcsFields
import Rkhv.VmcsConfinement
import Rkhv.MachineBuilding
import Rkhv.GuestRuns
import Rkhv.Amd64
import Rkhv.EntryStubs
import Rkhv.BootChainload
