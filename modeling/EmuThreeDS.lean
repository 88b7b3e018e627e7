import EmuThreeDS.Kernel.ControlAnswers
import EmuThreeDS.Kernel.Arbitration
import EmuThreeDS.Kernel.Semaphores
import EmuThreeDS.Kernel.SharedMemory
import EmuThreeDS.Common.RingRuns
import EmuThreeDS.Core.TimedEvents
import EmuThreeDS.Service.File
import EmuThreeDS.FileSys.MountPoints
import EmuThreeDS.FileSys.CIAAgreement
import EmuThreeDS.Video.StructuredRuns
import EmuThreeDS.Video.PageMarking
import EmuThreeDS.Audio.SourceReload
import EmuThreeDS.Audio.SourceResampling
import EmuThreeDS.LdrRo.ModuleRuns
import EmuThreeDS.Network.Membership
import EmuThreeDS.Network.RoomClients
import EmuThreeDS.Network.Packet
import EmuThreeDS.Service.UdsRuns
import EmuThreeDS.Cheats.WellNestedCheats
import EmuThreeDS.Cheats.PatchCodes
import EmuThreeDS.LdrRo.UnlinkRuns
import EmuThreeDS.LdrRo.ExportLookup
import EmuThreeDS.Video.StreamRuns
import EmuThreeDS.Service.InterruptRuns
import EmuThreeDS.Kernel.MapPairs
import EmuThreeDS.Kernel.MovedObjects
import EmuThreeDS.Service.ConfigRuns
import EmuThreeDS.Core.MovieRuns
import EmuThreeDS.Video.FillSurfaces
import EmuThreeDS.Core.TimeConversion
import EmuThreeDS.Kernel.QueryMemory
import EmuThreeDS.Kernel.ControlProcess
import EmuThreeDS.Memory.CommandAccesses
import EmuThreeDS.Memory.CopyBlocks
import EmuThreeDS.Kernel.ThreadSlots
import EmuThreeDS.Video.PrimitiveAssembly
import EmuThreeDS.Video.CommandLists
import EmuThreeDS.Video.CopyableIntervals
import EmuThreeDS.Video.Unswizzle
import EmuThreeDS.FileSys.LzssRuns
import EmuThreeDS.FileSys.PatchCreation
import EmuThreeDS.FileSys.RomFSReads
import EmuThreeDS.FileSys.Plugin3GX
import EmuThreeDS.Video.TransferImages
import EmuThreeDS.Service.Y2RImages
import EmuThreeDS.Video.ShaderBounds
import EmuThreeDS.Cheats.CheatFile
import EmuThreeDS.Common.ParamPackage
import EmuThreeDS.Service.CommandQueue
import EmuThreeDS.Service.UdsBeacon
import EmuThreeDS.Core.GdbCommands
