import InferenceOS.Theorems.Blocking
import InferenceOS.Theorems.Revocation
import InferenceOS.Theorems.QueueRuns
import InferenceOS.Theorems.Preemption
import InferenceOS.Theorems.CompositionRuns
import InferenceOS.Theorems.VirtioRequests
import InferenceOS.Theorems.IpcSyscalls
import InferenceOS.Theorems.Geometry
import InferenceOS.Theorems.Placement
import InferenceOS.Theorems.Renaming
import InferenceOS.Theorems.VmbusExchanges
import InferenceOS.Theorems.Ownership
import InferenceOS.Theorems.FileWrites
import InferenceOS.Theorems.DirectoryGrowth
import InferenceOS.Theorems.LostSectors
import InferenceOS.Theorems.RegistryRebuilds
import InferenceOS.Theorems.Transactions
import InferenceOS.Theorems.ExplorerViews
import InferenceOS.Theorems.FileCommands
import InferenceOS.Theorems.MetadataPlacement
import InferenceOS.Theorems.CommandLines
import InferenceOS.Theorems.InputReadiness
import InferenceOS.Theorems.DiskClassification
import InferenceOS.Theorems.StorageCoverage
import InferenceOS.Theorems.ModuleStart
import InferenceOS.Theorems.AdapterCalls
import InferenceOS.Theorems.LineDrawing
import InferenceOS.Theorems.BarProbing
import InferenceOS.Theorems.LineEditing
import InferenceOS.Theorems.ExplorerNavigation
import InferenceOS.Theorems.SpaceRuns
