import SpirvModule.Blessing.Directory
import SpirvModule.Main
import SpirvModule.Session.Command
import SpirvModule.Proofs.Lookup
import SpirvModule.Proofs.Refine
import SpirvModule.Proofs.Tiling
import SpirvModule.Proofs.Bound
import SpirvModule.Proofs.Loading
import SpirvModule.Proofs.Agreement
import SpirvModule.Proofs.Links
import SpirvModule.Proofs.Persistence
import SpirvModule.Proofs.ModuleGrammar
import SpirvModule.Proofs.RoundTrip
import SpirvModule.Proofs.LoadedTypes
import SpirvModule.Proofs.Bracket
import SpirvModule.Proofs.Crash
import SpirvModule.Proofs.StorageClass
import SpirvModule.Proofs.Commuting
import SpirvModule.Proofs.Declaring
import SpirvModule.Proofs.TakingBack
import SpirvModule.Proofs.Constants
import SpirvModule.Proofs.Structs
import SpirvModule.Proofs.Imports
import SpirvModule.Proofs.Packing
import SpirvModule.Proofs.ByteOrder
import SpirvModule.Proofs.Rebinding
import SpirvModule.Proofs.Stripping
import SpirvModule.Proofs.Injecting
import SpirvModule.Proofs.KeyOrder
import SpirvModule.Proofs.ReadingBack
import SpirvModule.Proofs.Undoing
import SpirvModule.Proofs.Opening
import SpirvModule.Proofs.Blessing
import SpirvModule.Proofs.ImmediateWords
import SpirvModule.Proofs.Reports
