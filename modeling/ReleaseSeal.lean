import ReleaseSeal.Json.Reader
import ReleaseSeal.MachO.Session
import ReleaseSeal.Main
import ReleaseSeal.Proofs.Archive.Accessors
import ReleaseSeal.Proofs.Archive.Folder
import ReleaseSeal.Proofs.Archive.PathOrder
import ReleaseSeal.Proofs.Cli.Sealing
import ReleaseSeal.Proofs.Cli.Unforeseen
import ReleaseSeal.Proofs.Compare.Accountability
import ReleaseSeal.Proofs.Compare.CoreSize
import ReleaseSeal.Proofs.Compare.Decision
import ReleaseSeal.Proofs.Compare.FirstMismatch
import ReleaseSeal.Proofs.Compare.OneByte
import ReleaseSeal.Proofs.Compare.Order
import ReleaseSeal.Proofs.Compare.Resigned
import ReleaseSeal.Proofs.Compare.Symmetry
import ReleaseSeal.Proofs.Compare.Threshold
import ReleaseSeal.Proofs.Edit.LongestRun
import ReleaseSeal.Proofs.Edit.Steps
import ReleaseSeal.Proofs.Entitlement.Decision
import ReleaseSeal.Proofs.Entitlement.Merge
import ReleaseSeal.Proofs.MachO.Effect
import ReleaseSeal.Proofs.MachO.Embedding
import ReleaseSeal.Proofs.MachO.Extracted
import ReleaseSeal.Proofs.MachO.Faults
import ReleaseSeal.Proofs.MachO.Sessions
import ReleaseSeal.Proofs.MachO.Tiling
import ReleaseSeal.Proofs.Plist.Faults
import ReleaseSeal.Proofs.Seal.RoundTrip
import ReleaseSeal.Proofs.Seal.Sha256
import ReleaseSeal.Proofs.Seal.Staging
import ReleaseSeal.Proofs.Seal.Tint
