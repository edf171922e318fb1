import TexturePack.Bytes
import TexturePack.Pixel
import TexturePack.Error
import TexturePack.Stream
import TexturePack.OpenFile
import TexturePack.Image
import TexturePack.Container
import TexturePack.Deflate.Code
import TexturePack.Deflate
import TexturePack.Zlib
import TexturePack.Zim
import TexturePack.Png.Chunk
import TexturePack.Png.Header
import TexturePack.Png.Scanline
import TexturePack.Png.Setup
import TexturePack.Png.Stream
import TexturePack.Png.Color
import TexturePack.Png.Frame
import TexturePack.Png
import TexturePack.Text.Encoding
import TexturePack.Dds
import TexturePack.Ktx2.Header
import TexturePack.Ktx2.Target
import TexturePack.Ktx2
import TexturePack.Transcoder
import TexturePack.KtxLibrary
import TexturePack.Binary64
import TexturePack.Shortest
import TexturePack.Json
import TexturePack.Json.Parser
import TexturePack.Json.Printer
import TexturePack.Config
import TexturePack.Files.FileSystem
import TexturePack.Files.Directory
import TexturePack.Files.Archive.EndRecord
import TexturePack.Files.Archive.Entry
import TexturePack.Files.Archive
import TexturePack.Timeout
import TexturePack.Request
import TexturePack.LevelCache
import TexturePack.Registry
import TexturePack.Readback
import TexturePack.Load.Chain
import TexturePack.Load.FileHeader
import TexturePack.Load.Candidate
import TexturePack.Load
import TexturePack.Texture
import TexturePack.Waitable
import TexturePack.Host.Basic
import TexturePack.Host.Decode
import TexturePack.Host.Owner
import TexturePack.Host
import TexturePack.Executor
import TexturePack.Session
import TexturePack.Probe
import TexturePack.Config.Store
import TexturePack.Probe.Arguments
import TexturePack.Main
import TexturePack.Proofs.LevelData
import TexturePack.Proofs.LevelCache
import TexturePack.Proofs.Registry
import TexturePack.Proofs.Bytes
import TexturePack.Proofs.Stream
import TexturePack.Proofs.Image
import TexturePack.Proofs.Load.Harvest
import TexturePack.Proofs.Load.Sizes
import TexturePack.Proofs.Load.Scaling
import TexturePack.Proofs.Load.Walk
import TexturePack.Proofs.Load.Agreement
import TexturePack.Proofs.Load.Presence
import TexturePack.Proofs.Load.Reload
import TexturePack.Proofs.Load.Filling
import TexturePack.Proofs.Load.Interruption
import TexturePack.Proofs.Load.Course
import TexturePack.Proofs.Load.Residue
import TexturePack.Proofs.Load.Classification
import TexturePack.Proofs.Load.Formats
import TexturePack.Proofs.Load.Pyramid
import TexturePack.Proofs.Load.Truncation
import TexturePack.Proofs.Load.Ledger
import TexturePack.Proofs.Host.Action
import TexturePack.Proofs.Host.Lifecycle
import TexturePack.Proofs.Host.Readiness
import TexturePack.Proofs.Host.Loads
import TexturePack.Proofs.Host.References
import TexturePack.Proofs.Readback
import TexturePack.Proofs.Readback.Verdict
import TexturePack.Proofs.Host.Entries
import TexturePack.Proofs.Host.Transparency
import TexturePack.Proofs.Host.Serving
import TexturePack.Proofs.Host.Coherence
import TexturePack.Proofs.Host.Search
import TexturePack.Proofs.Host.Exposure
import TexturePack.Proofs.Host.Wholeness
import TexturePack.Proofs.Probe
import TexturePack.Proofs.Pool
import TexturePack.Proofs.Files.Name
import TexturePack.Proofs.Files.Directory
import TexturePack.Proofs.Files.Agreement
import TexturePack.Proofs.Files.Confinement
import TexturePack.Proofs.Load.ImageChain
import TexturePack.Proofs.Ktx2.Parsing
import TexturePack.Proofs.Ktx2.Geometry
import TexturePack.Proofs.Load.Slices
import TexturePack.Proofs.Image.Padding
import TexturePack.Proofs.Image.Placement
import TexturePack.Proofs.Zlib
import TexturePack.Proofs.Zim
import TexturePack.Proofs.Load.Rescaling
import TexturePack.Proofs.Transcoder
import TexturePack.Proofs.KtxLibrary
import TexturePack.Proofs.Binary64
import TexturePack.Proofs.Shortest
import TexturePack.Proofs.Json.Number
import TexturePack.Proofs.Json.Quotation
import TexturePack.Proofs.Json.Value
import TexturePack.Proofs.Files.Saving
import TexturePack.Proofs.Config
