import Daedalus.Main
import Daedalus.Command.Disk
import Daedalus.Proofs.Structured.Exact
import Daedalus.Proofs.Parameters
import Daedalus.Proofs.Image.Takes
import Daedalus.Proofs.Image.Storable
import Daedalus.Proofs.Image.RoundTrip
import Daedalus.Proofs.Calls
import Daedalus.Proofs.Progress
import Daedalus.Proofs.ActiveInstance
import Daedalus.Proofs.Nesting.Expressions
import Daedalus.Proofs.Nesting.Gathered
import Daedalus.Proofs.Nesting.Lines
import Daedalus.Proofs.Image.Truncation
import Daedalus.Proofs.SideBySide
import Daedalus.Proofs.Dependence
import Daedalus.Proofs.Limits
import Daedalus.Proofs.Postfix
import Daedalus.Proofs.SourceFiles
import Daedalus.Proofs.ListingEnd
import Daedalus.Proofs.ListingLines
import Daedalus.Proofs.ListingCover
import Daedalus.Proofs.Structured.Unambiguous
import Daedalus.Proofs.TakenOnce
import Daedalus.Proofs.Indentation
import Daedalus.Proofs.Disk.Written
import Daedalus.Proofs.EntryPoints
import Daedalus.Proofs.Locals
import Daedalus.Proofs.Attribution
import Daedalus.Proofs.Extent
import Daedalus.Proofs.TableScan
import Daedalus.Proofs.Rendering
