import UnitLoader.Config
import UnitLoader.Fault
import UnitLoader.Files.Tree
import UnitLoader.Main
import UnitLoader.Proofs.Accounting
import UnitLoader.Proofs.Addressing
import UnitLoader.Proofs.AllOrNothing
import UnitLoader.Proofs.Blocking
import UnitLoader.Proofs.Bookkeeping
import UnitLoader.Proofs.Borrowing
import UnitLoader.Proofs.Chronicle
import UnitLoader.Proofs.CleanSlate
import UnitLoader.Proofs.Containment
import UnitLoader.Proofs.Fates
import UnitLoader.Proofs.Integrity
import UnitLoader.Proofs.Lasting
import UnitLoader.Proofs.Launching
import UnitLoader.Proofs.Lowerable
import UnitLoader.Proofs.Meaning
import UnitLoader.Proofs.Modes
import UnitLoader.Proofs.Namesakes
import UnitLoader.Proofs.Numbering
import UnitLoader.Proofs.Once
import UnitLoader.Proofs.OneOrder
import UnitLoader.Proofs.Onward
import UnitLoader.Proofs.Parsing
import UnitLoader.Proofs.Persistence
import UnitLoader.Proofs.Plain
import UnitLoader.Proofs.Polling
import UnitLoader.Proofs.Referrers
import UnitLoader.Proofs.Reordering
import UnitLoader.Proofs.Resolving
import UnitLoader.Proofs.Results
import UnitLoader.Proofs.Returns
import UnitLoader.Proofs.Steady
import UnitLoader.Proofs.Substance
import UnitLoader.Proofs.Topological
import UnitLoader.Proofs.Transforming
import UnitLoader.Proofs.Turns
import UnitLoader.Proofs.Verdict
import UnitLoader.Proofs.Visiting
import UnitLoader.Proofs.WellFormed
