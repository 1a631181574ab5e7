import ColumnFormula.Main
import ColumnFormula.Proofs.Custody
import ColumnFormula.Proofs.Naming
import ColumnFormula.Proofs.Overwriting
import ColumnFormula.Proofs.Acceptance
import ColumnFormula.Proofs.Replay
import ColumnFormula.Proofs.Kinds
import ColumnFormula.Proofs.Footprint
import ColumnFormula.Proofs.RowWise
import ColumnFormula.Proofs.Presence
import ColumnFormula.Proofs.Blame
import ColumnFormula.Proofs.Commutation
import ColumnFormula.Proofs.Resolution
import ColumnFormula.Proofs.Relocation
import ColumnFormula.Proofs.Application
import ColumnFormula.Proofs.Editing
import ColumnFormula.Proofs.Literals
import ColumnFormula.Proofs.Sameness
import ColumnFormula.Proofs.Provenance
import ColumnFormula.Proofs.Seeding
import ColumnFormula.Proofs.Conformity
import ColumnFormula.Proofs.SeedTexts
import ColumnFormula.Proofs.WriteOrder
import ColumnFormula.Proofs.Extremes
import ColumnFormula.Proofs.Places
import ColumnFormula.Proofs.Worth
import ColumnFormula.Proofs.Lookup
import ColumnFormula.Proofs.Gaps
import ColumnFormula.Proofs.BrokenPowers
import ColumnFormula.Proofs.Arguments
