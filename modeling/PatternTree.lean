import PatternTree.Pattern
import PatternTree.Proofs.Scan.Outline
import PatternTree.Proofs.Scan.RoundTrip
import PatternTree.Proofs.Scan.Shape
import PatternTree.Proofs.Scan.Writing
import PatternTree.Proofs.Text
import PatternTree.Proofs.Tree.Extension
import PatternTree.Proofs.Scan.Extension
import PatternTree.Proofs.Scan.Draft
import PatternTree.Proofs.Scan.Numbering
import PatternTree.Proofs.Tree.Evidence
import PatternTree.Proofs.Scan.Evidence
import PatternTree.Proofs.Tree.Shift
import PatternTree.Proofs.Scan.Lead
import PatternTree.Proofs.Limits
import PatternTree.Proofs.Scan.Ending
import PatternTree.Proofs.Scan.Boundary
import PatternTree.Proofs.Tree.Weight
import PatternTree.Proofs.Scan.Calls
import PatternTree.Proofs.Scan.Nesting
import PatternTree.Proofs.CharClass.NamedSet
import PatternTree.Proofs.Scan.Braces
import PatternTree.Proofs.Scan.Progress
import PatternTree.Proofs.CharClass.Ranges
import PatternTree.Proofs.CharClass.RoundTrip
import PatternTree.Proofs.CharClass.Listing
import PatternTree.Proofs.Quantifier.Bounds
import PatternTree.Proofs.Escape.Spelling
import PatternTree.Proofs.Guarded.Descent
