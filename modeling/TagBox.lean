import TagBox.Main
import TagBox.Proofs.Extent
import TagBox.Proofs.Locality
import TagBox.Proofs.Nesting
import TagBox.Proofs.Lexing
import TagBox.Proofs.Bytes
import TagBox.Proofs.Groups
import TagBox.Proofs.Hugging
import TagBox.Proofs.Weave
import TagBox.Proofs.Script
import TagBox.Proofs.Boxed
import TagBox.Proofs.Migration
import TagBox.Proofs.Stability
import TagBox.Proofs.Outline
import TagBox.Proofs.Halves
import TagBox.Proofs.Sites
import TagBox.Proofs.Rereading
import TagBox.Proofs.Revision
import TagBox.Proofs.Frame
import TagBox.Proofs.Trees
import TagBox.Proofs.Seam
import TagBox.Proofs.Failures
import TagBox.Proofs.Places
import TagBox.Proofs.Visits
import TagBox.Proofs.Runs
import TagBox.Proofs.Removal
import TagBox.Proofs.Strands
import TagBox.Proofs.Unwrapping
import TagBox.Proofs.Settling
import TagBox.Proofs.Markers
import TagBox.Proofs.Expression
import TagBox.Proofs.Endings
import TagBox.Proofs.Spacing
import TagBox.Proofs.Braces
import TagBox.Proofs.Matching
import TagBox.Proofs.Lines
import TagBox.Proofs.Patterns
import TagBox.Proofs.Quotes
import TagBox.Proofs.Longest
import TagBox.Proofs.Grammar
import TagBox.Proofs.Layout
import TagBox.Proofs.Growth
import TagBox.Proofs.Reprinting
