import SchemaUnfolding.Main
import SchemaUnfolding.Json.Parser
import SchemaUnfolding.Json.Printer
import SchemaUnfolding.Schema.OfJson
import SchemaUnfolding.Schema.ToJson
import SchemaUnfolding.Proofs.Generation.Safety
import SchemaUnfolding.Proofs.Unfolding.Exact
import SchemaUnfolding.Proofs.Arguments.Exact
import SchemaUnfolding.Proofs.Edges.Repeated
import SchemaUnfolding.Proofs.Sdl.Spelling
import SchemaUnfolding.Proofs.Executable.Brackets
import SchemaUnfolding.Proofs.Layout.Braces
import SchemaUnfolding.Proofs.Layout.Documents
import SchemaUnfolding.Proofs.Executable.Printed
import SchemaUnfolding.Proofs.Executable.Exact
import SchemaUnfolding.Proofs.Expansion.Nodes
import SchemaUnfolding.Proofs.Expansion.Recursion
import SchemaUnfolding.Proofs.Layout.Bounded
import SchemaUnfolding.Proofs.Interfaces.Aliases
import SchemaUnfolding.Proofs.Interfaces.Leaves
import SchemaUnfolding.Proofs.Assembly.Order
import SchemaUnfolding.Proofs.Assembly.Reordering
import SchemaUnfolding.Proofs.Assembly.SharedRoots
import SchemaUnfolding.Proofs.Schema.Consistent
import SchemaUnfolding.Proofs.Schema.Breaches
import SchemaUnfolding.Proofs.Publication.Writes
import SchemaUnfolding.Proofs.Publication.ReadBack
import SchemaUnfolding.Proofs.Generation.Dependence
import SchemaUnfolding.Proofs.Suppression.Pruned
import SchemaUnfolding.Proofs.Suppression.Subtree
import SchemaUnfolding.Proofs.Suppression.Documents
import SchemaUnfolding.Proofs.Unions.Fragments
import SchemaUnfolding.Proofs.Unions.Merging
import SchemaUnfolding.Proofs.Json.Text
import SchemaUnfolding.Proofs.Json.Records
import SchemaUnfolding.Proofs.Json.Schemas
import SchemaUnfolding.Proofs.Sdl.Items
import SchemaUnfolding.Proofs.Sdl.Reading
import SchemaUnfolding.Proofs.Assembly.Origins
import SchemaUnfolding.Proofs.Json.Built
import SchemaUnfolding.Proofs.Expansion.Growth
import SchemaUnfolding.Proofs.Edges.Keys
import SchemaUnfolding.Proofs.Edges.Overlapping
import SchemaUnfolding.Proofs.Edges.Exact
import SchemaUnfolding.Proofs.Interfaces.Standing
import SchemaUnfolding.Proofs.Interfaces.Depths
import SchemaUnfolding.Proofs.Suppression.Limits
import SchemaUnfolding.Proofs.Arguments.Naming
import SchemaUnfolding.Proofs.Schema.Spelling
import SchemaUnfolding.Proofs.Interfaces.Conflicts
import SchemaUnfolding.Proofs.Generation.Keywords
import SchemaUnfolding.Proofs.Discovery.Exact
import SchemaUnfolding.Proofs.Commands
