import BusinessRules.Engine.Dispatch
import BusinessRules.Engine.Loading
import BusinessRules.File.Rules
import BusinessRules.Proofs.Decimal.Rounding
import BusinessRules.Proofs.Decimal.Addition
import BusinessRules.Proofs.Decimal.Division
import BusinessRules.Proofs.Decimal.Written
import BusinessRules.Proofs.Expression.Flat
import BusinessRules.Proofs.Expression.Refinement
import BusinessRules.Proofs.Expression.Logic
import BusinessRules.Proofs.Expression.Stray
import BusinessRules.Proofs.Expression.Acceptance
import BusinessRules.Proofs.Expression.Inertness
import BusinessRules.Proofs.Expression.Compound
import BusinessRules.Proofs.Expression.Enclosure
import BusinessRules.Proofs.Expression.Touching
import BusinessRules.Proofs.Expression.Exact
import BusinessRules.Proofs.Rule.Matching
import BusinessRules.Proofs.Rule.Ending
import BusinessRules.Proofs.Rule.Iteration
import BusinessRules.Proofs.Engine.Isolation
import BusinessRules.Proofs.Engine.History
import BusinessRules.Proofs.Engine.Exchange
import BusinessRules.Proofs.Rule.Binding
import BusinessRules.Proofs.Rule.Transparency
import BusinessRules.Proofs.Engine.Compiled
import BusinessRules.Proofs.Engine.Removal
import BusinessRules.Proofs.Engine.Batch
import BusinessRules.Proofs.Engine.Trace
import BusinessRules.Proofs.Engine.Observers
import BusinessRules.Proofs.Engine.Asynchrony
import BusinessRules.Proofs.Document.Draft
import BusinessRules.Proofs.Document.Spelling
import BusinessRules.Proofs.Engine.Naming
import BusinessRules.Proofs.Document.Accepted
import BusinessRules.Proofs.Document.Json
import BusinessRules.Proofs.Document.Taxonomy
import BusinessRules.Proofs.File.Folder
import BusinessRules.Proofs.Document.Yaml.Node
import BusinessRules.Proofs.Value.Order
import BusinessRules.Proofs.Value.Homogeneous
import BusinessRules.Proofs.Value.Literal
import BusinessRules.Proofs.Rule.Representation
import BusinessRules.Proofs.Expression.Masking
import BusinessRules.Proofs.Expression.Termination
import BusinessRules.Proofs.Rule.Updates
