import Patchwork.Main
import Patchwork.Proofs.Evaluation.Substitution
import Patchwork.Proofs.Entries
import Patchwork.Proofs.Record.Content
import Patchwork.Proofs.Merge.Accounting
import Patchwork.Proofs.Merge.LoadOrder
import Patchwork.Proofs.Merge.Identities
import Patchwork.Proofs.Merge.LastWriter
import Patchwork.Proofs.Record.Pool
import Patchwork.Proofs.Merge.LoadedLast
import Patchwork.Proofs.Remerge.Placed
import Patchwork.Proofs.Remerge.Mirrors
import Patchwork.Proofs.Remerge.Operations
import Patchwork.Proofs.Mod.Yields
import Patchwork.Proofs.Remerge.Baseline
import Patchwork.Proofs.Remerge.StoreCalls
import Patchwork.Proofs.Agreement
import Patchwork.Proofs.Relocation.Marks
import Patchwork.Proofs.Relocation.Contents
import Patchwork.Proofs.Relocation.Values
import Patchwork.Proofs.Relocation.Operators
import Patchwork.Proofs.Relocation.Store
import Patchwork.Proofs.Relocation.Merging
import Patchwork.Proofs.Relocation.Worlds
import Patchwork.Proofs.Relocation.Calls
import Patchwork.Proofs.Relocation.Procedures
import Patchwork.Proofs.Relocation.Evaluation
import Patchwork.Proofs.Relocation.Reading
import Patchwork.Proofs.Relocation.Cursors
import Patchwork.Proofs.Relocation.Runs
import Patchwork.Proofs.Mod.StoreRuns
import Patchwork.Proofs.Mod.Failures
import Patchwork.Proofs.Mod.SavedMods
import Patchwork.Proofs.Mod.Documents
import Patchwork.Proofs.Mod.FieldTexts
import Patchwork.Proofs.Relocation.Scripts
import Patchwork.Proofs.Relocation.Gathering
import Patchwork.Proofs.Runs.LoadedMods
import Patchwork.Proofs.Runs.History
import Patchwork.Proofs.Runs.Outcomes
import Patchwork.Proofs.Runs.Bindings
import Patchwork.Proofs.Runs.Extraction
import Patchwork.Proofs.Runs.Queries
import Patchwork.Proofs.Environments
import Patchwork.Proofs.Evaluation.Outcomes
import Patchwork.Proofs.Expression.Closure
import Patchwork.Proofs.Provenance.Groups
import Patchwork.Proofs.Provenance.Origins
import Patchwork.Proofs.Provenance.Store
import Patchwork.Proofs.Provenance.Deeds
import Patchwork.Proofs.Provenance.Headers
import Patchwork.Proofs.Provenance.Proceedings
import Patchwork.Proofs.Provenance.Calls
import Patchwork.Proofs.Provenance.Procedures
import Patchwork.Proofs.Provenance.Evaluation
import Patchwork.Proofs.Provenance.Queries
import Patchwork.Proofs.Provenance.Runs
import Patchwork.Proofs.Provenance.Coverage
import Patchwork.Proofs.Trails.Moves
import Patchwork.Proofs.Trails.Rules
import Patchwork.Proofs.Trails.Keeping
import Patchwork.Proofs.Trails.Calls
import Patchwork.Proofs.Trails.Procedures
import Patchwork.Proofs.Trails.Evaluation
import Patchwork.Proofs.Trails.Lines
import Patchwork.Proofs.Trails.Soundness
import Patchwork.Proofs.Trails.Edits
import Patchwork.Proofs.Trails.Apart
import Patchwork.Proofs.Trails.Schemas
import Patchwork.Proofs.Trails.Visibility
import Patchwork.Proofs.Expression.Rereading
import Patchwork.Proofs.Expression.Operands
import Patchwork.Proofs.Expression.Climbing
import Patchwork.Proofs.Expression.Queries
import Patchwork.Proofs.Token.Cutting
import Patchwork.Proofs.Token.Lexemes
import Patchwork.Proofs.Token.Spacing
import Patchwork.Proofs.Token.Stopping
import Patchwork.Proofs.Expression.RoundTrip
import Patchwork.Proofs.Workspace.Repetition
import Patchwork.Proofs.Expression.Meanings
import Patchwork.Proofs.Expression.Pipes
import Patchwork.Proofs.Evaluation.Depth
import Patchwork.Proofs.Runs.DefinedNames
import Patchwork.Proofs.Runs.TableEntries
import Patchwork.Proofs.Runs.Chains
import Patchwork.Proofs.Likeness.Alike
import Patchwork.Proofs.Likeness.Values
import Patchwork.Proofs.Likeness.Calls
import Patchwork.Proofs.Likeness.Evaluation
import Patchwork.Proofs.Expression.LambdaTexts
import Patchwork.Proofs.Likeness.Shadowing
import Patchwork.Proofs.Signs.Folding
import Patchwork.Proofs.Signs.Numbers
import Patchwork.Proofs.Signs.Scanning
import Patchwork.Proofs.Signs.Meaning
import Patchwork.Proofs.Signs.Trees
import Patchwork.Proofs.Signs.Reading
import Patchwork.Proofs.Signs.Respelling
import Patchwork.Proofs.FieldSetting.Quiet
import Patchwork.Proofs.FieldSetting.Shifting
import Patchwork.Proofs.Horizon.Calls
import Patchwork.Proofs.Horizon.Evaluation
import Patchwork.Proofs.Horizon.Runs
import Patchwork.Proofs.Mod.Amendments
import Patchwork.Proofs.Mod.Clones
import Patchwork.Proofs.Mod.Piping
import Patchwork.Proofs.FieldSetting.Writing
import Patchwork.Proofs.FieldSetting.Together
import Patchwork.Proofs.FieldSetting.Accumulating
import Patchwork.Proofs.FieldSetting.Folding
import Patchwork.Proofs.Linking.Adding
import Patchwork.Proofs.Linking.Editing
import Patchwork.Proofs.Number.Nearest
import Patchwork.Proofs.Evaluation.Equality
import Patchwork.Proofs.Evaluation.Integers
import Patchwork.Proofs.Evaluation.Extremes
import Patchwork.Proofs.Workspace.Copies
import Patchwork.Proofs.Runs.Redefinition
import Patchwork.Proofs.Evaluation.Termination
