import GetSet.Main
import GetSet.Session
import GetSet.Tree.Change
import GetSet.Proofs.Tree.Descent
import GetSet.Proofs.Action.Effect
import GetSet.Proofs.Tree.Directories
import GetSet.Proofs.Tree.Purpose
import GetSet.Proofs.Run.Course
import GetSet.Proofs.Run.Frame
import GetSet.Proofs.Run.Split
import GetSet.Proofs.Run.Accounting
import GetSet.Proofs.Document.Readback
import GetSet.Proofs.Command.Setup
import GetSet.Proofs.Tree.Reach
import GetSet.Proofs.Run.Again
import GetSet.Proofs.Command.Convergence
import GetSet.Proofs.Tag.Grammar
import GetSet.Proofs.Declaration.Grammar
import GetSet.Proofs.Run.Opening
import GetSet.Proofs.Run.Repeat
import GetSet.Proofs.Run.Agreement
import GetSet.Proofs.Source.Append
import GetSet.Proofs.Template.Substitution
import GetSet.Proofs.Document.Increment
import GetSet.Proofs.Document.Shape
import GetSet.Proofs.Document.Members
import GetSet.Proofs.Text.Bytes
import GetSet.Proofs.Tree.Order
import GetSet.Proofs.Path.Extension
import GetSet.Proofs.Collector.Files
import GetSet.Proofs.Template.Loading
import GetSet.Proofs.Action.Reporting
import GetSet.Proofs.Command.Failure
import GetSet.Proofs.Run.Log
import GetSet.Proofs.Session.Course
import GetSet.Proofs.Run.Collision
import GetSet.Proofs.Name.Rule
import GetSet.Proofs.Name.Forms
import GetSet.Proofs.Name.Fixpoint
import GetSet.Proofs.Run.Regeneration
import GetSet.Proofs.Command.Regeneration
import GetSet.Proofs.Name.Style
import GetSet.Proofs.Source.LineEnds
import GetSet.Proofs.Source.Account
import GetSet.Proofs.Accessor.Forms
import GetSet.Proofs.Accessor.Types
import GetSet.Proofs.Document.Additive
import GetSet.Proofs.Writer.Targets
import GetSet.Proofs.Writer.Outcome
import GetSet.Proofs.Template.Modes
import GetSet.Proofs.Collector.Expansion
import GetSet.Proofs.Options.Forms
import GetSet.Proofs.Run.Traversal
