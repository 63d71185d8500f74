import TigerCheck.CommandLine.Directory
import TigerCheck.Main
import TigerCheck.Tree.Encode
import TigerCheck.Tree.Outline
import TigerCheck.Tree.Postfix
import TigerCheck.Ty.Encode
import TigerCheck.Proofs.Ty.Same
import TigerCheck.Proofs.Yields
import TigerCheck.Proofs.TypeName.Resolves
import TigerCheck.Proofs.TypeName.Building
import TigerCheck.Proofs.TypeName.Total
import TigerCheck.Proofs.Walk.Run
import TigerCheck.Proofs.TypeName.Run
import TigerCheck.Proofs.Frame
import TigerCheck.Proofs.Tree.Induction
import TigerCheck.Proofs.Walk.Rule
import TigerCheck.Proofs.Access
import TigerCheck.Proofs.Poison
import TigerCheck.Proofs.WellTyped
import TigerCheck.Proofs.Session
import TigerCheck.Proofs.Failure
import TigerCheck.Proofs.Tame.Action
import TigerCheck.Proofs.Tame.TypeName
import TigerCheck.Proofs.Tame.Rule
import TigerCheck.Proofs.Tame.Walk
import TigerCheck.Proofs.Resolution
import TigerCheck.Proofs.Handoff
import TigerCheck.Proofs.Coverage
import TigerCheck.Proofs.Tree.Cells
import TigerCheck.Proofs.Tree.Reordered
import TigerCheck.Proofs.Twin.Decs
import TigerCheck.Proofs.Isolation
import TigerCheck.Proofs.Reordering
import TigerCheck.Proofs.Jumps
import TigerCheck.Proofs.Annotations
import TigerCheck.Proofs.Final
import TigerCheck.Proofs.Namespaces
import TigerCheck.Proofs.Containment
import TigerCheck.Proofs.Flow
import TigerCheck.Proofs.Ty.Unfolding
import TigerCheck.Proofs.RoundTrip
import TigerCheck.Proofs.Presentation
import TigerCheck.Proofs.Ty.Matches
import TigerCheck.Proofs.Restores
import TigerCheck.Proofs.Reports
import TigerCheck.Proofs.Repeats
import TigerCheck.Proofs.Operations
import TigerCheck.Proofs.Ty.Growth
import TigerCheck.Proofs.Scope.History
import TigerCheck.Proofs.Frame.Partition
import TigerCheck.Proofs.Respelled
import TigerCheck.Proofs.Tree.Runs
import TigerCheck.Proofs.TypeName.Ends
import TigerCheck.Proofs.MainFrame
