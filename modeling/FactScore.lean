import FactScore.Analysis
import FactScore.Dict.Lemmas
import FactScore.Proofs.Graph.Growth
import FactScore.Spec.Builtin
import FactScore.Spec.Format
import FactScore.Proofs.Graph.Refinement
import FactScore.Proofs.Graph.Coherence
import FactScore.Proofs.Graph.Denotation
import FactScore.Proofs.Graph.RequestOrder
import FactScore.Proofs.Scoring.Accounts
import FactScore.Proofs.Macro.Gate
import FactScore.Proofs.Spec.Composition
import FactScore.Proofs.Format.Specs
import FactScore.Proofs.Graph.Reports
import FactScore.Proofs.Graph.History
import FactScore.Proofs.Graph.Consistency
import FactScore.Proofs.Graph.Suspension
import FactScore.Proofs.Graph.Termination
import FactScore.Proofs.Graph.Fallbacks
import FactScore.Proofs.Scoring.Locality
import FactScore.Proofs.Graph.Publication
import FactScore.Proofs.Macro.Explanation
import FactScore.Proofs.Scoring.Policies
import FactScore.Proofs.Analysis.Stages
import FactScore.Proofs.Spec.UniqueIds
import FactScore.Proofs.Format.Facts
import FactScore.Proofs.Macro.Penalty
import FactScore.Proofs.Context.Merging
import FactScore.Proofs.Macro.Enumeration
import FactScore.Proofs.Expr.Grammar
import FactScore.Proofs.Expr.Culprits
import FactScore.Proofs.Template.Pieces
import FactScore.Proofs.Scoring.Ranking
import FactScore.Proofs.Graph.Lineage
import FactScore.Proofs.Graph.Extension
import FactScore.Proofs.Graph.Locality
import FactScore.Proofs.Expr.Division
