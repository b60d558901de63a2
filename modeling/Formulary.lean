import Formulary.Main
import Formulary.Expr.Render
import Formulary.Proofs.ViablePrefix
import Formulary.Proofs.NumberText
import Formulary.Proofs.Separation
import Formulary.Proofs.Tiling
import Formulary.Proofs.Renderable
import Formulary.Proofs.Rendering
import Formulary.Proofs.RoundTrip
import Formulary.Proofs.Course
import Formulary.Proofs.Raising
import Formulary.Proofs.FailureMarks
import Formulary.Proofs.CallOrder
import Formulary.Proofs.Reasons
import Formulary.Proofs.Places
import Formulary.Proofs.Excerpts
import Formulary.Proofs.NumberCoercion
import Formulary.Proofs.ShortestText
import Formulary.Proofs.Streams
import Formulary.Proofs.CommandResults
import Formulary.Proofs.Dependence
import Formulary.Proofs.Substitution
import Formulary.Proofs.Listings
import Formulary.Proofs.Dumps
import Formulary.Proofs.CommandLines
import Formulary.Proofs.Paths
import Formulary.Proofs.ProjectRoots
import Formulary.Proofs.ByteOrderMarks
import Formulary.Proofs.CorrectRounding
import Formulary.Proofs.NumeralTexts
import Formulary.Proofs.Layout
import Formulary.Proofs.Composition
import Formulary.Proofs.StringValidity
import Formulary.Proofs.Indexing
import Formulary.Proofs.ValidValues
import Formulary.Proofs.NodeTypes
import Formulary.Proofs.Provenance
import Formulary.Proofs.BlankLines
import Formulary.Proofs.LineEndings
import Formulary.Proofs.RequestedSources
import Formulary.Proofs.GrowingSources
import Formulary.Proofs.HalfUp
import Formulary.Proofs.Printing
import Formulary.Proofs.StrictEquality
import Formulary.Proofs.Consumption
import Formulary.Proofs.TidyNumerals
import Formulary.Proofs.IndexKeys
