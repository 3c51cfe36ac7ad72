import LSystem.Main
import LSystem.Proofs.Animation.Tick
import LSystem.Proofs.Grammar.Derivation
import LSystem.Proofs.Animation.Session
import LSystem.Proofs.Animation.Modes
import LSystem.Proofs.Config.Failure
import LSystem.Proofs.Animation.Freshness
import LSystem.Proofs.Turtle.Trace
import LSystem.Proofs.Paint.Acceptance
import LSystem.Proofs.Animation.Trails
import LSystem.Proofs.Animation.Cycle
import LSystem.Proofs.Animation.Timing
import LSystem.Proofs.Turtle.Exact
import LSystem.Proofs.Turtle.Fit
import LSystem.Proofs.Grammar.Nesting
import LSystem.Proofs.Turtle.Follow
import LSystem.Proofs.Turtle.Branches
import LSystem.Proofs.Cancellable
import LSystem.Proofs.Grammar.Cancellation
import LSystem.Proofs.Animation.Delivery
import LSystem.Proofs.Grammar.RuleText
import LSystem.Proofs.Grammar.References
import LSystem.Proofs.Grammar.Catalogue
import LSystem.Proofs.Config.Requirements
import LSystem.Proofs.Animation.Readiness
import LSystem.Proofs.Animation.Rehearsal
import LSystem.Proofs.Animation.Phases
import LSystem.Proofs.Json.Quoted
import LSystem.Proofs.Json.Numeral
import LSystem.Proofs.Json.Token
import LSystem.Proofs.Json.Reader
import LSystem.Proofs.Json.Value
import LSystem.Proofs.Config.Json
import LSystem.Proofs.Double
import LSystem.Proofs.Turtle.ScriptJson
import LSystem.Proofs.Grammar.Numbers
import LSystem.Proofs.Grammar.Enclosure
import LSystem.Proofs.Turtle.Erasure
import LSystem.Proofs.Turtle.Stream
import LSystem.Proofs.Grammar.Checkpoints
import LSystem.Proofs.Grammar.Generations
import LSystem.Proofs.Animation.Losses
import LSystem.Proofs.Animation.Restart
import LSystem.Proofs.Grammar.RuleForm
import LSystem.Proofs.Turtle.Stretch
import LSystem.Proofs.Turtle.Hilbert
import LSystem.Proofs.Grammar.Uniqueness
import LSystem.Proofs.Turtle.Centered
import LSystem.Proofs.Animation.Batches
import LSystem.Proofs.Picture.Straight
import LSystem.Proofs.Picture.Lookup
import LSystem.Proofs.CommandLine.Size
import LSystem.Proofs.Config.Field
import LSystem.Proofs.Config.Overrides
