import ObjectBootstrap.Application
import ObjectBootstrap.Build
import ObjectBootstrap.Container
import ObjectBootstrap.Definition.Description
import ObjectBootstrap.Discovery
import ObjectBootstrap.Engine.Lemmas
import ObjectBootstrap.Event
import ObjectBootstrap.Installation
import ObjectBootstrap.Interpreter
import ObjectBootstrap.Json.OfTree
import ObjectBootstrap.Json.Reading
import ObjectBootstrap.Placeholder.Resolve
import ObjectBootstrap.Program
import ObjectBootstrap.Recording.Rehearsal
import ObjectBootstrap.Script.Session
import ObjectBootstrap.Proofs.Chronicle
import ObjectBootstrap.Proofs.Course
import ObjectBootstrap.Proofs.Course.Trails
import ObjectBootstrap.Proofs.Course.Runs
import ObjectBootstrap.Proofs.Course.Stepwise
import ObjectBootstrap.Proofs.Course.Within
import ObjectBootstrap.Proofs.Course.Watched
import ObjectBootstrap.Proofs.Course.Gradual
import ObjectBootstrap.Proofs.Course.Moments
import ObjectBootstrap.Proofs.Course.Asking
import ObjectBootstrap.Proofs.Course.Revisions
import ObjectBootstrap.Proofs.Course.Endings
import ObjectBootstrap.Proofs.Course.Stopping
import ObjectBootstrap.Proofs.Course.Means
import ObjectBootstrap.Proofs.Course.Deeper
import ObjectBootstrap.Proofs.Course.Plans
import ObjectBootstrap.Proofs.Container.Consistency
import ObjectBootstrap.Proofs.Container.Integrity
import ObjectBootstrap.Proofs.Container.Queries
import ObjectBootstrap.Proofs.Container.Standing
import ObjectBootstrap.Proofs.Container.Updates
import ObjectBootstrap.Proofs.Building.Dependencies
import ObjectBootstrap.Proofs.Building.Passing
import ObjectBootstrap.Proofs.Building.Growth
import ObjectBootstrap.Proofs.Building.Exact
import ObjectBootstrap.Proofs.Building.Spared
import ObjectBootstrap.Proofs.Building.Renewal
import ObjectBootstrap.Proofs.Building.Overriding
import ObjectBootstrap.Proofs.Building.Calling
import ObjectBootstrap.Proofs.Building.Identity
import ObjectBootstrap.Proofs.Building.Additive
import ObjectBootstrap.Proofs.Building.Facets
import ObjectBootstrap.Proofs.Building.Listening
import ObjectBootstrap.Proofs.Building.Success
import ObjectBootstrap.Proofs.Building.Pipeline
import ObjectBootstrap.Proofs.Building.Advance
import ObjectBootstrap.Proofs.Building.RootCause
import ObjectBootstrap.Proofs.Order
import ObjectBootstrap.Proofs.Mutation.Calls
import ObjectBootstrap.Proofs.Mutation.Passes
import ObjectBootstrap.Proofs.Mutation.FixedPoint
import ObjectBootstrap.Proofs.Mutation.Order
import ObjectBootstrap.Proofs.Mutation.Search
import ObjectBootstrap.Proofs.Mutation.Bound
import ObjectBootstrap.Proofs.Customization.ExactlyOnce
import ObjectBootstrap.Proofs.Customization.Latecomers
import ObjectBootstrap.Proofs.Customization.Placeholders
import ObjectBootstrap.Proofs.Customization.WholeDefinitions
import ObjectBootstrap.Proofs.Customization.Schedule
import ObjectBootstrap.Proofs.Installation.Tiers
import ObjectBootstrap.Proofs.Installation.ChainOrder
import ObjectBootstrap.Proofs.Installation.Silence
import ObjectBootstrap.Proofs.Installation.Additions
import ObjectBootstrap.Proofs.Installation.Premature
import ObjectBootstrap.Proofs.Installation.Blank
import ObjectBootstrap.Proofs.Installation.Wrapping
import ObjectBootstrap.Proofs.Placeholder.Meaning
import ObjectBootstrap.Proofs.Placeholder.Seams
import ObjectBootstrap.Proofs.Placeholder.Visits
import ObjectBootstrap.Proofs.Placeholder.Defaults
import ObjectBootstrap.Proofs.Placeholder.Slices
import ObjectBootstrap.Proofs.Application.Needs
import ObjectBootstrap.Proofs.Application.Phases
import ObjectBootstrap.Proofs.Application.Attended
import ObjectBootstrap.Proofs.Application.Interception
import ObjectBootstrap.Proofs.Application.Listeners
import ObjectBootstrap.Proofs.Application.Subscriptions
import ObjectBootstrap.Proofs.Application.Delivery
import ObjectBootstrap.Proofs.Building.Detection
import ObjectBootstrap.Proofs.Building.Collapse
import ObjectBootstrap.Proofs.Application.FailFast
import ObjectBootstrap.Proofs.Recording.Entries
import ObjectBootstrap.Proofs.Recording.Walks
