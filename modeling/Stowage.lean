import Stowage.Archetype.Stock
import Stowage.Container.ShiftClick
import Stowage.Lifecycle
import Stowage.Proofs.Admission
import Stowage.Proofs.Agreement
import Stowage.Proofs.Ancestry
import Stowage.Proofs.Announcements
import Stowage.Proofs.Answers
import Stowage.Proofs.Archetype.Made
import Stowage.Proofs.Archetype.Registration
import Stowage.Proofs.Archetype.Rows
import Stowage.Proofs.Archetype.Tiling
import Stowage.Proofs.Archetype.WellFormed
import Stowage.Proofs.ArenaHistory
import Stowage.Proofs.Arithmetic
import Stowage.Proofs.Bystanders
import Stowage.Proofs.Changes
import Stowage.Proofs.Commits
import Stowage.Proofs.Conservation
import Stowage.Proofs.Container.Audience
import Stowage.Proofs.Container.Clicks
import Stowage.Proofs.Container.Cursor
import Stowage.Proofs.Container.Directions
import Stowage.Proofs.Container.Gear
import Stowage.Proofs.Container.Sessions
import Stowage.Proofs.Container.Wires
import Stowage.Proofs.Contents
import Stowage.Proofs.Diffs
import Stowage.Proofs.Dispatches
import Stowage.Proofs.EmptyStacks
import Stowage.Proofs.Events
import Stowage.Proofs.Failures
import Stowage.Proofs.FixedShapes
import Stowage.Proofs.Forest.Designs
import Stowage.Proofs.Forest.Framing
import Stowage.Proofs.Forest.Furnishing
import Stowage.Proofs.Forest.Growth
import Stowage.Proofs.Forest.Instances
import Stowage.Proofs.Forest.Orders
import Stowage.Proofs.Forest.Outermost
import Stowage.Proofs.Forest.Removal
import Stowage.Proofs.Forest.Roots
import Stowage.Proofs.Forest.Titles
import Stowage.Proofs.Forest.Walks
import Stowage.Proofs.Forest.Ways
import Stowage.Proofs.GridArithmetic
import Stowage.Proofs.Grids
import Stowage.Proofs.HonestRuns
import Stowage.Proofs.Instances
import Stowage.Proofs.Isolation
import Stowage.Proofs.Legality
import Stowage.Proofs.Lifetimes
import Stowage.Proofs.ListenerLives
import Stowage.Proofs.Listeners
import Stowage.Proofs.Messages
import Stowage.Proofs.Moves
import Stowage.Proofs.Narrowing
import Stowage.Proofs.Notices
import Stowage.Proofs.OfferPriority
import Stowage.Proofs.OfferShares
import Stowage.Proofs.Offers
import Stowage.Proofs.OneContainer
import Stowage.Proofs.Operation
import Stowage.Proofs.OutermostMatches
import Stowage.Proofs.Pairs
import Stowage.Proofs.PollShares
import Stowage.Proofs.PropertyOrder
import Stowage.Proofs.Queries
import Stowage.Proofs.References
import Stowage.Proofs.Refusals
import Stowage.Proofs.Replicas
import Stowage.Proofs.Reports
import Stowage.Proofs.RoundTrips
import Stowage.Proofs.Seniority
import Stowage.Proofs.ShapeProperties
import Stowage.Proofs.Shares
import Stowage.Proofs.Shelf
import Stowage.Proofs.SlotOrders
import Stowage.Proofs.StaleHandles
import Stowage.Proofs.State
import Stowage.Proofs.Step
import Stowage.Proofs.Traversals
import Stowage.Proofs.TwinRuns
import Stowage.Proofs.Undoing
import Stowage.Proofs.Units
import Stowage.Proofs.ViewUnions
import Stowage.Proofs.Views
import Stowage.Proofs.Visits
import Stowage.Proofs.Written.ReadingBack
import Stowage.Written.Containers
