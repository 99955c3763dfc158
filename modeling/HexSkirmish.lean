import HexSkirmish.Layout.Plane
import HexSkirmish.Tile
import HexSkirmish.Actor
import HexSkirmish.Card
import HexSkirmish.Phase
import HexSkirmish.Route
import HexSkirmish.Grid
import HexSkirmish.Turn
import HexSkirmish.Decimal.Reading
import HexSkirmish.Json
import HexSkirmish.Json.Reader
import HexSkirmish.Json.Writer
import HexSkirmish.Battle
import HexSkirmish.Locomotion
import HexSkirmish.MapText
import HexSkirmish.Script
import HexSkirmish.Battle.ConfigJson
import HexSkirmish.Bytes
import HexSkirmish.Battle.ConfigToml
import HexSkirmish.CommandLine
import HexSkirmish.Main
import HexSkirmish.Locomotion.Playback
import HexSkirmish.Proofs.Frontier
import HexSkirmish.Proofs.ShortestRoutes
import HexSkirmish.Proofs.DistanceFields
import HexSkirmish.Proofs.Numbering
import HexSkirmish.Proofs.Traversals
import HexSkirmish.Proofs.Tiles
import HexSkirmish.Proofs.Edges
import HexSkirmish.Proofs.Routing
import HexSkirmish.Proofs.Ways
import HexSkirmish.Proofs.FlowBuffers
import HexSkirmish.Proofs.Roster
import HexSkirmish.Proofs.Commands
import HexSkirmish.Proofs.Wandering
import HexSkirmish.Proofs.Turns
import HexSkirmish.Proofs.Occupancy
import HexSkirmish.Proofs.Setup
import HexSkirmish.Proofs.Campaign
import HexSkirmish.Proofs.OneByOne
import HexSkirmish.Proofs.Obedience
import HexSkirmish.Proofs.Highlights
import HexSkirmish.Proofs.Chronicle
import HexSkirmish.Proofs.Rebuilds
import HexSkirmish.Proofs.Overlays
import HexSkirmish.Proofs.Accounts
import HexSkirmish.Proofs.Hands
import HexSkirmish.Proofs.Influence
import HexSkirmish.Proofs.ScriptedRuns
import HexSkirmish.Proofs.Separation
import HexSkirmish.Proofs.Tags
import HexSkirmish.Proofs.Followers
import HexSkirmish.Proofs.Journeys
import HexSkirmish.Proofs.Precedence
import HexSkirmish.Proofs.Courses
import HexSkirmish.Proofs.Distances
import HexSkirmish.Proofs.Reach
import HexSkirmish.Proofs.FarthestMoves
import HexSkirmish.Proofs.Decisions
import HexSkirmish.Proofs.Painting
import HexSkirmish.Proofs.Frames
import HexSkirmish.Proofs.FrameCounts
import HexSkirmish.Proofs.Validation
import HexSkirmish.Proofs.PartialSetups
import HexSkirmish.Proofs.JsonTexts
import HexSkirmish.Proofs.Encodings
import HexSkirmish.Proofs.Places
import HexSkirmish.Proofs.Reversal
import HexSkirmish.Proofs.Arithmetic
import HexSkirmish.Proofs.Singles
import HexSkirmish.Proofs.Centers
import HexSkirmish.Proofs.FarPoints
import HexSkirmish.Proofs.Words
import HexSkirmish.Proofs.AxialForms
import HexSkirmish.Proofs.Addresses
import HexSkirmish.Proofs.Slots
import HexSkirmish.Proofs.Queues
