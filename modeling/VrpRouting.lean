import VrpRouting.Common.Arithmetic
import VrpRouting.Common.Identifiers
import VrpRouting.Common.Input
import VrpRouting.Common.Types
import VrpRouting.Driver.Distances
import VrpRouting.Driver.Euclidean
import VrpRouting.Driver.Forward
import VrpRouting.Driver.InputOrder
import VrpRouting.Driver.Lookups
import VrpRouting.Driver.Optimize
import VrpRouting.Driver.OptimizeInput
import VrpRouting.Driver.OptimizeProcedure
import VrpRouting.Driver.OptimizeUpdate
import VrpRouting.Driver.PgrInputOrder
import VrpRouting.Driver.PgrPickDeliver
import VrpRouting.Driver.PgrService
import VrpRouting.Driver.PickDeliver
import VrpRouting.Driver.Processing
import VrpRouting.Driver.Reachable
import VrpRouting.Driver.Replies
import VrpRouting.Driver.Result
import VrpRouting.Driver.RouteEnds
import VrpRouting.Driver.Service
import VrpRouting.Driver.Subdivision
import VrpRouting.Driver.TimeMatrix
import VrpRouting.Driver.Validity
import VrpRouting.InitialSol.Construction
import VrpRouting.InitialSol.Filling
import VrpRouting.InitialSol.Freezing
import VrpRouting.InitialSol.GivenSolution
import VrpRouting.InitialSol.LifoRoutes
import VrpRouting.InitialSol.Passes
import VrpRouting.InitialSol.Placement
import VrpRouting.InitialSol.RoundTrip
import VrpRouting.InitialSol.Simple
import VrpRouting.InitialSol.SimpleCompletion
import VrpRouting.InitialSol.SimpleFeasibility
import VrpRouting.InitialSol.SimpleService
import VrpRouting.InitialSol.StopLists
import VrpRouting.InitialSol.Tabu
import VrpRouting.InitialSol.TruckCalls
import VrpRouting.InitialSol.TruckRoutes
import VrpRouting.InitialSol.Unmovable
import VrpRouting.InitialSol.UserStops
import VrpRouting.Lib.BestSoFar
import VrpRouting.Lib.BoundedQueue
import VrpRouting.Lib.Breakpoints
import VrpRouting.Lib.Doubles
import VrpRouting.Lib.Grouping
import VrpRouting.Lib.Keyed
import VrpRouting.Lib.Keys
import VrpRouting.Lib.ListEdit
import VrpRouting.Lib.LowerBound
import VrpRouting.Lib.Sorting
import VrpRouting.Lib.Table
import VrpRouting.Lib.TimeWindows
import VrpRouting.Lib.Walks
import VrpRouting.Optimizers.BestSwap
import VrpRouting.Optimizers.Bookkeeping
import VrpRouting.Optimizers.Conservation
import VrpRouting.Optimizers.Estimates
import VrpRouting.Optimizers.Feasibility
import VrpRouting.Optimizers.Frozen
import VrpRouting.Optimizers.InfeasibleMemory
import VrpRouting.Optimizers.Intensification
import VrpRouting.Optimizers.Listing
import VrpRouting.Optimizers.MoveQueue
import VrpRouting.Optimizers.MoveToReal
import VrpRouting.Optimizers.Neighbourhoods
import VrpRouting.Optimizers.PathKeys
import VrpRouting.Optimizers.Phases
import VrpRouting.Optimizers.PhonyTrucks
import VrpRouting.Optimizers.Progress
import VrpRouting.Optimizers.ReduceCost
import VrpRouting.Optimizers.Runs
import VrpRouting.Optimizers.Scans
import VrpRouting.Optimizers.Simple
import VrpRouting.Optimizers.SimpleCompletion
import VrpRouting.Optimizers.SimpleConservation
import VrpRouting.Optimizers.SimpleFeasibility
import VrpRouting.Optimizers.SimpleProgress
import VrpRouting.Optimizers.SimpleRuns
import VrpRouting.Optimizers.SimpleServing
import VrpRouting.Optimizers.SimpleSimulation
import VrpRouting.Optimizers.SimpleSteps
import VrpRouting.Optimizers.Simulation
import VrpRouting.Optimizers.Steps
import VrpRouting.Optimizers.Tabu
import VrpRouting.Optimizers.TabuList
import VrpRouting.Optimizers.TruckRoutes
import VrpRouting.Optimizers.Unserved
import VrpRouting.Optimizers.UserRoutes
import VrpRouting.Pgdata.Columns
import VrpRouting.Pgdata.Decoding
import VrpRouting.Pgdata.Fetchers
import VrpRouting.Problem.Accounting
import VrpRouting.Problem.Alike
import VrpRouting.Problem.Built
import VrpRouting.Problem.Cells
import VrpRouting.Problem.Compatibility
import VrpRouting.Problem.Cost
import VrpRouting.Problem.Edit
import VrpRouting.Problem.ErasedOrder
import VrpRouting.Problem.Feasibility
import VrpRouting.Problem.Fifo
import VrpRouting.Problem.Fleet
import VrpRouting.Problem.Forward
import VrpRouting.Problem.HillClimb
import VrpRouting.Problem.Incremental
import VrpRouting.Problem.Insertion
import VrpRouting.Problem.Limits
import VrpRouting.Problem.Lookups
import VrpRouting.Problem.Matrix
import VrpRouting.Problem.Multipliers
import VrpRouting.Problem.Node
import VrpRouting.Problem.Order
import VrpRouting.Problem.OrderRows
import VrpRouting.Problem.OrderTables
import VrpRouting.Problem.PickDeliver
import VrpRouting.Problem.Points
import VrpRouting.Problem.Removal
import VrpRouting.Problem.RowOrder
import VrpRouting.Problem.Rows
import VrpRouting.Problem.Schedule
import VrpRouting.Problem.Solution
import VrpRouting.Problem.Summary
import VrpRouting.Problem.Triangles
import VrpRouting.Problem.Vehicle
import VrpRouting.Problem.VehiclePickDeliver
import VrpRouting.Problem.Violations
import VrpRouting.Problem.Visits
import VrpRouting.Vroom.Driver
import VrpRouting.Vroom.Input
import VrpRouting.Vroom.Instance
import VrpRouting.Vroom.Matrix
import VrpRouting.Vroom.Problem
import VrpRouting.Vroom.Results
import VrpRouting.Vroom.Rows
import VrpRouting.Vroom.Service
import VrpRouting.Vroom.Speeds
import VrpRouting.Vroom.Tasks
