import Inflow.Main
import Inflow.Codec.State
import Inflow.Proofs.Fault
import Inflow.Proofs.Scalar.Order
import Inflow.Proofs.Scalar.Double
import Inflow.Proofs.Scalar.Rational
import Inflow.Proofs.Sampling.Cumulative
import Inflow.Proofs.Sampling.Lookup
import Inflow.Proofs.Sampling.Proportional
import Inflow.Proofs.Sampling.Weightless
import Inflow.Proofs.Checks.Admissibility
import Inflow.Proofs.Ranks.Lockstep
import Inflow.Proofs.Ranks.Alone
import Inflow.Proofs.Apportion.Draws
import Inflow.Proofs.Apportion.Group
import Inflow.Proofs.Apportion.Exact
import Inflow.Proofs.Particle.Positions
import Inflow.Proofs.Particle.Removal
import Inflow.Proofs.Particle.Storage
import Inflow.Proofs.Release.Owners
import Inflow.Proofs.Census
import Inflow.Proofs.FlowRates
import Inflow.Proofs.FlowSlots
import Inflow.Proofs.Injector.Steps
import Inflow.Proofs.Injector.Release
import Inflow.Proofs.Injector.Set
import Inflow.Proofs.Injector.Outline
import Inflow.Proofs.Injector.Growth
import Inflow.Proofs.Injector.Group
import Inflow.Proofs.Injector.Step
import Inflow.Proofs.Injector.Agreement
import Inflow.Proofs.Injector.Accounting
import Inflow.Proofs.Injector.Ceiling
import Inflow.Proofs.Injector.Passage
import Inflow.Proofs.Injector.Life
import Inflow.Proofs.Injector.OlderParticles
import Inflow.Proofs.Injector.Admission
import Inflow.Proofs.Injector.InflowEvents
import Inflow.Proofs.Injector.Abandoned
import Inflow.Proofs.Injector.PreviousPlace
import Inflow.Proofs.Injector.Skipping
import Inflow.Proofs.Random.Counting
import Inflow.Proofs.Injector.Visits
import Inflow.Proofs.Injector.DrawAccounting
import Inflow.Proofs.Scalar.Exact
import Inflow.Proofs.Injector.MassFlow
import Inflow.Ranks.Threads
import Inflow.Proofs.Ranks.Interleaving
import Inflow.Proofs.Injector.Stops
import Inflow.Proofs.Mesh
import Inflow.Proofs.Scalar.Rounding
import Inflow.Proofs.Scalar.Signs
import Inflow.Proofs.Scalar.Reciprocal
import Inflow.Proofs.Release.Ranges
import Inflow.Proofs.Release.Layout
import Inflow.Proofs.Injector.Ranges
import Inflow.Proofs.Apportion.Ranges
import Inflow.Proofs.Apportion.Histogram
import Inflow.Proofs.Checks.Setup
import Inflow.Proofs.Injector.Accesses
import Inflow.Proofs.Injector.NormalVelocity
import Inflow.Proofs.Codec.Form
import Inflow.Proofs.Codec.Settings
import Inflow.Proofs.Codec.Registry
import Inflow.Proofs.Codec.Scenario
import Inflow.Proofs.Release.Diameters
import Inflow.Proofs.Release.CoalLayers
import Inflow.Proofs.Injector.Relocation
import Inflow.Proofs.Box.Numbering
import Inflow.Proofs.Box.Location
import Inflow.Proofs.CommandLine
import Inflow.Proofs.Injector.HostCells
import Inflow.Proofs.Injector.Undisturbed
import Inflow.Proofs.Checks.Naming
import Inflow.Proofs.Codec.Numbering
import Inflow.Proofs.InjectionSet
import Inflow.Proofs.Injector.FirstSteps
import Inflow.Proofs.Events.Buffer
import Inflow.Proofs.Scalar.Unit
import Inflow.Proofs.Injector.UniformProfile
