import Inflow.Model
import Inflow.Registry
/-!
# Setup checks

Before anything is released, every zone and set of the registry is checked
against the model. All that is wrong is reported together: an `Issue` names the
place, the parameter with its value, and what is wrong with it.
-/

namespace Inflow

/-- What can be wrong with a zone or a set. -/
inductive Complaint where
  | foulingWithoutCoal
  | foulingInactive
  | zoneKind
  | location
  | statClass
  | aggregateClass
  | fractalDimension
  | velocityMagnitude
  | weight
  | flowRate
  | density
  | diameter
  | diameterDeviation
  | diameterSpread
  | radius
  | specificHeat
  | temperature
  | emissivity
  | coalNumber
  | coalDensity
  | coalSpecificHeat
  | coalWater
  | coalAsh
  | coalFractions
  deriving DecidableEq, Repr

namespace Complaint

/-- The parameter that is wrong. -/
def parameter : Complaint → String
  | foulingWithoutCoal | foulingInactive => "nature"
  | zoneKind => "zone kind"
  | location => "location"
  | statClass => "statistical class"
  | aggregateClass => "aggregate class id"
  | fractalDimension => "aggregate fractal dimension"
  | velocityMagnitude => "velocity magnitude"
  | weight => "statistical weight"
  | flowRate => "flow rate"
  | density => "density"
  | diameter | diameterSpread => "diameter"
  | diameterDeviation => "diameter variance"
  | radius => "ellipsoid radius"
  | specificHeat => "specific heat"
  | temperature => "temperature"
  | emissivity => "emissivity"
  | coalNumber => "coal number"
  | coalDensity => "coal density"
  | coalSpecificHeat => "coal specific heat"
  | coalWater => "coal water mass fraction"
  | coalAsh => "coal ash mass fraction"
  | coalFractions => "coal water and ash mass fractions"

/-- What is wrong with it. -/
def reason : Complaint → String
  | foulingWithoutCoal => "is fouling but the physical model is not coal"
  | foulingInactive => "is fouling but fouling is not activated"
  | zoneKind | location => "does not match the zone container"
  | statClass => "is greater than the number of statistical classes"
  | aggregateClass => "is smaller than 1"
  | fractalDimension => "is greater than 3"
  | velocityMagnitude => "is imposed along face normals, which volume zones do not have"
  | weight => "must be positive when no flow rate is given"
  | flowRate => "is positive while the number of injected particles is 0"
  | diameterSpread => "is smaller than 3 times its standard deviation"
  | temperature => "is below absolute zero"
  | emissivity | coalWater | coalAsh => "is not in [0, 1]"
  | coalNumber => "is not a defined coal"
  | coalFractions => "sum to more than 1"
  | density | diameter | diameterDeviation | radius | specificHeat | coalDensity
  | coalSpecificHeat => "is negative"

end Complaint

/-- Something wrong with one zone, or with one set of it. -/
structure Issue (α : Type) where
  location : ZoneKind
  zone : Nat
  /-- None if the zone itself is at fault. -/
  set : Option Nat
  value : α
  complaint : Complaint

variable {α : Type} [Scalar α]

/-- A complaint with the value it is about, if the condition holds. -/
def complain (condition : Bool) (value : α) (complaint : Complaint) : List (α × Complaint) :=
  if condition then [(value, complaint)] else []

namespace InjectionSet

variable (s : InjectionSet α) (m : Model α)

def classComplaints : List (α × Complaint) :=
  complain (0 < m.classes && m.classes < s.statClass) (Scalar.ofNat s.statClass) .statClass
  ++ complain (m.agglomeration && s.aggregateClass < 1) (Scalar.ofInt s.aggregateClass)
    .aggregateClass
  ++ complain (m.agglomeration && decide (Scalar.ofNat 3 < s.fractalDimension)) s.fractalDimension
      .fractalDimension

def amountComplaints : List (α × Complaint) :=
  (match s.velocity with
    | .normal magnitude => complain (s.location != .boundary) magnitude .velocityMagnitude
    | _ => [])
  ++ complain (decide (s.weight ≤ 0) && decide (s.flowRate ≤ 0)) s.weight .weight
  ++ complain (decide (0 < s.flowRate) && s.count == 0) s.flowRate .flowRate

def sizeComplaints : List (α × Complaint) :=
  complain (!m.burnsCoal && decide (s.density < 0)) s.density .density
  ++ complain (!m.burnsCoal && decide (s.diameter < 0)) s.diameter .diameter
  ++ complain (!m.burnsCoal && decide (s.diameterDeviation < 0)) s.diameterDeviation
    .diameterDeviation
  ++ complain (decide (s.diameter < Scalar.ofNat 3 * s.diameterDeviation)) s.diameter
    .diameterSpread
  ++ (s.radii.toList.flatMap fun r => complain (m.shape == .spheroid && decide (r < 0)) r .radius)

def heatComplaints : List (α × Complaint) :=
  complain (m.heatsParticles && (decide (s.specificHeat < 0) && m.solveTemperature)) s.specificHeat
      .specificHeat
  ++ complain (m.heatsParticles && (s.temperatureProfile == .imposed && decide (s.temperature < 0)))
      s.temperature .temperature
  ++ complain (m.physics == .heat && m.solveTemperature && m.radiativeCoupling
        && !Scalar.between 0 1 s.emissivity) s.emissivity .emissivity

/-- What is wrong with a coal of the table. -/
def compositionComplaints (c : Coal α) : List (α × Complaint) :=
  let sum := c.waterFraction + c.ashFraction
  complain (decide (c.density < 0)) c.density .coalDensity
  ++ complain (decide (c.specificHeat < 0)) c.specificHeat .coalSpecificHeat
  ++ complain (!Scalar.between 0 1 c.waterFraction) c.waterFraction .coalWater
  ++ complain (!Scalar.between 0 1 c.ashFraction) c.ashFraction .coalAsh
  ++ complain (decide (1 < sum)) sum .coalFractions

def coalComplaints : List (α × Complaint) :=
  if m.burnsCoal then
    complain (s.coalNumber < 1 || m.coals.length < s.coalNumber) (Scalar.ofNat s.coalNumber)
      .coalNumber
    ++ complain (decide (s.temperature < 0)) s.temperature .temperature
    ++ (match m.coal? s.coalNumber with
      | some c => compositionComplaints c
      | none => [])
  else []

/-- Everything wrong with a set, under the zone and location that the set names. -/
def issues : List (Issue α) :=
  (s.classComplaints m ++ s.amountComplaints ++ s.sizeComplaints m ++ s.heatComplaints m
    ++ s.coalComplaints m).map fun (value, complaint) =>
      { location := s.location, zone := s.zone, set := some s.id, value, complaint }

end InjectionSet

namespace ZoneEntry

variable (e : ZoneEntry α) (kind : ZoneKind) (m : Model α)

def zoneComplaints : List Complaint :=
  let fouling := kind == .boundary && e.nature == .fouling
  (if fouling && !m.burnsCoal then [.foulingWithoutCoal] else [])
  ++ (if fouling && !m.fouling then [.foulingInactive] else [])
  ++ (if e.zone.kind != kind then [.zoneKind] else [])

/-- Everything wrong with a zone that stands among the zones of a kind, and with its sets. -/
def issues : List (Issue α) :=
  ((e.zoneComplaints kind m).map fun complaint =>
    { location := kind, zone := e.zone.id, set := none,
      value := Scalar.ofNat e.zone.id, complaint })
  ++ e.sets.flatMap fun s =>
    (if s.location != kind then
      [{ location := kind, zone := e.zone.id, set := some s.id, value := Scalar.ofNat s.zone
         complaint := .location }]
    else [])
    ++ s.issues m

end ZoneEntry

/-- Everything wrong with the registry, boundary zones first. -/
def Registry.issues (r : Registry α) (m : Model α) : List (Issue α) :=
  ZoneKind.all.flatMap fun kind => (r.zones kind).flatMap fun e => e.issues kind m

end Inflow
