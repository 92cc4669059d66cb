import Inflow.Injector.State
import Inflow.Decimal.Shortest
/-!
# Wording of failures

The texts of issues, violations and errors of a step.
-/

namespace Inflow

/-- Values in messages have their shortest digits and never an exponent. -/
def valueLayout : Decimal.Layout where
  least := none
  beyond := none
  wholeMark := ""
  exponentMark := ""
  tie := .up

namespace Issue

def text (i : Issue Float) : String :=
  let set := match i.set with
    | some set => s!", set {set}"
    | none => ""
  s!"Lagrangian {i.location.name} zone {i.zone}{set}: {i.complaint.parameter} ({valueLayout.text i.value}) {i.complaint.reason}"

/-- All issues, one on a line. -/
def report (issues : List (Issue Float)) : String :=
  "\n".intercalate (issues.map fun i => "  " ++ i.text)

/-- Whether some issue is about the parameter. -/
def concerns (issues : List (Issue Float)) (parameter : String) : Bool :=
  issues.any (·.complaint.parameter == parameter)

end Issue

def Violation.text (v : Violation Float) : String :=
  let layer := match v.layer with
    | some layer => s!" in layer {layer}"
    | none => ""
  s!"particle {v.particle} has a negative {v.what.name}{layer}: {valueLayout.text v.value}"

/-- The zone that a failure is about. -/
def Place.zoneText (p : Place) : String := s!"Lagrangian {p.kind.name} zone {p.zone}"

/-- The set that a failure is about. -/
def Place.text (p : Place) : String := s!"{p.zoneText}, set {p.set}"

def InjectionError.message : InjectionError Float → String
  | setup issues => "Invalid injection parameters:\n" ++ Issue.report issues
  | growth error =>
    s!"Particle set cannot grow to {error.requested} particles: {error.reason}"
  | inadmissible place violations =>
    s!"{place.text}: inadmissible particles" ++ String.join (violations.map fun v => "\n  " ++ v.text)
  | missingWeight place element available =>
    s!"{place.zoneText}: element {element} has no weight ({available} available)"
  | profileLength place expected got =>
    s!"{place.text}: injection profile gave {got} values for {expected} elements"
  | peerFailure place => s!"{place.text}: injection failed on another rank"

end Inflow
