import Inflow.Model
/-!
# Settings

What is fixed for a whole run: the seed, the ceiling on the number of
particles, whether inflow events are kept, and the model.
-/

namespace Inflow

structure Settings (α : Type) where
  seed : Nat := 0x5eed1a9e
  /-- No step may bring the number of particles over all ranks above this. -/
  ceiling : Nat := Count.limit
  collectEvents : Bool := false
  initialCapacity : Nat := 1024
  model : Model α := {}

/-- Settings that no run can have. -/
inductive SettingsError where
  | noCeiling
  | noCoals
  | noCoalLayers
  | foulingWithoutCoal
  deriving DecidableEq, Repr

def SettingsError.message : SettingsError → String
  | noCeiling => "Global particle ceiling must be non-zero"
  | noCoals => "Coal model requires at least one coal composition"
  | noCoalLayers => "Coal model requires at least one particle layer"
  | foulingWithoutCoal => "Fouling is only available with the coal model"

/-- The first thing wrong with the settings, if any. -/
def Settings.validate {α : Type} (s : Settings α) : Except SettingsError Unit :=
  if s.ceiling = 0 then .error .noCeiling
  else if s.model.burnsCoal && s.model.coals.isEmpty then .error .noCoals
  else if s.model.burnsCoal && s.model.coalLayers == 0 then .error .noCoalLayers
  else if s.model.fouling && !s.model.burnsCoal then .error .foulingWithoutCoal
  else .ok ()

end Inflow
