import Inflow.Codec.Settings
import Inflow.Codec.Registry
import Inflow.Scenario
import Inflow.Json.Reader
/-!
# Scenarios as documents

The written form of boxes and scenarios, and how files of settings and
scenarios are loaded.
-/

namespace Inflow

def Box.Side.names : List (String × Box.Side) :=
  [("XMin", .xMin), ("XMax", .xMax), ("YMin", .yMin), ("YMax", .yMax), ("ZMin", .zMin),
    ("ZMax", .zMax)]

def Box.Side.form : Form Box.Side := .named names

namespace Box

def columns : List (Column (Box Float)) := [
  .required "n" (.vectorOf 3 .count) (·.layers) fun v b => { b with layers := v },
  .required "lengths" (.vector 3) (·.lengths) fun v b => { b with lengths := v }]

def form : Form (Box Float) := .record columns standard

end Box

namespace Scenario

def columns : List (Column (Scenario Float)) := [
  .implied "config" Settings.form (·.settings) fun c s => { s with settings := c },
  .implied "mesh" Box.form (·.box) fun b s => { s with box := b },
  .implied "registry" Registry.form (·.registry) fun r s => { s with registry := r },
  .implied "steps" .count (·.steps) fun n s => { s with steps := n },
  .implied "dtp" .real (·.dtp) fun x s => { s with dtp := x },
  .implied "fluid_velocity" (.vector 3) (·.fluidVelocity) fun v s => { s with fluidVelocity := v },
  .implied "fluid_temperature" .real (·.fluidTemperature)
    fun x s => { s with fluidTemperature := x }]

def form : Form (Scenario Float) := .record columns standard

end Scenario

/-! ## Files -/

/-- What is found under the name of a file. -/
inductive FileContent where
  | missing
  | directory
  | unreadable (reason : String)
  | bytes (content : ByteArray)

/-- Why a file yields no settings or scenario. -/
inductive LoadError where
  | unreadable (reason : String)
  | undecodable (error : DecodeError)
  | invalid (error : SettingsError)
  deriving DecidableEq, Repr

def LoadError.message : LoadError → String
  | unreadable reason => "Failed to read configuration: " ++ reason
  | undecodable error => "Failed to parse configuration: " ++ error.message
  | invalid error => error.message

/-- The text of a file. -/
def FileContent.text : FileContent → Except LoadError String
  | missing => .error (.unreadable "No such file or directory (os error 2)")
  | directory => .error (.unreadable "Is a directory (os error 21)")
  | unreadable reason => .error (.unreadable reason)
  | bytes content =>
    match String.fromUTF8? content with
    | some text => .ok text
    | none => .error (.unreadable "stream did not contain valid UTF-8")

/-- Reads a document. -/
def Form.parse {β : Type} (form : Form β) (text : String) : Decoded β :=
  match Json.parse text with
  | some j => form.ofJson j
  | none => .error .notWellFormed

/-- Loads valid settings from a file. -/
def Settings.load (file : FileContent) : Except LoadError (Settings Float) := do
  let settings ← (Settings.form.parse (← file.text)).mapError .undecodable
  settings.validate.mapError .invalid
  return settings

/-- Loads a scenario with valid settings from a file. -/
def Scenario.load (file : FileContent) : Except LoadError (Scenario Float) := do
  let scenario ← (Scenario.form.parse (← file.text)).mapError .undecodable
  scenario.settings.validate.mapError .invalid
  return scenario

end Inflow
