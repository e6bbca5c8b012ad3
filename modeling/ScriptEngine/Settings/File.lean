import ScriptEngine.Settings.Basic
import ScriptEngine.Toml.Document

/-!
# Settings from a file

Every setting may be left out, and keys that are no setting are ignored. A setting of the wrong kind
spoils the whole file.
-/
namespace ScriptEngine.Settings

/-- The file that holds the settings, and the place of it for all projects of a user. -/
def fileName : Path := ⟨"fsk.toml"⟩

def userPlace : Path := ⟨".config/fsk/fsk.toml"⟩

/-- The places where settings are looked for, given the directory of the user. -/
def places (home : Path) : List Path := [fileName, home.join userPlace]

def count? : Option Toml → Option Nat
  | some (.integer n) => if 0 ≤ n then some n.toNat else none
  | _ => none

def flag? : Option Toml → Option Bool
  | some (.bool b) => some b
  | _ => none

def text? : Option Toml → Option String
  | some (.text s) => some s
  | _ => none

def texts? : Option Toml → Option (List String)
  | some (.array items) => items.mapM fun v => text? (some v)
  | _ => none

/-- Changes the setting that a key names. -/
def set? (s : Settings) (key : String) (v : Option Toml) : Option Settings :=
  match key with
  | "max_call_depth" => (count? v).map fun n => { s with maxCallDepth := n }
  | "worker_queue_capacity" => (count? v).map fun n => { s with workerQueueCapacity := n }
  | "module_paths" => (texts? v).map fun ps => { s with modulePaths := ps.map Path.mk }
  | "prelude" => (text? v).map fun p => { s with prelude := some ⟨p⟩ }
  | "run_event_loop" => (flag? v).map fun b => { s with runEventLoop := b }
  | "worker_event_loop" => (flag? v).map fun b => { s with workerEventLoop := b }
  | "log_level" => (text? v).map fun l => { s with logLevel := l }
  | _ => some s

/-- The settings in the text of a file. -/
def parse? (source : String) : Option Settings :=
  (Toml.topLevel? source).bind fun entries =>
    entries.foldlM (fun s (key, v) => s.set? key v) Settings.default

end ScriptEngine.Settings
