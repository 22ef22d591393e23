import RegisterMachine.Machine.Basic

/-!
# Services

A service is what the syscall instruction runs: it has a number, a name and a handler. Plugins group
services, and a registry holds the services of several plugins, each number at most once.
-/

namespace RegisterMachine

inductive Outcome where
  | proceed
  | exit (status : Int32)
  deriving DecidableEq, Repr

/-- The result of a service, and the machine that it leaves behind in either case. -/
abbrev Reply := Except ServiceError Outcome × Machine

structure Service where
  id : Int32
  name : String
  handler : Machine → Reply

namespace Service

/-- Does an action, and continues behind it unless it fails. -/
def proceed {α : Type} (m : Machine) (x : Action Machine ServiceError α)
    (next : α → Machine → Machine) : Reply :=
  match x m with
  | (.ok a, m) => (.ok .proceed, next a m)
  | (.error e, m) => (.error e, m)

/-- Puts a value in `S0`. -/
def answer (m : Machine) (value : Except ServiceError Int32) : Reply :=
  proceed m (liftM value) fun value m => m.setArg 0 value

end Service

structure Plugin where
  name : String
  services : List Service

/-- A service in a registry, with the name of its plugin. -/
structure Registration where
  plugin : String
  service : Service

structure Registry where
  /-- The names of the plugins, in the order in which they were loaded. -/
  plugins : List String := []
  registrations : List Registration := []

inductive SetupError where
  | duplicatePlugin (name : String)
  /-- The number of a service is taken by a plugin that was loaded before. -/
  | duplicateSyscall (id : Int32) (name plugin other : String)
  deriving DecidableEq, Repr

def SetupError.message : SetupError → String
  | .duplicatePlugin name => s!"syscall plugin '{name}' loaded twice"
  | .duplicateSyscall id name plugin other =>
    s!"syscall id {id.toInt} ({name}) from plugin '{plugin}' is already registered by '{other}'"

namespace Registry

def find? (r : Registry) (id : Int32) : Option Registration :=
  r.registrations.find? (·.service.id == id)

def register (plugin : String) (r : Registry) (s : Service) : Except SetupError Registry :=
  match r.find? s.id with
  | some other => .error (.duplicateSyscall s.id s.name plugin other.plugin)
  | none => .ok { r with registrations := r.registrations ++ [⟨plugin, s⟩] }

def load (r : Registry) (p : Plugin) : Except SetupError Registry :=
  if p.name ∈ r.plugins then .error (.duplicatePlugin p.name)
  else do
    let r ← p.services.foldlM (register p.name) r
    return { r with plugins := r.plugins ++ [p.name] }

def ofPlugins (ps : List Plugin) : Except SetupError Registry :=
  ps.foldlM load {}

/-- The registrations in ascending order of their numbers. -/
def table (r : Registry) : List Registration :=
  r.registrations.mergeSort fun a b => a.service.id ≤ b.service.id

def listing (r : Registry) : Text :=
  let row (e : Registration) : Text :=
    Text.padStart ' ' 4 (Numeral.ofInt e.service.id.toInt) ++ ' ' :: ' ' ::
      Text.padEnd 10 e.plugin.toList ++ ' ' :: e.service.name.toList
  let heading := "plugins: " ++ String.intercalate ", " r.plugins
  Text.unlines (heading.toList :: r.table.map row)

def call (r : Registry) (id : Int32) : Action Machine Fault Outcome := fun m =>
  match r.find? id with
  | none => (.error (.unknownSyscall id), m)
  | some e =>
    match e.service.handler (m.note fun _ => .calling id e.plugin e.service.name) with
    | (.ok outcome, m) => (.ok outcome, m)
    | (.error cause, m) => (.error (.syscall id e.service.name cause), m)

end Registry

end RegisterMachine
