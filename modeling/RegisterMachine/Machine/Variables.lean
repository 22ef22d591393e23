import RegisterMachine.Machine.Action
import RegisterMachine.Text.Basic

/-!
# Variables

Programs can keep named integers outside of their registers, in two ways: in scopes that have names
and live until they are destroyed, and in a stack of frames that is searched from the innermost
frame outwards. A variable is zero when it is declared.
-/

namespace RegisterMachine

inductive ScopeError where
  | duplicateScope (name : Text)
  | unknownScope (name : Text)
  | duplicateVariable (name : Text)
  | unknownVariable (name : Text)
  /-- The stack has no frame. -/
  | noScope
  deriving DecidableEq, Repr

def ScopeError.message : ScopeError → String
  | .duplicateScope name => s!"scope '{String.ofList name}' already exists"
  | .unknownScope name => s!"scope '{String.ofList name}' does not exist"
  | .duplicateVariable name =>
    s!"variable '{String.ofList name}' already declared in this scope"
  | .unknownVariable name => s!"variable '{String.ofList name}' is not declared"
  | .noScope => "no variable scope is active"

/-- The variables of one scope, each name once. -/
abbrev Variables := List (Text × Int32)

namespace Variables

def declare (name : Text) : Action Variables ScopeError Unit := do
  match (← get).lookup name with
  | some _ => throw (.duplicateVariable name)
  | none => modify fun vars => (name, 0) :: vars

/-- Changes the value of a variable; `none` if it is not declared. -/
def assign? (name : Text) (value : Int32) : Variables → Option Variables
  | [] => none
  | v :: vars =>
    if v.1 = name then some ((name, value) :: vars) else (assign? name value vars).map (v :: ·)

def set (name : Text) (value : Int32) : Action Variables ScopeError Unit := do
  match (← get).assign? name value with
  | some vars => modify fun _ => vars
  | none => throw (.unknownVariable name)

end Variables

/-- Scopes with names, each name once. -/
abbrev NamedScopes := List (Text × Variables)

namespace NamedScopes

def find (s : NamedScopes) (scope : Text) : Except ScopeError Variables :=
  match s.lookup scope with
  | some vars => .ok vars
  | none => .error (.unknownScope scope)

def replace (scope : Text) (vars : Variables) : NamedScopes → NamedScopes
  | [] => []
  | e :: s => if e.1 = scope then (scope, vars) :: s else e :: replace scope vars s

def inScope (scope : Text) (x : Action Variables ScopeError Unit) :
    Action NamedScopes ScopeError Unit := do
  let vars ← (← get).find scope
  x.onPart (fun _ => vars) (replace scope) id

def create (scope : Text) : Action NamedScopes ScopeError Unit := do
  match (← get).lookup scope with
  | some _ => throw (.duplicateScope scope)
  | none => modify fun s => (scope, []) :: s

def destroy (scope : Text) : Action NamedScopes ScopeError Unit := do
  let _ ← (← get).find scope
  modify fun s => s.filter (·.1 ≠ scope)

def declare (scope name : Text) : Action NamedScopes ScopeError Unit :=
  inScope scope (Variables.declare name)

def set (scope name : Text) (value : Int32) : Action NamedScopes ScopeError Unit :=
  inScope scope (Variables.set name value)

def get (s : NamedScopes) (scope name : Text) : Except ScopeError Int32 := do
  let vars ← s.find scope
  match vars.lookup name with
  | some value => return value
  | none => throw (.unknownVariable name)

end NamedScopes

/-- Frames of variables, the innermost first. -/
abbrev StackScopes := List Variables

namespace StackScopes

def push (s : StackScopes) : StackScopes :=
  [] :: s

def pop : Action StackScopes ScopeError Unit := do
  match ← get with
  | [] => throw .noScope
  | _ :: outer => modify fun _ => outer

/-- Declares a variable in the innermost frame; other frames may have the name too. -/
def declare (name : Text) : Action StackScopes ScopeError Unit := do
  match ← get with
  | [] => throw .noScope
  | frame :: outer =>
    (Variables.declare name).onPart (fun _ => frame) (fun frame _ => frame :: outer) id

/-- Changes a variable in the innermost frame that declares it; `none` if there is no such frame. -/
def assign? (name : Text) (value : Int32) : StackScopes → Option StackScopes
  | [] => none
  | frame :: outer =>
    match frame.assign? name value with
    | some frame => some (frame :: outer)
    | none => (assign? name value outer).map (frame :: ·)

def set (name : Text) (value : Int32) : Action StackScopes ScopeError Unit := do
  let s ← get
  match s, s.assign? name value with
  | [], _ => throw .noScope
  | _, some s => modify fun _ => s
  | _, none => throw (.unknownVariable name)

def get (s : StackScopes) (name : Text) : Except ScopeError Int32 :=
  match s, s.findSome? (List.lookup name) with
  | [], _ => .error .noScope
  | _, some value => .ok value
  | _, none => .error (.unknownVariable name)

end StackScopes

end RegisterMachine
