import RegisterMachine.Service.Core

/-!
# Variable services

Access to named scopes and to the stack of frames. Names are string literals, whose indices come in
the syscall registers from `S1` on; values that are read go to `S0`.
-/

namespace RegisterMachine

namespace Service

def onScopes (x : Action NamedScopes ScopeError Unit) : Action Machine ServiceError Unit :=
  x.onPart (·.scopes) (fun scopes m => { m with scopes }) .scope

def onFrames (x : Action StackScopes ScopeError Unit) : Action Machine ServiceError Unit :=
  x.onPart (·.frames) (fun frames m => { m with frames }) .scope

def createScope (m : Machine) : Reply :=
  withLiteral m 1 fun scope => proceed m (onScopes (NamedScopes.create scope)) fun _ m => m

def destroyScope (m : Machine) : Reply :=
  withLiteral m 1 fun scope => proceed m (onScopes (NamedScopes.destroy scope)) fun _ m => m

def declareInScope (m : Machine) : Reply :=
  withLiteral m 1 fun scope =>
    withLiteral m 2 fun name =>
      proceed m (onScopes (NamedScopes.declare scope name)) fun _ m => m

def getInScope (m : Machine) : Reply :=
  withLiteral m 1 fun scope =>
    withLiteral m 2 fun name => answer m ((m.scopes.get scope name).mapError .scope)

def setInScope (m : Machine) : Reply :=
  withLiteral m 1 fun scope =>
    withLiteral m 2 fun name =>
      proceed m (onScopes (NamedScopes.set scope name (m.arg 3))) fun _ m => m

def pushFrame (m : Machine) : Reply :=
  let frames := m.frames.push
  (.ok .proceed, { m with frames }.note fun _ => .pushedFrame frames.length)

def popFrame (m : Machine) : Reply :=
  proceed m (onFrames StackScopes.pop) fun _ m => m.note fun _ => .poppedFrame m.frames.length

def declareInFrame (m : Machine) : Reply :=
  withLiteral m 1 fun name => proceed m (onFrames (StackScopes.declare name)) fun _ m => m

def getInFrame (m : Machine) : Reply :=
  withLiteral m 1 fun name => answer m ((m.frames.get name).mapError .scope)

def setInFrame (m : Machine) : Reply :=
  withLiteral m 1 fun name =>
    proceed m (onFrames (StackScopes.set name (m.arg 2))) fun _ m => m

end Service

/-- The services of named scopes and frames. -/
def variablesPlugin : Plugin where
  name := "variables"
  services :=
    [⟨20, "scope_create", Service.createScope⟩, ⟨21, "scope_destroy", Service.destroyScope⟩,
      ⟨22, "scope_declare", Service.declareInScope⟩, ⟨23, "scope_get", Service.getInScope⟩,
      ⟨24, "scope_set", Service.setInScope⟩, ⟨30, "frame_push", Service.pushFrame⟩,
      ⟨31, "frame_pop", Service.popFrame⟩, ⟨32, "frame_declare", Service.declareInFrame⟩,
      ⟨33, "frame_get", Service.getInFrame⟩, ⟨34, "frame_set", Service.setInFrame⟩]

end RegisterMachine
