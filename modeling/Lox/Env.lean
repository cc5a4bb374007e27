import Lox.Value
/-!
# Environments: chains of scopes

An environment is a list of scopes, outermost first. Every operation starts from one scope of the
chain. Defining binds a name in the starting scope itself, replacing a binding of the same name
there. Reading and assigning look at the starting scope and, where it does not bind the name, go
on from the scope around it, each on its own: reading answers with the binding it finds, assigning
replaces it, and both fail past the outermost scope, where assigning changes nothing. So a name
means its binding in the innermost scope, at or outside the starting one, that binds it
(`Env.owner?`).
-/

namespace Lox

/-- One scope: its bindings, each a name with a value or hollow. -/
structure Scope where
  bindings : List (String × Option Value) := []
  deriving Inhabited

namespace Scope

/-- The binding of a name in this scope alone. -/
def find? (s : Scope) (name : String) : Option (Option Value) :=
  (s.bindings.find? (·.1 == name)).map (·.2)

/-- Binds a name in this scope, in place of an earlier binding of the name. -/
def define (s : Scope) (name : String) (v : Option Value) : Scope :=
  if s.bindings.any (·.1 == name) then
    ⟨s.bindings.map fun b => if b.1 == name then (name, v) else b⟩
  else ⟨s.bindings ++ [(name, v)]⟩

end Scope

/-- A chain of scopes, outermost first. -/
structure Env where
  scopes : List Scope
  deriving Inhabited

namespace Env

/-- A chain of `depth` empty scopes. -/
def empty (depth : Nat) : Env :=
  ⟨List.replicate depth {}⟩

/-- The innermost scope's index. -/
def innermost (env : Env) : Nat :=
  env.scopes.length - 1

/-- The index of the innermost scope at or outside scope `start` that binds a name. -/
def owner? (env : Env) (start : Nat) (name : String) : Option Nat :=
  ((List.range (start + 1)).reverse.filter (· < env.scopes.length)).find? fun i =>
    ((env.scopes[i]?.map (·.find? name)).join).isSome

/-- Binds a name in scope `target`. -/
def define (env : Env) (target : Nat) (name : String) (v : Option Value) : Env :=
  ⟨env.scopes.modify target (·.define name v)⟩

/-- The binding of a name in scope `i` alone; none if there is no such scope or it does not bind
the name. -/
def binding? (env : Env) (i : Nat) (name : String) : Option (Option Value) :=
  (env.scopes[i]?.map (·.find? name)).join

/-- **Reading** a name from scope `start`: its binding there if that scope binds it, and
otherwise the name read from the scope around it; past the outermost scope, an undefined-name
fault without position. -/
def lookup (env : Env) (start : Nat) (name : String) : Except Fault (Option Value) :=
  match env.binding? start name, start with
  | some v, _ => .ok v
  | none, 0 => .error (Problem.undefinedVariable name).unplaced
  | none, outer + 1 => env.lookup outer name

/-- **Assigning** a name from scope `start`: its binding there is replaced if that scope binds it,
and otherwise the name is assigned from the scope around it; past the outermost scope it fails as
reading does, and nothing changes. -/
def assign (env : Env) (start : Nat) (name : String) (v : Option Value) : Except Fault Env :=
  match env.binding? start name, start with
  | some _, _ => .ok (env.define start name v)
  | none, 0 => .error (Problem.undefinedVariable name).unplaced
  | none, outer + 1 => env.assign outer name v

end Env

end Lox
