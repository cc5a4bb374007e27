import Lox.Env
/-!
# Native functions

A native function value names an entry of the host's table, which says what the function does
when called. The table also holds the state of the functions that keep one (a counter counts its
calls) and the reading of the clock.

Besides the globals and the few fixed functions a test host registers, a native function may be
any program of its own calls (`Behaviour.program`): its answer, a result or a fault, may depend on
its arguments and on the arguments of every call made to it before. A native function touches
nothing but its own state; one that reads or changes the environment is not modelled.

The four globals are `clock` (no arguments: the clock reading in seconds), `type` (the type name
of its argument), `str` (the text of its argument) and `len` (the number of characters of a
string argument; any other argument is a type error).
-/

namespace Lox

/-- What a native function does when called. -/
inductive Behaviour where
  /-- Returns the clock reading. -/
  | clock
  /-- Returns the type name of its argument. -/
  | typeOf
  /-- Returns the text of its argument. -/
  | textOf
  /-- Returns the number of characters of its string argument. -/
  | length
  /-- Returns a fixed value, or nothing. -/
  | constant (result : Option Value)
  /-- Returns one of its arguments. -/
  | argument (index : Nat)
  /-- Returns how many times it has been called, this call included; `calls` counts the calls
  made so far. -/
  | counter (calls : Nat)
  /-- Fails with a fault. -/
  | failure (fault : Fault)
  /-- Answers as `respond` says from the argument lists of the calls made so far, `history`,
  oldest first, and the arguments of this call; the call is then added to the history. -/
  | program (respond : List (List Value) → List Value → Except Fault (Option Value))
      (history : List (List Value))
  deriving Inhabited

/-- The native functions of a run, by identity, and the clock reading they see. -/
structure Host where
  natives : Array Behaviour := #[]
  clock : Float := 0
  deriving Inhabited

namespace Host

/-- Adds a native function and returns the value that names it. -/
def register (h : Host) (name : String) (arity : Int) (b : Behaviour) : NativeRef × Host :=
  (⟨h.natives.size, name, arity⟩, { h with natives := h.natives.push b })

/-- Calls a native function with its arguments: its result, absent if it returns nothing, or its
fault; and the host after the call. -/
def call (h : Host) (f : NativeRef) (args : List Value) : Except Fault (Option Value) × Host :=
  let first := args.head?
  match h.natives[f.id]? with
  | some .clock => (.ok (some (.number h.clock)), h)
  | some .typeOf => (.ok (some (.str (Value.typeName first))), h)
  | some .textOf => (.ok (some (.str (Value.text first))), h)
  | some .length =>
    match first with
    | some (.str s) => (.ok (some (.number (Float.ofNat s.length))), h)
    | other => (.error (Problem.lengthOfNonString (Value.typeName other)).unplaced, h)
  | some (.constant result) => (.ok result, h)
  | some (.argument i) => (.ok args[i]?, h)
  | some (.counter calls) =>
    (.ok (some (.number (Float.ofNat (calls + 1)))),
      { h with natives := h.natives.set! f.id (.counter (calls + 1)) })
  | some (.failure fault) => (.error fault, h)
  | some (.program respond history) =>
    (respond history args,
      { h with natives := h.natives.set! f.id (.program respond (history ++ [args])) })
  | none => (.ok none, h)

/-- The four globals, in the order they are defined. -/
def globals : List (String × Int × Behaviour) :=
  [("clock", 0, .clock), ("type", 1, .typeOf), ("str", 1, .textOf), ("len", 1, .length)]

/-- Registers the four globals and defines them in scope `target` of an environment. -/
def defineGlobals (h : Host) (env : Env) (target : Nat) : Host × Env :=
  globals.foldl (fun (h, env) (name, arity, b) =>
    let (f, h) := h.register name arity b
    (h, env.define target name (some (.native f)))) (h, env)

end Host

end Lox
