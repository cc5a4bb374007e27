import Lox.Proofs.Env.Chain
import Lox.Proofs.Eval.Bindings
import Lox.Proofs.Eval.Depth
/-!
# Hollow values are never seen

A hollow value, one that is no value at all, enters evaluation in two places: a binding may be
hollow, and a native function may return nothing. Reading a variable turns a hollow binding into
`nil`, and a call turns a missing result into `nil`; everything else passes values on as they
are. So evaluation cannot tell a hollow value from `nil`: on the machine with every hollow
binding, and every missing result of a native, replaced by `nil` (`Machine.fillHollow`),
evaluation gives the same result and leaves the machine it left otherwise, filled the same way
(`Expr.eval_fillHollow`), by one structural induction whose sequencing steps all go through
`Expr.andThen_fillHollow`.

The value of an evaluation is a `Value` and never hollow, and every assignment stores such a
value, so no binding becomes hollow (`interpret_never_hollow`); in particular comparing any tree
with `nil` is true exactly when its value is `nil`.
-/

namespace Lox

/-- A possibly hollow value with `nil` in place of nothing. -/
def Value.fill (v : Option Value) : Option Value :=
  some (v.getD .nil)

@[simp] theorem Value.getD_fill (v : Option Value) : (Value.fill v).getD .nil = v.getD .nil := rfl

@[simp] theorem Value.fill_some (v : Value) : Value.fill (some v) = some v := rfl

/-! ## Filling the hollow values of a machine -/

/-- The scope with `nil` in every hollow binding. -/
def Scope.fillHollow (s : Scope) : Scope :=
  ⟨s.bindings.map fun b => (b.1, Value.fill b.2)⟩

/-- The chain with `nil` in every hollow binding. -/
def Env.fillHollow (env : Env) : Env :=
  ⟨env.scopes.map Scope.fillHollow⟩

/-- A native that returns nothing returns `nil` instead. -/
def Behaviour.fillHollow : Behaviour → Behaviour
  | .constant result => .constant (Value.fill result)
  | .program respond history => .program (fun calls args => (respond calls args).map Value.fill)
      history
  | b => b

/-- The host whose natives return `nil` where they returned nothing. -/
def Host.fillHollow (h : Host) : Host :=
  { h with natives := h.natives.map Behaviour.fillHollow }

/-- The machine with `nil` in every hollow binding and for every missing result of a native. -/
def Machine.fillHollow (m : Machine) : Machine :=
  { m with env := m.env.fillHollow, host := m.host.fillHollow }

namespace Scope

theorem find?_fillHollow (s : Scope) (name : String) :
    s.fillHollow.find? name = (s.find? name).map Value.fill := by
  unfold fillHollow find?
  rw [List.find?_map, Option.map_map, Option.map_map]
  rfl

theorem define_fillHollow (s : Scope) (name : String) (v : Value) :
    s.fillHollow.define name (some v) = (s.define name (some v)).fillHollow := by
  unfold define fillHollow
  have names : (s.bindings.map fun b => (b.1, Value.fill b.2)).any (·.1 == name) =
      s.bindings.any (·.1 == name) := by
    simp only [List.any_map]
    rfl
  rw [names]
  split
  · congr 1
    simp only [List.map_map]
    congr 1
    funext b
    by_cases same : b.1 = name <;> simp [same]
  · simp

end Scope

namespace Env

@[simp] theorem length_fillHollow (env : Env) : env.fillHollow.scopes.length = env.scopes.length :=
  List.length_map _

theorem binding?_fillHollow (env : Env) (i : Nat) (name : String) :
    env.fillHollow.binding? i name = (env.binding? i name).map Value.fill := by
  unfold binding? fillHollow
  rw [List.getElem?_map]
  cases env.scopes[i]? with
  | none => rfl
  | some s => simp [Scope.find?_fillHollow]

theorem owner?_fillHollow (env : Env) (start : Nat) (name : String) :
    env.fillHollow.owner? start name = env.owner? start name :=
  owner?_congr (fun i => by rw [binding?_fillHollow, Option.isSome_map]) start

/-- Reading a name from the filled chain reads its binding with `nil` for nothing. -/
theorem lookup_fillHollow (env : Env) (start : Nat) (name : String) :
    env.fillHollow.lookup start name = (env.lookup start name).map Value.fill := by
  rw [lookup_eq, lookup_eq, owner?_fillHollow]
  cases env.owner? start name with
  | none => rfl
  | some i =>
    simp only [Option.bind_some, binding?_fillHollow]
    cases env.binding? i name <;> rfl

theorem define_fillHollow (env : Env) (target : Nat) (name : String) (v : Value) :
    env.fillHollow.define target name (some v) = (env.define target name (some v)).fillHollow := by
  unfold define fillHollow
  congr 1
  apply List.ext_getElem?
  intro i
  simp only [List.getElem?_modify, List.getElem?_map]
  split <;> cases env.scopes[i]? <;> simp [Scope.define_fillHollow]

/-- Assigning on the filled chain is assigning and then filling. -/
theorem assign_fillHollow (env : Env) (start : Nat) (name : String) (v : Value) :
    env.fillHollow.assign start name (some v) =
      (env.assign start name (some v)).map Env.fillHollow := by
  rw [assign_eq, assign_eq, owner?_fillHollow]
  cases env.owner? start name with
  | none => rfl
  | some i => simp [define_fillHollow, Except.map]

end Env

namespace Host

/-- A call on the filled host gives what the call gives, up to `nil` for nothing, and leaves the
host it leaves, filled. -/
theorem call_fillHollow (h : Host) (f : NativeRef) (args : List Value) :
    (h.fillHollow.call f args).1.map (·.getD .nil) = (h.call f args).1.map (·.getD .nil) ∧
      (h.fillHollow.call f args).2 = (h.call f args).2.fillHollow := by
  unfold call fillHollow
  simp only [Array.getElem?_map]
  cases h.natives[f.id]? with
  | none => exact ⟨rfl, rfl⟩
  | some b =>
    cases b with
    | length => cases args.head? with
      | none => exact ⟨rfl, rfl⟩
      | some first => cases first <;> exact ⟨rfl, rfl⟩
    | counter calls =>
      refine ⟨rfl, ?_⟩
      simp [Array.set!_eq_setIfInBounds, Array.map_setIfInBounds, Behaviour.fillHollow]
    | program respond history =>
      refine ⟨?_, ?_⟩
      · show ((respond history args).map Value.fill).map (·.getD .nil) =
          (respond history args).map (·.getD .nil)
        cases respond history args <;> rfl
      · simp [Array.set!_eq_setIfInBounds, Array.map_setIfInBounds, Behaviour.fillHollow]
    | _ => exact ⟨rfl, rfl⟩

end Host

namespace Machine

@[simp] theorem fillHollow_env (m : Machine) : m.fillHollow.env = m.env.fillHollow := rfl

@[simp] theorem fillHollow_host (m : Machine) : m.fillHollow.host = m.host.fillHollow := rfl

@[simp] theorem note_fillHollow (m : Machine) (e : Event) :
    m.fillHollow.note e = (m.note e).fillHollow := rfl

@[simp] theorem scope_fillHollow (m : Machine) : m.fillHollow.scope = m.scope := by
  simp [scope, Env.innermost]

end Machine

/-! ## Evaluation on a filled machine -/

namespace Expr

/-- A run with its machine filled. -/
abbrev FilledRun {α : Type} (run : Except Fault α × Machine) : Except Fault α × Machine :=
  (run.1, run.2.fillHollow)

/-- **Filling in a sequence.** A step that runs on a filled machine as it runs on the machine,
filled, does so after a run as well. -/
theorem andThen_fillHollow {α β : Type} (run : Except Fault α × Machine)
    {next : α → Machine → Except Fault β × Machine}
    (steps : ∀ v m, next v m.fillHollow = FilledRun (next v m)) :
    andThen (FilledRun run) next = FilledRun (andThen run next) := by
  rcases run with ⟨f | v, m⟩
  · rfl
  · exact steps v m

mutual

/-- **Hollow values read as `nil`.** Evaluation on the filled machine gives the same result as on
the machine, and leaves the machine it leaves, filled. -/
theorem eval_fillHollow (bound : DepthBound) (d : Nat) (e : Expr) (m : Machine) :
    eval bound d e m.fillHollow = FilledRun (eval bound d e m) := by
  rw [eval.eq_def, eval.eq_def]
  split
  · rfl
  · match e with
    | missing | vacant _ | literal _ => rfl
    | var name =>
      dsimp only
      split
      · rfl
      · -- a hollow binding is read as `nil`, and so is the `nil` that fills it
        rw [Machine.fillHollow_env, Machine.scope_fillHollow, Env.lookup_fillHollow]
        cases m.env.lookup m.scope name.lexeme with
        | error f => rfl
        | ok v => simp [Except.map]
    | grouping inner => exact eval_fillHollow bound (d + 1) inner m
    | assign name value =>
      dsimp only
      split
      · rfl
      · rw [eval_fillHollow bound (d + 1) value m]
        refine andThen_fillHollow _ fun v m' => ?_
        rw [Machine.fillHollow_env, Machine.scope_fillHollow, Env.assign_fillHollow]
        cases m'.env.assign m'.scope name.lexeme (some v) with
        | error f => rfl
        | ok env => rfl
    | unary op operand =>
      dsimp only
      split
      · rfl
      · rw [eval_fillHollow bound (d + 1) operand m]
        refine andThen_fillHollow _ fun v m' => ?_
        split
        · rfl
        · split <;> rfl
    | binary left op right =>
      dsimp only
      split
      · rfl
      · rw [eval_fillHollow bound (d + 1) left m]
        refine andThen_fillHollow _ fun l m' => ?_
        rw [eval_fillHollow bound (d + 1) right m']
        exact andThen_fillHollow _ fun r m'' => rfl
    | logical left op right =>
      dsimp only
      split
      · rfl
      · rw [eval_fillHollow bound (d + 1) left m]
        refine andThen_fillHollow _ fun l m' => ?_
        split
        · rfl
        · exact eval_fillHollow bound (d + 1) right m'
    | call callee paren args =>
      dsimp only
      rw [eval_fillHollow bound (d + 1) callee m]
      refine andThen_fillHollow _ fun c m' => ?_
      rw [evalArgs_fillHollow bound (d + 1) args m']
      refine andThen_fillHollow _ fun vs m'' => ?_
      -- a native's missing result is read as `nil`, and so is the `nil` that fills it
      split
      · split
        · rfl
        · next f _ =>
          simp only [Machine.note_fillHollow, Machine.fillHollow_host]
          obtain ⟨result, host⟩ := Host.call_fillHollow (m''.note (.call f.text f.arity)).host f vs
          generalize m''.note (.call f.text f.arity) = n at result host ⊢
          rcases called : n.host.call f vs with ⟨r, h⟩
          rcases filled : n.host.fillHollow.call f vs with ⟨r', h'⟩
          rw [called, filled] at result host
          simp only at host
          subst host
          cases r <;> cases r' <;>
            simp only [Except.map, Except.error.injEq, Except.ok.injEq, reduceCtorEq] at result
          · subst result; rfl
          · dsimp only
            rw [result]
            rfl
      · rfl

theorem evalArgs_fillHollow (bound : DepthBound) (d : Nat) (args : List Expr) (m : Machine) :
    evalArgs bound d args m.fillHollow = FilledRun (evalArgs bound d args m) := by
  match args with
  | [] => rfl
  | a :: rest =>
    rw [evalArgs, evalArgs, eval_fillHollow bound d a m]
    refine andThen_fillHollow _ fun v m' => ?_
    rw [evalArgs_fillHollow bound d rest m']
    exact andThen_fillHollow _ fun vs m'' => rfl

end

end Expr

theorem Machine.interpret_fillHollow (m : Machine) (bound : DepthBound) (e : Expr) :
    m.fillHollow.interpret bound e = Expr.FilledRun (m.interpret bound e) := by
  unfold interpret
  rw [Expr.eval_fillHollow]
  rcases e.eval bound 0 m with ⟨f | v, m'⟩ <;> rfl

/-- Every binding that an interpretation changes holds a value afterwards. -/
theorem Machine.interpret_binding?_changed (m : Machine) (bound : DepthBound) (e : Expr)
    (i : Nat) (x : String) (changed : (m.interpret bound e).2.env.binding? i x ≠ m.env.binding? i x) :
    ∃ v, (m.interpret bound e).2.env.binding? i x = some (some v) := by
  have replays := m.interpret_replays bound e
  unfold Machine.Replays at replays
  rw [replays, Env.binding?_replay] at changed ⊢
  -- a binding that moved was written, and a write is a value
  split at changed
  · next v _ =>
    split at changed
    · exact ⟨v, by simp_all⟩
    · exact absurd rfl changed
  · exact absurd rfl changed

/-- Comparing a tree with `nil`: true exactly when the tree's value is `nil`. -/
theorem Expr.eval_equal_nil {bound : DepthBound} {d : Nat} {e : Expr} {op : Token}
    {m m' : Machine} {v : Value} (isEqual : op.kind = .equalEqual)
    (valued : eval bound (d + 1) e m = (.ok v, m')) :
    eval bound d (.binary e op (.literal (some .nil))) m =
      (.ok (.bool (Value.equal (some v) (some .nil))), m') := by
  -- the tree was evaluated one level down, so the bound lets both operands through
  have deeper : bound.exceeded (d + 1) = false := by
    cases deep : bound.exceeded (d + 1)
    · rfl
    · rw [eval.eq_def, if_pos deep] at valued
      cases valued
  have here : bound.exceeded d = false := exceeded_eq_false_of_le (Nat.le_succ d) deeper
  have isBinary : op.kind.isBinary = true := by rw [isEqual]; rfl
  rw [eval.eq_def, if_neg (by simp [here])]
  simp only [isBinary, Bool.not_true, Bool.false_eq_true, if_false, valued, andThen]
  rw [eval.eq_def, if_neg (by simp [deeper])]
  simp [Value.ofLiteral, binaryValue, isEqual]

theorem Value.equal_nil_iff (v : Value) : Value.equal (some v) (some .nil) = true ↔ v = .nil := by
  cases v <;> simp [Value.equal]

/-- **No hollow value escapes evaluation.** A hollow binding, or a native function's missing
result, is read as `nil`: interpreting on the machine with every such hollow value replaced by
`nil` gives the same value or error, and the machine it leaves is the one left otherwise, filled
the same way. A successful interpretation has a value, never a hollow one, and each binding it
changes holds a value afterwards, since every assignment stores the value of its operand. So for
every tree that evaluates to a value, comparing it with `nil` is true exactly when that value is
`nil`. -/
theorem interpret_never_hollow (bound : DepthBound) :
    (∀ (m : Machine) (e : Expr), m.fillHollow.interpret bound e =
        ((m.interpret bound e).1, (m.interpret bound e).2.fillHollow)) ∧
    (∀ (m : Machine) (e : Expr) i x, (m.interpret bound e).2.env.binding? i x ≠ m.env.binding? i x →
        ∃ v, (m.interpret bound e).2.env.binding? i x = some (some v)) ∧
    ∀ d e (op : Token) (m m' : Machine) (v : Value), op.kind = .equalEqual →
      Expr.eval bound (d + 1) e m = (.ok v, m') →
      ∃ b, Expr.eval bound d (.binary e op (.literal (some .nil))) m = (.ok (.bool b), m') ∧
        (b = true ↔ v = .nil) :=
  ⟨fun m e => m.interpret_fillHollow bound e,
    fun m e i x changed => m.interpret_binding?_changed bound e i x changed,
    fun _ _ _ _ _ v isEqual valued =>
      ⟨_, Expr.eval_equal_nil isEqual valued, Value.equal_nil_iff v⟩⟩

/-- A name token `x`. -/
def xToken : Token := ⟨.identifier, "x", none, 1, 1⟩

/-- An `==` token. -/
def equalToken : Token := ⟨.equalEqual, "==", none, 1, 3⟩

/-- One scope where `x` is hollow. -/
def hollowX : Machine :=
  { env := ⟨[⟨[("x", none)]⟩]⟩, host := {} }

/-- A hollow `x` reads as `nil`, so `x == nil` is true. -/
theorem interpret_never_hollow_variable :
    equalToken.kind = .equalEqual ∧
      Expr.eval none 1 (.var xToken) hollowX = (.ok .nil, hollowX) ∧
      Expr.eval none 0 (.binary (.var xToken) equalToken (.literal (some .nil))) hollowX =
        (.ok (.bool true), hollowX) := by
  have isEqual : equalToken.kind = .equalEqual := rfl
  have valued : Expr.eval none 1 (.var xToken) hollowX = (.ok .nil, hollowX) := rfl
  obtain ⟨b, compared, nilIff⟩ :=
    (interpret_never_hollow none).2.2 0 _ _ _ _ _ isEqual valued
  rw [nilIff.2 rfl] at compared
  exact ⟨isEqual, valued, compared⟩

end Lox
