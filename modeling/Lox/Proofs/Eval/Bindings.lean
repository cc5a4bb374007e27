import Lox.Eval
import Lox.Proofs.Env.Writes
import Lox.Proofs.Fault.Attach
/-!
# What evaluation does to the environment

Evaluation declares no name and removes none. The only change it makes to the environment is
the one each assignment makes: the binding that reading the name from the innermost scope would
find takes the assigned value. Native functions are called with the host alone, so a call
changes the host and never the environment.

`Expr.writes` lists the assignments an evaluation carries out, in order: each assignment node
whose value was computed and whose name some scope binds, with that value. `Expr.eval_replays`
proves that the environment after evaluation is the one before with these writes replayed, by
one structural induction whose sequencing steps all go through `Machine.Replays.andThen`.
The theory of replayed writes then says which bindings change and to what, and since replays
compose, the same holds of a whole session of interpretations.
-/

namespace Lox

namespace Expr

/-- The writes after a run: those `later` makes from the value and machine the run leaves, none
if it failed. -/
def writesAfter {α : Type} (run : Except Fault α × Machine)
    (later : α → Machine → List (String × Value)) : List (String × Value) :=
  match run with
  | (.error _, _) => []
  | (.ok v, m) => later v m

mutual

/-- **The writes of an evaluation.** The assignments that evaluation of `e` at depth `d` from the
machine `m` carries out, in order: each assignment node whose value is computed and whose name
some scope binds, with that value. -/
def writes (bound : DepthBound) (d : Nat) (e : Expr) (m : Machine) : List (String × Value) :=
  if bound.exceeded d then []
  else match e with
    | assign name value =>
      if name.kind ≠ .identifier then []
      else writes bound (d + 1) value m ++ writesAfter (eval bound (d + 1) value m) fun v m =>
        if (m.env.owner? m.scope name.lexeme).isSome then [(name.lexeme, v)] else []
    | binary left op right =>
      if !op.kind.isBinary then []
      else writes bound (d + 1) left m ++ writesAfter (eval bound (d + 1) left m) fun _ m =>
        writes bound (d + 1) right m
    | logical left op right =>
      if !op.kind.isLogical then []
      else writes bound (d + 1) left m ++ writesAfter (eval bound (d + 1) left m) fun l m =>
        if (op.kind == .orWord) == Value.truthy (some l) then [] else writes bound (d + 1) right m
    | grouping inner => writes bound (d + 1) inner m
    | unary op operand => if !op.kind.isUnary then [] else writes bound (d + 1) operand m
    | call callee _ args =>
      writes bound (d + 1) callee m ++ writesAfter (eval bound (d + 1) callee m) fun _ m =>
        writesArgs bound (d + 1) args m
    | literal _ | var _ | missing | vacant _ => []

/-- The writes of the evaluation of a call's arguments at depth `d`. -/
def writesArgs (bound : DepthBound) (d : Nat) (args : List Expr) (m : Machine) :
    List (String × Value) :=
  match args with
  | [] => []
  | a :: rest =>
    writes bound d a m ++ writesAfter (eval bound d a m) fun _ m => writesArgs bound d rest m

end

end Expr

/-- `m'` is `m` with the writes replayed on its environment, from its innermost scope. -/
def Machine.Replays (m m' : Machine) (writes : List (String × Value)) : Prop :=
  m'.env = m.env.replay m.scope writes

namespace Machine.Replays

variable {m m' m'' : Machine}

theorem refl (m : Machine) : m.Replays m [] := rfl

theorem scope_eq {writes : List (String × Value)} (replays : m.Replays m' writes) :
    m'.scope = m.scope := by
  unfold Machine.Replays at replays
  simp only [Machine.scope, Env.innermost, replays, Env.length_replay]

theorem trans {writes writes' : List (String × Value)} (first : m.Replays m' writes)
    (second : m'.Replays m'' writes') : m.Replays m'' (writes ++ writes') := by
  have same := first.scope_eq
  unfold Machine.Replays at *
  rw [second, same, first, Env.replay_append]

/-- **Writes in a sequence.** A run followed by a step writes what the run writes and then what
the step writes. -/
theorem andThen {α β : Type} {first : Except Fault α × Machine} {writes : List (String × Value)}
    (replays : m.Replays first.2 writes) {next : α → Machine → Except Fault β × Machine}
    {later : α → Machine → List (String × Value)}
    (steps : ∀ v (m' : Machine), m'.Replays (next v m').2 (later v m')) :
    m.Replays (Expr.andThen first next).2 (writes ++ Expr.writesAfter first later) := by
  rcases first with ⟨f | v, m₁⟩
  · simpa [Expr.andThen, Expr.writesAfter] using replays
  · exact replays.trans (steps v m₁)

/-- A run followed by a step that leaves the environment alone writes what the run writes. -/
theorem andThen_keep {α β : Type} {first : Except Fault α × Machine}
    {writes : List (String × Value)} (replays : m.Replays first.2 writes)
    {next : α → Machine → Except Fault β × Machine}
    (keeps : ∀ v m', (next v m').2.env = m'.env) :
    m.Replays (Expr.andThen first next).2 writes := by
  have steps : ∀ v (m' : Machine), m'.Replays (next v m').2 ((fun _ _ => []) v m') :=
    fun v m' => keeps v m'
  have := andThen replays steps
  rcases first with ⟨f | v, m₁⟩ <;> simpa [Expr.writesAfter] using this

end Machine.Replays

namespace Expr

mutual

/-- **Evaluation only writes.** The environment after evaluating a tree is the one before with
the tree's writes replayed. -/
theorem eval_replays (bound : DepthBound) (d : Nat) (e : Expr) (m : Machine) :
    m.Replays (eval bound d e m).2 (writes bound d e m) := by
  by_cases deep : bound.exceeded d = true
  · rw [eval.eq_def, writes.eq_def, if_pos deep, if_pos deep]
    exact Machine.Replays.refl m
  · rw [eval.eq_def, writes.eq_def, if_neg deep, if_neg deep]
    match e with
    | missing | vacant _ | literal _ => exact Machine.Replays.refl m
    | var name =>
      dsimp only
      split
      · exact .refl m
      · split <;> exact .refl m
    | grouping inner => exact eval_replays bound (d + 1) inner m
    | assign name value =>
      dsimp only
      by_cases named : name.kind ≠ .identifier
      · simp only [if_pos named]; exact .refl m
      · simp only [if_neg named]
        refine (eval_replays bound (d + 1) value m).andThen fun v m' => ?_
        split
        · next f failed =>
          have := (Env.assign_eq_error failed).1
          simp [this]; exact .refl m'
        · next env assigned =>
          obtain ⟨owned, rfl⟩ := Env.assign_eq_ok assigned
          simp [owned]; rfl
    | unary op operand =>
      dsimp only
      split
      · exact .refl m
      · refine (eval_replays bound (d + 1) operand m).andThen_keep fun v m' => ?_
        split
        · rfl
        · split <;> rfl
    | binary left op right =>
      dsimp only
      split
      · exact .refl m
      · refine (eval_replays bound (d + 1) left m).andThen fun l m' => ?_
        exact (eval_replays bound (d + 1) right m').andThen_keep fun r m'' => rfl
    | logical left op right =>
      dsimp only
      split
      · exact .refl m
      · refine (eval_replays bound (d + 1) left m).andThen fun l m' => ?_
        split
        · exact .refl m'
        · exact eval_replays bound (d + 1) right m'
    | call callee paren args =>
      dsimp only
      refine (eval_replays bound (d + 1) callee m).andThen fun c m' => ?_
      refine (evalArgs_replays bound (d + 1) args m').andThen_keep fun vs m'' => ?_
      -- a call changes only the host and the trace
      split
      · split
        · rfl
        · split <;> rfl
      · rfl

theorem evalArgs_replays (bound : DepthBound) (d : Nat) (args : List Expr) (m : Machine) :
    m.Replays (evalArgs bound d args m).2 (writesArgs bound d args m) := by
  match args with
  | [] => exact .refl m
  | a :: rest =>
    rw [evalArgs, writesArgs]
    refine (eval_replays bound d a m).andThen fun v m' => ?_
    exact (evalArgs_replays bound d rest m').andThen_keep fun vs m'' => rfl

end

end Expr

theorem Machine.interpret_replays (m : Machine) (bound : DepthBound) (e : Expr) :
    m.Replays (m.interpret bound e).2 (e.writes bound 0 m) := by
  have replays := Expr.eval_replays bound 0 e m
  unfold Machine.interpret
  split <;> simp_all [Machine.Replays, Machine.note]

/-- The machine after interpreting trees one after another on it, as a session does. -/
def Machine.interpretAll (m : Machine) (bound : DepthBound) (trees : List Expr) : Machine :=
  trees.foldl (fun m e => (m.interpret bound e).2) m

theorem Machine.interpretAll_replays (m : Machine) (bound : DepthBound) (trees : List Expr) :
    ∃ writes, m.Replays (m.interpretAll bound trees) writes := by
  induction trees generalizing m with
  | nil => exact ⟨[], .refl m⟩
  | cons e trees ih =>
    obtain ⟨writes, later⟩ := ih (m.interpret bound e).2
    exact ⟨_, (m.interpret_replays bound e).trans later⟩

/-- An assignment to a name that no scope binds fails with an undefined-name error at the name,
if the name has a position, and leaves the machine as its value's evaluation left it. -/
theorem Expr.eval_assign_unbound {bound : DepthBound} {d : Nat} {name : Token} {value : Expr}
    {m m' : Machine} {v : Value} (within : bound.exceeded d = false)
    (named : name.kind = .identifier) (valued : eval bound (d + 1) value m = (.ok v, m'))
    (unbound : ∀ i, m'.env.binding? i name.lexeme = none) :
    eval bound d (.assign name value) m =
      (.error ((Problem.undefinedVariable name.lexeme).unplaced.withToken name), m') := by
  have unowned : m'.env.owner? m'.scope name.lexeme = none :=
    Env.owner?_eq_none_iff.2 fun i _ => unbound i
  rw [eval.eq_def, if_neg (by simp [within])]
  simp only [named, ne_eq, not_true_eq_false, if_false, valued, andThen, Env.assign_eq, unowned]

/-- **Evaluation declares nothing, and writes only where reading finds.** Interpreting a tree on a
machine keeps every scope binding the same names. A binding changes only if it is the one that
reading its name from the innermost scope finds and an assignment to the name was carried out
(`Expr.writes`); it then holds the value of the last such assignment. An assignment to a name no
scope binds fails with an undefined-name error, at the name when it has a position, and changes
nothing. Over a whole session of interpretations, no scope gains or loses a name and no binding
hidden behind a binding further in ever changes. -/
theorem interpret_rebinds_only (bound : DepthBound) :
    (∀ (m : Machine) (e : Expr),
      (m.interpret bound e).2.env.scopes.length = m.env.scopes.length ∧
      (∀ i x, ((m.interpret bound e).2.env.binding? i x).isSome =
        (m.env.binding? i x).isSome) ∧
      ∀ i x, (m.interpret bound e).2.env.binding? i x =
        match Env.lastWrite? (e.writes bound 0 m) x with
        | some v => if m.env.owner? m.scope x = some i then some (some v) else m.env.binding? i x
        | none => m.env.binding? i x) ∧
    (∀ (d : Nat) (name : Token) (value : Expr) (m m' : Machine) (v : Value),
      bound.exceeded d = false → name.kind = .identifier →
      Expr.eval bound (d + 1) value m = (.ok v, m') →
      (∀ i, m'.env.binding? i name.lexeme = none) →
      ∃ f, Expr.eval bound d (.assign name value) m = (.error f, m') ∧
        f.kind = .undefinedName ∧ f.token? = (if name.located then some name else none)) ∧
    ∀ (m : Machine) (trees : List Expr),
      (∀ i x, ((m.interpretAll bound trees).env.binding? i x).isSome =
        (m.env.binding? i x).isSome) ∧
      ∀ i j x, i < j → j ≤ m.scope → (m.env.binding? j x).isSome →
        (m.interpretAll bound trees).env.binding? i x = m.env.binding? i x := by
  refine ⟨fun m e => ?_, fun d name value m m' v within named valued unbound => ?_,
    fun m trees => ?_⟩
  · have replays := m.interpret_replays bound e
    unfold Machine.Replays at replays
    rw [replays]
    exact ⟨Env.length_replay _ _ _, fun i x => Env.isSome_binding?_replay _ _ _ _ _,
      fun i x => Env.binding?_replay _ _ _ _ _⟩
  · refine ⟨_, Expr.eval_assign_unbound within named valued unbound, ?_, ?_⟩ <;>
      rw [Problem.unplaced_withToken]
    · rfl
    · simp [Problem.raiseAt, Fault.raise, Fault.token?, Fault.firstRaised?]
  · obtain ⟨writes, replays⟩ := m.interpretAll_replays bound trees
    unfold Machine.Replays at replays
    rw [replays]
    exact ⟨fun i x => Env.isSome_binding?_replay _ _ _ _ _,
      fun i j x outer within shadowing => Env.binding?_replay_of_shadowed outer within shadowing _⟩

/-- Two scopes that both bind `x` to `nil`. -/
def twoScopes : Machine :=
  { env := ⟨[⟨[("x", some .nil)]⟩, ⟨[("x", some .nil)]⟩]⟩, host := {} }

/-- An assignment of `nil` to `x` with no scope at all fails at `x`; and a binding of `x` in the
outer of two scopes that both bind it stays as it is over any session. -/
theorem interpret_rebinds_only_unbound :
    DepthBound.exceeded none 0 = false ∧
      (⟨.identifier, "x", none, 1, 1⟩ : Token).kind = .identifier ∧
      Expr.eval none 1 (.literal (some .nil)) default = (.ok .nil, default) ∧
      (∀ i, (default : Machine).env.binding? i "x" = none) ∧
      (∃ f, Expr.eval none 0 (.assign ⟨.identifier, "x", none, 1, 1⟩ (.literal (some .nil)))
          default = (.error f, default) ∧
        f.kind = .undefinedName ∧
        f.token? = if (⟨.identifier, "x", none, 1, 1⟩ : Token).located
          then some ⟨.identifier, "x", none, 1, 1⟩ else none) ∧
      0 < 1 ∧ 1 ≤ twoScopes.scope ∧ (twoScopes.env.binding? 1 "x").isSome ∧
      ∀ trees, (twoScopes.interpretAll none trees).env.binding? 0 "x" =
        twoScopes.env.binding? 0 "x" := by
  have within : DepthBound.exceeded none 0 = false := rfl
  have named : (⟨.identifier, "x", none, 1, 1⟩ : Token).kind = .identifier := rfl
  have valued : Expr.eval none 1 (.literal (some .nil)) default = (.ok .nil, default) := rfl
  have unbound : ∀ i, (default : Machine).env.binding? i "x" = none := fun i => rfl
  have shadowing : (twoScopes.env.binding? 1 "x").isSome := rfl
  exact ⟨within, named, valued, unbound,
    (interpret_rebinds_only none).2.1 0 _ _ _ _ _ within named valued unbound,
    Nat.one_pos, Nat.le_refl 1, shadowing,
    fun trees => ((interpret_rebinds_only none).2.2 twoScopes trees).2 0 1 "x" Nat.one_pos
      (Nat.le_refl 1) shadowing⟩

end Lox
