import Mathlib
import Lox.Proofs.Eval.Bindings
import Lox.Proofs.Parse.Report
import Lox.Proofs.Scan.Lines
/-!
# The errors of well-formed trees

The printer and the evaluator check every node of a tree for the shape a parser gives it, and
fail with a malformed-tree error where it is missing. On a well-formed tree (`Expr.WellFormed`)
those checks never fail:

* printing fails only by going past the depth bound (`Expr.render_wellFormed`);
* evaluation fails only by going past the depth bound, or with a fault raised at a token of the
  tree, which has a position when that token has one; and such a fault is of the malformed-tree
  kind only when it is the fault some native function of the host fails with
  (`Expr.eval_raised`).

Every fault the evaluator raises at a token is a problem raised there, or a fault of a native
function given the token's position by `Fault.withToken`, which keeps the kind of the fault and
gives it the token's position if it has none (`Fault.kind_withToken`, `Fault.token?_withToken`);
a fault of the environment given a position is the problem raised at the token
(`Problem.unplaced_withToken`). So an evaluation fault is blamed on the bound, on a token of the
tree or on a native (`Expr.eval_blamed`). The faults the natives of a host can fail with never
grow during evaluation: calls only move counters on and add to the histories of programs
(`Host.call_failsWithin`).
-/

namespace Lox

theorem Problem.kind_unplaced (p : Problem) : p.unplaced.kind = p.kind := rfl

theorem DepthBound.kind_fault (bound : DepthBound) : bound.fault.kind = .depthExceeded := rfl

/-! ## Native failures -/

/-- A native function can fail with `g`: it always fails with `g`, or it is a program that
answers `g` to some call, after any further calls. -/
def Behaviour.FailsWith (g : Fault) : Behaviour → Prop
  | .failure f => f = g
  | .program respond history => ∃ later args, respond (history ++ later) args = .error g
  | _ => False

/-- The host of a machine has a native function that can fail with `g`. -/
def Machine.Fails (m : Machine) (g : Fault) : Prop :=
  ∃ b ∈ m.host.natives, b.FailsWith g

/-- Every native failure of `m'` is one of `m`. -/
def Machine.FailsWithin (m' m : Machine) : Prop :=
  ∀ g, m'.Fails g → m.Fails g

namespace Machine.FailsWithin

theorem refl (m : Machine) : m.FailsWithin m := fun _ fails => fails

theorem trans {m m' m'' : Machine} (later : m''.FailsWithin m') (earlier : m'.FailsWithin m) :
    m''.FailsWithin m :=
  fun g fails => earlier g (later g fails)

theorem of_host {m m' : Machine} (same : m'.host = m.host) : m'.FailsWithin m := by
  intro g fails
  unfold Machine.Fails at *
  rwa [← same]

end Machine.FailsWithin

/-- A call changes the natives of the host at most by moving a counter on or adding the call to
the history of a program. -/
theorem Host.call_natives (h : Host) (f : NativeRef) (args : List Value) :
    (h.call f args).2.natives = h.natives ∨
      (∃ calls, (h.call f args).2.natives = h.natives.set! f.id (.counter (calls + 1))) ∨
      ∃ respond history, h.natives[f.id]? = some (.program respond history) ∧
        (h.call f args).2.natives = h.natives.set! f.id (.program respond (history ++ [args])) := by
  unfold Host.call
  -- a counter moves on and a program records the call; every other native leaves the table
  cases found : h.natives[f.id]? with
  | none => exact .inl rfl
  | some b =>
    cases b with
    | counter calls => exact .inr (.inl ⟨calls, rfl⟩)
    | program respond history => exact .inr (.inr ⟨respond, history, rfl, rfl⟩)
    | length => exact .inl (by dsimp only; split <;> rfl)
    | _ => exact .inl rfl

/-- A program that has recorded one more call can fail only with what it could fail with
before. -/
theorem Behaviour.failsWith_of_recorded {respond : List (List Value) → List Value →
    Except Fault (Option Value)} {history : List (List Value)} {args : List Value} {g : Fault}
    (fails : (Behaviour.program respond (history ++ [args])).FailsWith g) :
    (Behaviour.program respond history).FailsWith g := by
  obtain ⟨later, args', answered⟩ := fails
  exact ⟨[args] ++ later, args', by rwa [← List.append_assoc]⟩

/-- **A call keeps the failures.** The natives after a call can fail with no fault they could not
fail with before. -/
theorem Host.call_failsWithin (h : Host) (f : NativeRef) (args : List Value) {g : Fault}
    (fails : ∃ b ∈ (h.call f args).2.natives, b.FailsWith g) :
    ∃ b ∈ h.natives, b.FailsWith g := by
  obtain ⟨b, member, failing⟩ := fails
  rcases h.call_natives f args with same | ⟨calls, counted⟩ | ⟨respond, history, found, recorded⟩
  · exact ⟨b, same ▸ member, failing⟩
  · rw [counted, Array.set!_eq_setIfInBounds] at member
    rcases Array.mem_or_eq_of_mem_setIfInBounds member with kept | rfl
    · exact ⟨b, kept, failing⟩
    · cases failing
  · rw [recorded, Array.set!_eq_setIfInBounds] at member
    rcases Array.mem_or_eq_of_mem_setIfInBounds member with kept | rfl
    · exact ⟨b, kept, failing⟩
    · exact ⟨_, Array.mem_of_getElem? found, Behaviour.failsWith_of_recorded failing⟩

/-- A failed call fails with the fault of its native, or with the type error of the length of
something other than a string. -/
theorem Host.call_error {h : Host} {f : NativeRef} {args : List Value} {g : Fault}
    (failed : (h.call f args).1 = .error g) :
    (∃ b ∈ h.natives, b.FailsWith g) ∨ ∃ name, g = (Problem.lengthOfNonString name).unplaced := by
  unfold Host.call at failed
  -- only a failing native, a program and the length of a non-string fail
  cases found : h.natives[f.id]? with
  | none => simp [found] at failed
  | some b =>
    rw [found] at failed
    cases b with
    | failure fault =>
      cases failed
      exact .inl ⟨_, Array.mem_of_getElem? found, rfl⟩
    | program respond history =>
      exact .inl ⟨_, Array.mem_of_getElem? found, [], args, by simpa using failed⟩
    | length =>
      dsimp only at failed
      split at failed
      · cases failed
      · cases failed
        exact .inr ⟨_, rfl⟩
    | _ => cases failed

theorem Env.lookup_eq_error {env : Env} {start : Nat} {name : String} {f : Fault}
    (failed : env.lookup start name = .error f) : f = (Problem.undefinedVariable name).unplaced := by
  rw [Env.lookup_eq] at failed
  split at failed
  · cases failed
  · cases failed
    rfl

/-- A failed binary operation is a type error raised at its operator. -/
theorem binaryValue_eq_error {op : Token} {l r : Value} {f : Fault}
    (failed : binaryValue op l r = .error f) :
    f = Problem.addMismatch.raiseAt op ∨ f = Problem.operandsNotNumbers.raiseAt op := by
  unfold binaryValue at failed
  split at failed <;> cases failed <;> simp

/-! ## Printing a well-formed tree -/

theorem bind_pure_eq_error {ε α β : Type} {x : Except ε α} {result : α → β} {f : ε}
    (failed : (do let a ← x; pure (result a)) = Except.error f) : x = .error f := by
  cases x with
  | error e =>
    simp only [bind, Except.bind, Except.error.injEq] at failed
    rw [failed]
  | ok v => cases failed

theorem bind₂_eq_error {ε α β γ : Type} {x : Except ε α} {y : Except ε β} {result : α → β → γ}
    {f : ε} (failed : (do let a ← x; let b ← y; pure (result a b)) = Except.error f) :
    x = .error f ∨ y = .error f := by
  cases x with
  | error e =>
    simp only [bind, Except.bind, Except.error.injEq] at failed
    exact .inl (by rw [failed])
  | ok v => exact .inr (bind_pure_eq_error failed)

namespace Expr

variable {placed : Token → Prop}

mutual

/-- **Printing a well-formed tree fails only at the depth bound.** -/
theorem render_wellFormed (bound : DepthBound) (d : Nat) {f : Fault} :
    (e : Expr) → e.WellFormed placed → render bound d e = .error f → f = bound.fault := by
  intro e wf failed
  rw [render.eq_def] at failed
  split at failed
  · exact (Except.error.inj failed).symm
  · match e, wf with
    | .assign _ value, ⟨_, _, valueWf⟩ =>
      exact render_wellFormed bound (d + 1) value valueWf (bind_pure_eq_error failed)
    | .binary left _ right, ⟨_, _, leftWf, rightWf⟩ =>
      rcases bind₂_eq_error failed with inner | inner
      · exact render_wellFormed bound (d + 1) left leftWf inner
      · exact render_wellFormed bound (d + 1) right rightWf inner
    | .logical left _ right, ⟨_, _, leftWf, rightWf⟩ =>
      rcases bind₂_eq_error failed with inner | inner
      · exact render_wellFormed bound (d + 1) left leftWf inner
      · exact render_wellFormed bound (d + 1) right rightWf inner
    | .grouping inner, innerWf =>
      exact render_wellFormed bound (d + 1) inner innerWf (bind_pure_eq_error failed)
    | .unary _ operand, ⟨_, _, operandWf⟩ =>
      exact render_wellFormed bound (d + 1) operand operandWf (bind_pure_eq_error failed)
    | .call callee _ args, ⟨_, calleeWf, argsWf⟩ =>
      rcases bind₂_eq_error failed with inner | inner
      · exact render_wellFormed bound (d + 1) callee calleeWf inner
      · exact renderArgs_wellFormed bound (d + 1) args argsWf inner
    | .literal (some _), _ => cases failed
    | .var _, _ => cases failed

theorem renderArgs_wellFormed (bound : DepthBound) (d : Nat) {f : Fault} :
    (args : List Expr) → Expr.ArgsWellFormed placed args → renderArgs bound d args = .error f →
      f = bound.fault
  | [], _, failed => by cases failed
  | arg :: rest, ⟨argWf, restWf⟩, failed => by
    rw [renderArgs] at failed
    rcases bind₂_eq_error failed with inner | inner
    · exact render_wellFormed bound d arg argWf inner
    · exact renderArgs_wellFormed bound d rest restWf inner

end

/-! ## The native failures during evaluation -/

theorem andThen_failsWithin {α β : Type} {m : Machine} {first : Except Fault α × Machine}
    (before : first.2.FailsWithin m) {next : α → Machine → Except Fault β × Machine}
    (steps : ∀ v m', (next v m').2.FailsWithin m') : (andThen first next).2.FailsWithin m := by
  rcases first with ⟨f | v, m₁⟩
  · exact before
  · exact (steps v m₁).trans before

theorem failsWithin_of_call {m : Machine} {f : NativeRef} {vs : List Value}
    {result : Except Fault (Option Value)} {host : Host} (called : m.host.call f vs = (result, host)) :
    ({ m with host := host } : Machine).FailsWithin m := by
  intro g fails
  apply Host.call_failsWithin m.host f vs
  rw [called]
  exact fails

mutual

/-- **Evaluation keeps the failures.** The host after an evaluation fails with no fault it did not
fail with before. -/
theorem eval_failsWithin (bound : DepthBound) (d : Nat) (e : Expr) (m : Machine) :
    (eval bound d e m).2.FailsWithin m := by
  rw [eval.eq_def]
  split
  · exact .refl m
  · match e with
    | missing | vacant _ | literal _ => exact .refl m
    | var _ =>
      dsimp only
      split
      · exact .refl m
      · split <;> exact .refl m
    | grouping inner => exact eval_failsWithin bound (d + 1) inner m
    | assign _ value =>
      dsimp only
      split
      · exact .refl m
      · refine andThen_failsWithin (eval_failsWithin bound (d + 1) value m) fun v m' => ?_
        split
        · exact .refl m'
        · exact .of_host rfl
    | unary _ operand =>
      dsimp only
      split
      · exact .refl m
      · refine andThen_failsWithin (eval_failsWithin bound (d + 1) operand m) fun v m' => ?_
        split
        · exact .refl m'
        · split <;> exact .refl m'
    | binary left _ right =>
      dsimp only
      split
      · exact .refl m
      · refine andThen_failsWithin (eval_failsWithin bound (d + 1) left m) fun l m' => ?_
        exact andThen_failsWithin (eval_failsWithin bound (d + 1) right m') fun r m'' => .refl m''
    | logical left _ right =>
      dsimp only
      split
      · exact .refl m
      · refine andThen_failsWithin (eval_failsWithin bound (d + 1) left m) fun l m' => ?_
        split
        · exact .refl m'
        · exact eval_failsWithin bound (d + 1) right m'
    | call callee _ args =>
      dsimp only
      refine andThen_failsWithin (eval_failsWithin bound (d + 1) callee m) fun c m' => ?_
      refine andThen_failsWithin (evalArgs_failsWithin bound (d + 1) args m') fun vs m'' => ?_
      -- only the call of a native changes the host
      split
      · split
        · exact .refl m''
        · split
          · next called => exact (failsWithin_of_call called).trans (.of_host rfl)
          · next called => exact (failsWithin_of_call called).trans (.of_host rfl)
      · exact .refl m''

theorem evalArgs_failsWithin (bound : DepthBound) (d : Nat) (args : List Expr) (m : Machine) :
    (evalArgs bound d args m).2.FailsWithin m := by
  match args with
  | [] => exact .refl m
  | a :: rest =>
    rw [evalArgs]
    refine andThen_failsWithin (eval_failsWithin bound d a m) fun v m' => ?_
    exact andThen_failsWithin (evalArgs_failsWithin bound d rest m') fun vs m'' => .refl m''

end

theorem failsWithin_of_eval {bound : DepthBound} {d : Nat} {e : Expr} {m m' : Machine}
    {result : Except Fault Value} (ran : eval bound d e m = (result, m')) : m'.FailsWithin m := by
  have within := eval_failsWithin bound d e m
  rwa [ran] at within

theorem failsWithin_of_evalArgs {bound : DepthBound} {d : Nat} {args : List Expr} {m m' : Machine}
    {result : Except Fault (List Value)} (ran : evalArgs bound d args m = (result, m')) :
    m'.FailsWithin m := by
  have within := evalArgs_failsWithin bound d args m
  rwa [ran] at within

/-! ## The errors of evaluation -/

/-- **What evaluation of a well-formed tree may fail with**, from a machine `m`: the fault of going
past the depth bound; or a fault raised at a token of the tree, one `placed` holds of, which has a
position when that token has one, and which is of the malformed-tree kind only when some native
function of `m` fails with such a fault. -/
def Raised (placed : Token → Prop) (bound : DepthBound) (m : Machine) (f : Fault) : Prop :=
  f = bound.fault ∨
    (∃ t, placed t ∧ (t.located = true → f.token?.isSome = true)) ∧
      (f.kind = .malformedTree → ∃ g, m.Fails g ∧ g.kind = .malformedTree)

namespace Raised

variable {bound : DepthBound} {m : Machine}

theorem at_token {t : Token} {f : Fault} (placedT : placed t)
    (positioned : t.located = true → f.token?.isSome = true) (kind : f.kind ≠ .malformedTree) :
    Raised placed bound m f :=
  .inr ⟨⟨t, placedT, positioned⟩, fun malformed => absurd malformed kind⟩

theorem raiseAt {p : Problem} {t : Token} (placedT : placed t) (kind : p.kind ≠ .malformedTree) :
    Raised placed bound m (p.raiseAt t) := by
  refine at_token placedT (fun located => ?_) kind
  simp only [Token.located, decide_eq_true_eq] at located
  simp [located]

/-- A failed call of a native is raised at the call's parenthesis: its kind is that of a fault
some native fails with, or a type error. -/
theorem native {g : Fault} {paren : Token} (placedParen : placed paren)
    (called : m.Fails g ∨ ∃ name, g = (Problem.lengthOfNonString name).unplaced) :
    Raised placed bound m (g.withToken paren) := by
  refine .inr ⟨⟨paren, placedParen, Fault.isSome_token?_withToken _⟩, fun malformed => ?_⟩
  rw [Fault.kind_withToken] at malformed
  rcases called with fails | ⟨name, rfl⟩
  · exact ⟨g, fails, malformed⟩
  · cases malformed

end Raised

/-- **Where an evaluation fault comes from**, from a machine `m`: the fault of going past the
depth bound; a problem, of another kind than a malformed tree, raised at a token of the tree, one
`placed` holds of; or a fault some native function of `m` fails with, given the position of such
a token. -/
def Blamed (placed : Token → Prop) (bound : DepthBound) (m : Machine) (f : Fault) : Prop :=
  f = bound.fault ∨ ∃ t, placed t ∧
    ((∃ p : Problem, p.kind ≠ .malformedTree ∧ f = p.raiseAt t) ∨
      ∃ g, m.Fails g ∧ f = g.withToken t)

namespace Blamed

variable {bound : DepthBound} {m : Machine}

theorem mono {m' : Machine} {f : Fault} (blamed : Blamed placed bound m' f)
    (within : m'.FailsWithin m) : Blamed placed bound m f := by
  rcases blamed with deep | ⟨t, placedT, problem | ⟨g, fails, rfl⟩⟩
  · exact .inl deep
  · exact .inr ⟨t, placedT, .inl problem⟩
  · exact .inr ⟨t, placedT, .inr ⟨g, within g fails, rfl⟩⟩

theorem raiseAt {p : Problem} {t : Token} (placedT : placed t) (kind : p.kind ≠ .malformedTree) :
    Blamed placed bound m (p.raiseAt t) :=
  .inr ⟨t, placedT, .inl ⟨p, kind, rfl⟩⟩

theorem withToken_unplaced {p : Problem} {t : Token} (placedT : placed t)
    (kind : p.kind ≠ .malformedTree) : Blamed placed bound m (p.unplaced.withToken t) := by
  rw [Problem.unplaced_withToken]
  exact raiseAt placedT kind

/-- A failed call of a native is blamed on the native, or is the type error of the length of
something other than a string, raised at the call's parenthesis. -/
theorem native {g : Fault} {paren : Token} (placedParen : placed paren)
    (called : m.Fails g ∨ ∃ name, g = (Problem.lengthOfNonString name).unplaced) :
    Blamed placed bound m (g.withToken paren) := by
  rcases called with fails | ⟨name, rfl⟩
  · exact .inr ⟨paren, placedParen, .inr ⟨g, fails, rfl⟩⟩
  · exact withToken_unplaced placedParen (by simp [Problem.kind])

/-- A fault blamed on a token has a position when the token has one, and one blamed on a native
has the kind of a fault some native fails with. -/
theorem raised {f : Fault} (blamed : Blamed placed bound m f) : Raised placed bound m f := by
  rcases blamed with deep | ⟨t, placedT, ⟨p, kind, rfl⟩ | ⟨g, fails, rfl⟩⟩
  · exact .inl deep
  · exact Raised.raiseAt placedT kind
  · exact Raised.native placedT (.inl fails)

end Blamed

theorem andThen_eq_error {α β : Type} {run : Except Fault α × Machine}
    {next : α → Machine → Except Fault β × Machine} {f : Fault} {m' : Machine}
    (failed : andThen run next = (.error f, m')) :
    run = (.error f, m') ∨ ∃ v m₁, run = (.ok v, m₁) ∧ next v m₁ = (.error f, m') := by
  rcases run with ⟨e | v, m₁⟩
  · simp only [andThen, Prod.mk.injEq, Except.error.injEq] at failed
    obtain ⟨rfl, rfl⟩ := failed
    exact .inl rfl
  · exact .inr ⟨v, m₁, rfl, failed⟩

mutual

/-- **Where the errors of a well-formed tree come from.** Evaluating a well-formed tree fails only
with the fault of the depth bound, with a problem raised at one of its tokens, or with the fault of
a native function of the host given the position of one of its tokens. -/
theorem eval_blamed (bound : DepthBound) (d : Nat) (e : Expr) (m : Machine) {f : Fault}
    {m' : Machine} : e.WellFormed placed → eval bound d e m = (.error f, m') →
      Blamed placed bound m f := by
  intro wf failed
  rw [eval.eq_def] at failed
  split at failed
  · cases failed
    exact .inl rfl
  · match e, wf with
    | .assign name value, ⟨named, placedName, valueWf⟩ =>
      simp only [named, ne_eq, not_true_eq_false, if_false] at failed
      rcases andThen_eq_error failed with inner | ⟨v, m₁, -, assigned⟩
      · exact eval_blamed bound (d + 1) value m valueWf inner
      · split at assigned
        · next unbound =>
          cases assigned
          rw [(Env.assign_eq_error unbound).2]
          exact .withToken_unplaced placedName (by simp [Problem.kind])
        · cases assigned
    | .binary left op right, ⟨isBinary, placedOp, leftWf, rightWf⟩ =>
      simp only [isBinary, Bool.not_true, Bool.false_eq_true, if_false] at failed
      rcases andThen_eq_error failed with inner | ⟨l, m₁, leftOk, rest⟩
      · exact eval_blamed bound (d + 1) left m leftWf inner
      · rcases andThen_eq_error rest with inner | ⟨r, m₂, -, valued⟩
        · exact (eval_blamed bound (d + 1) right m₁ rightWf inner).mono (failsWithin_of_eval leftOk)
        · rcases binaryValue_eq_error (congrArg Prod.fst valued) with rfl | rfl
          · exact .raiseAt placedOp (by simp [Problem.kind])
          · exact .raiseAt placedOp (by simp [Problem.kind])
    | .logical left op right, ⟨isLogical, _, leftWf, rightWf⟩ =>
      simp only [isLogical, Bool.not_true, Bool.false_eq_true, if_false] at failed
      rcases andThen_eq_error failed with inner | ⟨l, m₁, leftOk, rest⟩
      · exact eval_blamed bound (d + 1) left m leftWf inner
      · split at rest
        · cases rest
        · exact (eval_blamed bound (d + 1) right m₁ rightWf rest).mono (failsWithin_of_eval leftOk)
    | .grouping inner, innerWf => exact eval_blamed bound (d + 1) inner m innerWf failed
    | .unary op operand, ⟨isUnary, placedOp, operandWf⟩ =>
      simp only [isUnary, Bool.not_true, Bool.false_eq_true, if_false] at failed
      rcases andThen_eq_error failed with inner | ⟨v, m₁, -, negated⟩
      · exact eval_blamed bound (d + 1) operand m operandWf inner
      · split at negated
        · cases negated
        · split at negated
          · cases negated
          · cases negated
            exact .raiseAt placedOp (by simp [Problem.kind])
    | .call callee paren args, ⟨placedParen, calleeWf, argsWf⟩ =>
      rcases andThen_eq_error failed with inner | ⟨c, m₁, calleeOk, rest⟩
      · exact eval_blamed bound (d + 1) callee m calleeWf inner
      · have first := failsWithin_of_eval calleeOk
        rcases andThen_eq_error rest with inner | ⟨vs, m₂, argsOk, called⟩
        · exact (evalArgs_blamed bound (d + 1) args m₁ argsWf inner).mono first
        · have before := (failsWithin_of_evalArgs argsOk).trans first
          split at called
          · split at called
            · cases called
              exact .raiseAt placedParen (by simp [Problem.kind])
            · dsimp only at called
              split at called
              · next ran =>
                cases called
                exact (Blamed.native placedParen (Host.call_error (congrArg Prod.fst ran))).mono
                  ((Machine.FailsWithin.of_host rfl).trans before)
              · cases called
          · cases called
            exact .raiseAt placedParen (by simp [Problem.kind])
    | .literal (some value), _ => cases value <;> cases failed
    | .var name, ⟨named, placedName⟩ =>
      simp only [named, ne_eq, not_true_eq_false, if_false] at failed
      split at failed
      · next missing =>
        cases failed
        rw [Env.lookup_eq_error missing]
        exact .withToken_unplaced placedName (by simp [Problem.kind])
      · cases failed

theorem evalArgs_blamed (bound : DepthBound) (d : Nat) (args : List Expr) (m : Machine)
    {f : Fault} {m' : Machine} : Expr.ArgsWellFormed placed args →
      evalArgs bound d args m = (.error f, m') → Blamed placed bound m f := by
  intro wf failed
  match args, wf with
  | [], _ => cases failed
  | arg :: rest, ⟨argWf, restWf⟩ =>
    rw [evalArgs] at failed
    rcases andThen_eq_error failed with inner | ⟨v, m₁, argOk, later⟩
    · exact eval_blamed bound d arg m argWf inner
    · rcases andThen_eq_error later with inner | ⟨vs, m₂, -, done⟩
      · exact (evalArgs_blamed bound d rest m₁ restWf inner).mono (failsWithin_of_eval argOk)
      · cases done

end

/-- **The errors of a well-formed tree.** Evaluating a well-formed tree fails only with the fault
of the depth bound, or with a fault raised at one of its tokens, of the malformed-tree kind only
when a native function of the host fails with one. -/
theorem eval_raised (bound : DepthBound) (d : Nat) (e : Expr) (m : Machine) {f : Fault}
    {m' : Machine} : e.WellFormed placed → eval bound d e m = (.error f, m') →
      Raised placed bound m f :=
  fun wf failed => (eval_blamed bound d e m wf failed).raised

end Expr

/-- An interpretation fails with the fault its evaluation fails with. -/
theorem Machine.interpret_eq_error {m m' : Machine} {bound : DepthBound} {tree : Expr}
    {f : Fault} (failed : m.interpret bound tree = (.error f, m')) :
    ∃ m'', tree.eval bound 0 m = (.error f, m'') := by
  unfold Machine.interpret at failed
  split at failed
  · next f' m'' evaluated =>
    cases failed
    exact ⟨m'', evaluated⟩
  · cases failed

/-- Interpreting as the program does is the interpretation when its fault, if any, can be read. -/
theorem Machine.run_of_readable {m : Machine} {bound : DepthBound} {tree : Expr}
    (readable : ∀ f, (m.interpret bound tree).1 = .error f → f.readable = true) :
    m.run bound tree = .ok (m.interpret bound tree) := by
  unfold Machine.run
  rcases interpreted : m.interpret bound tree with ⟨f | v, m'⟩
  · rw [interpreted] at readable
    simp [Fault.readMessage_eq_ite, readable _ rfl, Except.map]
  · rfl

/-- **Interpreting as the program does crashes exactly where** the interpretation fails with a
fault whose message cannot be read. -/
theorem Machine.run_eq_error_iff {m : Machine} {bound : DepthBound} {tree : Expr} :
    m.run bound tree = .error .missingCause ↔
      ∃ f, (m.interpret bound tree).1 = .error f ∧ f.readable = false := by
  unfold Machine.run
  rcases m.interpret bound tree with ⟨f | v, m'⟩
  · by_cases readable : f.readable <;> simp [Fault.readMessage_eq_ite, readable, Except.map]
  · simp

/-- A machine none of whose natives fails never crashes on a well-formed tree: every fault of its
evaluation is the bound's or a problem raised at a token, and their messages can be read. -/
theorem Machine.run_of_quiet {placed : Token → Prop} {m : Machine} {bound : DepthBound}
    {tree : Expr} (wf : tree.WellFormed placed) (quiet : ∀ g, ¬ m.Fails g) :
    m.run bound tree = .ok (m.interpret bound tree) := by
  refine Machine.run_of_readable fun f failed => ?_
  have interpreted : m.interpret bound tree = (.error f, (m.interpret bound tree).2) := by
    rw [← failed]
  obtain ⟨m'', evaluated⟩ := Machine.interpret_eq_error interpreted
  rcases Expr.eval_blamed bound 0 tree m wf evaluated with
    deep | ⟨t, -, ⟨p, -, rfl⟩ | ⟨g, fails, -⟩⟩
  · rw [deep]
    rfl
  · rfl
  · exact absurd fails (quiet g)

end Lox
