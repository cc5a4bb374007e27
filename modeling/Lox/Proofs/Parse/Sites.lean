import Mathlib
import Lox.Proofs.Parse.Abort
import Lox.Proofs.Parse.WellFormed
/-!
# Where the parser raises its errors

The parser raises every error it reports, fatal or recorded, as a problem at a token it was
given, or at the end marker when it has run out of tokens. So whatever holds of every token of
the input and of the end marker holds of the token of every error (`Expr.parse_sited`).

Each reading function is followed through both of its outcomes at once (`Parse.Settled`): the
errors of a failure and the errors a reading recorded are all sited, given that the errors it
started from are.
-/

namespace Lox

namespace Parse

variable {good : Token → Prop}

/-- Every fault of `errs` is a problem raised at a token that `good` holds of. -/
def Sited (good : Token → Prop) (errs : Array Fault) : Prop :=
  ∀ f ∈ errs, ∃ (p : Problem) (t : Token), good t ∧ f = p.raiseAt t

/-- Every error of an outcome is sited: the errors of a failure, or those a reading recorded. -/
def Settled (good : Token → Prop) {β : Type} (faults : β → Array Fault) :
    Except (Array Fault) β → Prop
  | .error errs => Sited good errs
  | .ok b => Sited good (faults b)

theorem sited_empty : Sited good #[] := by
  simp [Sited]

theorem Sited.push {errs : Array Fault} (sited : Sited good errs) {t : Token} (goodT : good t)
    (p : Problem) : Sited good (errs.push (p.raiseAt t)) := by
  intro f member
  rcases Array.mem_push.1 member with early | rfl
  · exact sited f early
  · exact ⟨p, t, goodT, rfl⟩

theorem settled_widen {ts ts' : List Token} {o : Outcome ts'}
    (settled : Settled good Reading.errors o) (h : ts'.length ≤ ts.length) :
    Settled good Reading.errors (o.widen h) := by
  cases o with
  | error e => exact settled
  | ok r => exact settled

theorem sited_opening {opened : Nat} {t : Token} {errors e : Array Fault}
    (opens : opening opened t errors = some e) (sited : Sited good errors) (goodT : good t) :
    Sited good e := by
  obtain ⟨-, rfl⟩ := opening_eq_some_iff.1 opens
  exact sited.push goodT _

theorem good_peek {ts : List Token} (inside : ∀ t ∈ ts, good t)
    (marker : good Token.endMarker) : good (peek ts) := by
  cases ts with
  | nil => exact marker
  | cons t _ => exact inside t List.mem_cons_self

theorem inside_of_append {ts body rest : List Token} (inside : ∀ t ∈ ts, good t)
    (whole : ts = body ++ rest) : ∀ t ∈ rest, good t := by
  intro t member
  exact inside t (whole ▸ List.mem_append_right body member)

/-- The errors `arguments` starts from are sited: an argument past the 255th is raised at the
token it begins with. -/
theorem sited_counted (count : Nat) {ts : List Token} (inside : ∀ t ∈ ts, good t)
    (marker : good Token.endMarker) {errors : Array Fault} (sited : Sited good errors) :
    Sited good (if maxArguments ≤ count then
      errors.push (Problem.tooManyArguments.raiseAt (peek ts)) else errors) := by
  split
  · exact sited.push (good_peek inside marker) _
  · exact sited

mutual

theorem assignment_sited (marker : good Token.endMarker)
    {ts : List Token} (inside : ∀ t ∈ ts, good t) (opened : Nat)
    {errors : Array Fault} (sited : Sited good errors) :
    Settled good Reading.errors (assignment ts opened errors) := by
  have chain := infixChain_sited marker (le_refl 5) inside opened sited
  rw [assignment]
  split
  · next e chained =>
    rw [chained] at chain
    exact chain
  · next left rest le errs chained =>
    rw [chained] at chain
    obtain ⟨body, whole, -⟩ := infixChain_derives (le_refl 5) chained
    exact settled_widen (assignTail_sited marker (inside_of_append inside whole) opened chain) le
termination_by 32 * ts.length + 17
decreasing_by all_goals omega

theorem assignTail_sited (marker : good Token.endMarker)
    {left : Expr} {ts : List Token} (inside : ∀ t ∈ ts, good t)
    (opened : Nat) {errors : Array Fault} (sited : Sited good errors) :
    Settled good Reading.errors (assignTail left ts opened errors) := by
  unfold assignTail
  split
  · next t after =>
    have goodT := inside t List.mem_cons_self
    have later : ∀ u ∈ after, good u := fun u member => inside u (List.mem_cons_of_mem t member)
    split
    · split
      · next e opens => exact sited_opening opens sited goodT
      · have value := assignment_sited marker later (opened + 1) sited
        split
        · next e failed =>
          rw [failed] at value
          exact value
        · next value' rest le errs valued =>
          rw [valued] at value
          -- an assignment to something other than a name is recorded at its `=`
          split
          · exact value
          · exact value.push goodT _
    · exact sited
  · exact sited
termination_by 32 * ts.length + 16
decreasing_by all_goals (subst_vars; (try simp only [List.length_cons]); omega)

theorem infixChain_sited (marker : good Token.endMarker)
    {n : Nat} (bound : n ≤ 5) {ts : List Token}
    (inside : ∀ t ∈ ts, good t) (opened : Nat) {errors : Array Fault}
    (sited : Sited good errors) :
    Settled good Reading.errors (infixChain n ts opened errors) := by
  have first := operand_sited marker bound inside opened sited
  rw [infixChain]
  split
  · next e failed =>
    rw [failed] at first
    exact first
  · next left rest le errs read =>
    rw [read] at first
    obtain ⟨body, whole, -⟩ := operand_derives bound read
    exact settled_widen
      (infixTail_sited marker bound (inside_of_append inside whole) opened first) le
termination_by 32 * ts.length + 2 * n + 4
decreasing_by all_goals omega

theorem operand_sited (marker : good Token.endMarker)
    {n : Nat} (bound : n ≤ 5) {ts : List Token} (inside : ∀ t ∈ ts, good t)
    (opened : Nat) {errors : Array Fault} (sited : Sited good errors) :
    Settled good Reading.errors (operand n ts opened errors) := by
  unfold operand
  split
  · exact unary_sited marker inside opened sited
  · exact infixChain_sited marker (by omega) inside opened sited
termination_by 32 * ts.length + 2 * n + 3
decreasing_by all_goals (subst_vars; omega)

theorem infixTail_sited (marker : good Token.endMarker)
    {n : Nat} (bound : n ≤ 5) {left : Expr} {ts : List Token}
    (inside : ∀ t ∈ ts, good t) (opened : Nat) {errors : Array Fault}
    (sited : Sited good errors) :
    Settled good Reading.errors (infixTail n left ts opened errors) := by
  unfold infixTail
  split
  · next t after =>
    have later : ∀ u ∈ after, good u := fun u member => inside u (List.mem_cons_of_mem t member)
    split
    · have right := operand_sited marker bound later opened sited
      split
      · next e failed =>
        rw [failed] at right
        exact right
      · next right' mid le errs read =>
        rw [read] at right
        obtain ⟨body, whole, -⟩ := operand_derives bound read
        exact settled_widen
          (infixTail_sited marker bound (inside_of_append later whole) opened right) _
    · exact sited
  · exact sited
termination_by 32 * ts.length + 2 * n + 3
decreasing_by all_goals (subst_vars; (try simp only [List.length_cons]); omega)

theorem unary_sited (marker : good Token.endMarker)
    {ts : List Token} (inside : ∀ t ∈ ts, good t) (opened : Nat)
    {errors : Array Fault} (sited : Sited good errors) :
    Settled good Reading.errors (unary ts opened errors) := by
  unfold unary
  split
  · next t after =>
    have later : ∀ u ∈ after, good u := fun u member => inside u (List.mem_cons_of_mem t member)
    split
    · split
      · next e opens => exact sited_opening opens sited (inside t List.mem_cons_self)
      · have operand := unary_sited marker later (opened + 1) sited
        split
        · next e failed =>
          rw [failed] at operand
          exact operand
        · next operand' rest le errs read =>
          rw [read] at operand
          exact operand
    · exact call_sited marker inside opened sited
  · exact call_sited marker inside opened sited
termination_by 32 * ts.length + 2
decreasing_by all_goals (subst_vars; (try simp only [List.length_cons]); omega)

theorem call_sited (marker : good Token.endMarker)
    {ts : List Token} (inside : ∀ t ∈ ts, good t) (opened : Nat)
    {errors : Array Fault} (sited : Sited good errors) :
    Settled good Reading.errors (call ts opened errors) := by
  have first := primary_sited marker inside opened sited
  rw [call]
  split
  · next e failed =>
    rw [failed] at first
    exact first
  · next callee rest le errs read =>
    rw [read] at first
    obtain ⟨body, whole, -⟩ := primary_derives read
    exact settled_widen (callTail_sited marker (inside_of_append inside whole) opened first) le
termination_by 32 * ts.length + 1
decreasing_by all_goals omega

theorem callTail_sited (marker : good Token.endMarker)
    {callee : Expr} {ts : List Token} (inside : ∀ t ∈ ts, good t)
    (opened : Nat) {errors : Array Fault} (sited : Sited good errors) :
    Settled good Reading.errors (callTail callee ts opened errors) := by
  unfold callTail
  split
  · next t after =>
    have later : ∀ u ∈ after, good u := fun u member => inside u (List.mem_cons_of_mem t member)
    split
    · split
      · next e opens => exact sited_opening opens sited (inside t List.mem_cons_self)
      · have listed := argumentList_sited marker later (opened + 1) sited
        split
        · next e failed =>
          rw [failed] at listed
          exact listed
        · next args rest le errs read =>
          rw [read] at listed
          obtain ⟨body, whole, -⟩ := argumentList_derives read
          have closing := inside_of_append later whole
          -- an argument list not closed is reported at the token after it
          split
          · next p more bound =>
            have shorter := Nat.lt_of_lt_of_le (Nat.lt_succ_self _) bound
            split
            · exact settled_widen (callTail_sited marker
                (fun u member => closing u (List.mem_cons_of_mem p member)) opened listed) _
            · exact listed.push (closing p List.mem_cons_self) _
          · exact listed.push marker _
    · exact sited
  · exact sited
termination_by 32 * ts.length
decreasing_by all_goals (subst_vars; (try simp only [List.length_cons]); omega)

theorem argumentList_sited (marker : good Token.endMarker)
    {ts : List Token} (inside : ∀ t ∈ ts, good t) (opened : Nat)
    {errors : Array Fault} (sited : Sited good errors) :
    Settled good (fun b => b.2.2) (argumentList ts opened errors) := by
  unfold argumentList
  split
  · exact sited
  · exact arguments_sited marker 0 inside opened sited
termination_by 32 * ts.length + 19
decreasing_by all_goals omega

theorem arguments_sited (marker : good Token.endMarker)
    (count : Nat) {ts : List Token} (inside : ∀ t ∈ ts, good t)
    (opened : Nat) {errors : Array Fault} (sited : Sited good errors) :
    Settled good (fun b => b.2.2) (arguments count ts opened errors) := by
  have counted := sited_counted count inside marker sited
  unfold arguments
  dsimp only
  generalize (if maxArguments ≤ count then
      errors.push (Problem.tooManyArguments.raiseAt (peek ts)) else errors) = start at counted ⊢
  have first := assignment_sited marker inside opened counted
  split
  · next e failed =>
    rw [failed] at first
    exact first
  · next arg rest le errs read =>
    rw [read] at first
    obtain ⟨body, whole, -⟩ := assignment_derives read
    have later := inside_of_append inside whole
    split
    · next c more bound =>
      have shorter := Nat.lt_of_lt_of_le (Nat.lt_succ_self _) bound
      split
      · have others := arguments_sited marker (count + 1)
          (fun u member => later u (List.mem_cons_of_mem c member)) opened first
        split
        · next e failed =>
          rw [failed] at others
          exact others
        · next args r hr errs' read' =>
          rw [read'] at others
          exact others
      · exact first
    · exact first
termination_by 32 * ts.length + 18
decreasing_by all_goals (subst_vars; omega)

theorem primary_sited (marker : good Token.endMarker)
    {ts : List Token} (inside : ∀ t ∈ ts, good t) (opened : Nat)
    {errors : Array Fault} (sited : Sited good errors) :
    Settled good Reading.errors (primary ts opened errors) := by
  unfold primary
  split
  · next t after =>
    have goodT := inside t List.mem_cons_self
    have later : ∀ u ∈ after, good u := fun u member => inside u (List.mem_cons_of_mem t member)
    dsimp only
    split
    case h_7 =>
      split
      · next e opens => exact sited_opening opens sited goodT
      · have inner := assignment_sited marker later (opened + 1) sited
        split
        · next e failed =>
          rw [failed] at inner
          exact inner
        · next inner' rest le errs read =>
          rw [read] at inner
          obtain ⟨body, whole, -⟩ := assignment_derives read
          have closing := inside_of_append later whole
          -- a group not closed is reported at the token after it
          split
          · next p more bound =>
            split
            · exact inner
            · exact inner.push (closing p List.mem_cons_self) _
          · exact inner.push marker _
    case h_8 => exact sited.push goodT _
    all_goals exact sited
  · exact sited.push marker _
termination_by 32 * ts.length
decreasing_by all_goals (subst_vars; (try simp only [List.length_cons]); omega)

end

end Parse

/-- **Parse errors stand at given tokens.** Every error of a failed parse is a problem raised at
a token of the input, or at the end marker: so at a token that `good` holds of, if it holds of
them all. -/
theorem Expr.parse_sited {good : Token → Prop} (marker : good Token.endMarker)
    {tokens : List Token} (inside : ∀ t ∈ tokens, good t) {errs : List Fault}
    (failed : Expr.parse tokens = .error errs) :
    ∀ f ∈ errs, ∃ (p : Problem) (t : Token), good t ∧ f = p.raiseAt t := by
  have prepared : ∀ t ∈ Parse.prepare tokens, good t := fun t member =>
    (Grammar.mem_prepare member).elim (inside t) fun same => same ▸ marker
  have whole := Parse.assignment_sited marker prepared 0 Parse.sited_empty
  unfold Expr.parse at failed
  split at failed
  · next e read =>
    rw [read] at whole
    cases failed
    exact fun f member => whole f (Array.mem_toList_iff.1 member)
  · next tree rest le errs' read =>
    rw [read] at whole
    obtain ⟨body, split, -⟩ := Parse.assignment_derives read
    have later := Parse.inside_of_append prepared split
    dsimp only at failed
    -- the token after the expression and at most one semicolon
    have after : ∀ u ∈ (if (Parse.peek rest).kind = .semicolon then rest.tail else rest),
        good u := by
      split
      · exact fun u member => later u (List.mem_of_mem_tail member)
      · exact later
    generalize (if (Parse.peek rest).kind = .semicolon then rest.tail else rest) = left
      at failed after
    split at failed
    · cases failed
      exact fun f member =>
        (whole.push (Parse.good_peek after marker) _) f (Array.mem_toList_iff.1 member)
    · split at failed
      · cases failed
      · cases failed
        exact fun f member => whole f (Array.mem_toList_iff.1 member)

end Lox
