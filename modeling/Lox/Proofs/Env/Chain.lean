import Lox.Proofs.Env.Writes
/-!
# Reading, assigning and defining along a chain of scopes

A name seen from a scope means its binding in the innermost scope, at or outside that one, that
binds it (`Env.Owns`). Reading walks outwards one scope at a time (`Env.lookup_succ`) and finds
exactly that binding, or fails with an undefined-name error without position when no scope up to
the starting one binds the name (`Env.lookup_eq_ok_iff`, `Env.lookup_eq_error_iff`).

Assigning succeeds exactly where reading does, fails with the same error where it does not, and
then replaces the binding that reading finds (`Env.assign_eq_ok_iff`). Defining binds a name in
its own scope only; afterwards the name reads as the new value from that scope and from every
scope further in that does not bind it itself, and every other reading is as it was
(`Env.lookup_define`). An assignment is a definition in a scope that already binds the name, so
it moves no owner and the same description holds of it (`Env.owns_define_of_bound`).
-/

namespace Lox

namespace Env

/-- Scope `i` holds the binding that reading `name` from scope `start` finds: it is at or outside
`start`, binds the name, and no scope between them does. -/
def Owns (env : Env) (start : Nat) (name : String) (i : Nat) : Prop :=
  i ≤ start ∧ (env.binding? i name).isSome ∧ ∀ j, i < j → j ≤ start → env.binding? j name = none

instance (env : Env) (start : Nat) (name : String) (i : Nat) :
    Decidable (env.Owns start name i) :=
  decidable_of_iff _ owner?_eq_some_iff

section Owners

variable {env : Env} {start i : Nat} {name : String}

theorem Owns.owner? (owns : env.Owns start name i) : env.owner? start name = some i :=
  owner?_eq_some_iff.2 owns

theorem Owns.le (owns : env.Owns start name i) : i ≤ start := owns.1

theorem Owns.lt_length (owns : env.Owns start name i) : i < env.scopes.length :=
  lt_of_binding?_isSome owns.2.1

/-- The owner binds the name. -/
theorem Owns.bound (owns : env.Owns start name i) : ∃ v, env.binding? i name = some v :=
  Option.isSome_iff_exists.1 owns.2.1

/-- Without an owner there is no scope that owns the name. -/
theorem not_owns_of_owner?_eq_none (unowned : env.owner? start name = none) :
    ¬ env.Owns start name i := fun owns => by
  simp [owns.owner?] at unowned

/-- A name has one owner seen from each scope. -/
theorem Owns.unique {i' : Nat} (owns : env.Owns start name i) (owns' : env.Owns start name i') :
    i = i' :=
  Option.some.inj (owns.owner?.symm.trans owns'.owner?)

theorem owns_iff_owner? : env.Owns start name i ↔ env.owner? start name = some i :=
  owner?_eq_some_iff.symm

theorem owns_zero : env.Owns 0 name i ↔ i = 0 ∧ (env.binding? 0 name).isSome := by
  rw [owns_iff_owner?, owner?_zero]
  split
  · next bound => simp [bound, eq_comm]
  · next unbound => simp [unbound]

/-- The owner seen from the next scope in is that scope itself if it binds the name, and
otherwise the owner seen from here. -/
theorem owns_succ :
    env.Owns (start + 1) name i ↔
      i = start + 1 ∧ (env.binding? (start + 1) name).isSome ∨
        env.binding? (start + 1) name = none ∧ env.Owns start name i := by
  rw [owns_iff_owner?, owns_iff_owner?, owner?_succ]
  split
  · next bound =>
    have : env.binding? (start + 1) name ≠ none := by simpa [Option.isSome_iff_ne_none] using bound
    simp [bound, this, eq_comm]
  · next unbound => simp_all

end Owners

/-! ## Reading -/

theorem lookup_zero (env : Env) (name : String) :
    env.lookup 0 name =
      match env.binding? 0 name with
      | some v => .ok v
      | none => .error (Problem.undefinedVariable name).unplaced := by
  rw [lookup.eq_def]
  cases env.binding? 0 name <;> rfl

/-- **Reading walks outwards.** A scope that binds the name answers; otherwise the scope outside
it is asked. -/
theorem lookup_succ (env : Env) (start : Nat) (name : String) :
    env.lookup (start + 1) name =
      match env.binding? (start + 1) name with
      | some v => .ok v
      | none => env.lookup start name := by
  rw [lookup.eq_def]
  cases env.binding? (start + 1) name <;> rfl

theorem lookup_eq_ok_iff {env : Env} {start : Nat} {name : String} {v : Option Value} :
    env.lookup start name = .ok v ↔ ∃ i, env.Owns start name i ∧ env.binding? i name = some v := by
  rw [lookup_eq]
  cases owner : env.owner? start name with
  | none =>
    simp only [Option.bind_none, reduceCtorEq, false_iff, not_exists, not_and]
    exact fun i owns => absurd owns (not_owns_of_owner?_eq_none owner)
  | some i =>
    have owns : env.Owns start name i := owns_iff_owner?.2 owner
    obtain ⟨w, bound⟩ := owns.bound
    simp only [Option.bind_some, bound, Except.ok.injEq]
    constructor
    · rintro rfl
      exact ⟨i, owns, bound⟩
    · rintro ⟨i', owns', bound'⟩
      rw [← owns.unique owns', bound] at bound'
      exact Option.some.inj bound'

theorem lookup_eq_error_iff {env : Env} {start : Nat} {name : String} {f : Fault} :
    env.lookup start name = .error f ↔
      (∀ i ≤ start, env.binding? i name = none) ∧ f = (Problem.undefinedVariable name).unplaced := by
  rw [lookup_eq, ← owner?_eq_none_iff]
  cases owner : env.owner? start name with
  | none => simp [eq_comm]
  | some i =>
    obtain ⟨w, bound⟩ := (owns_iff_owner?.2 owner).bound
    simp [bound]

/-- Reading from a scope depends only on the bindings of the name up to it. -/
theorem lookup_congr {env env' : Env} {name : String} :
    ∀ {start : Nat}, (∀ i ≤ start, env'.binding? i name = env.binding? i name) →
      env'.lookup start name = env.lookup start name
  | 0, same => by rw [lookup_zero, lookup_zero, same 0 (Nat.le_refl 0)]
  | start + 1, same => by
    rw [lookup_succ, lookup_succ, same (start + 1) (Nat.le_refl _),
      lookup_congr fun i le => same i (Nat.le_succ_of_le le)]

/-! ## Defining -/

section Define

variable {env : Env} {target : Nat} (within : target < env.scopes.length) (name : String)
  (v : Option Value)
include within

theorem binding?_define_of_lt (i : Nat) (other : String) :
    (env.define target name v).binding? i other =
      if i = target ∧ other = name then some v else env.binding? i other := by
  rw [binding?_define]
  by_cases here : i = target
  · subst here
    by_cases same : other = name <;> simp [same, Ne.symm, within]
  · simp [here, Ne.symm here]

/-- The scope of a definition owns the name from itself and from every scope further in that does
not bind the name itself. -/
theorem owns_define (start : Nat) :
    (env.define target name v).Owns start name target ↔
      target ≤ start ∧ ∀ k, target < k → k ≤ start → env.binding? k name = none := by
  unfold Owns
  simp only [binding?_define_of_lt within, and_self, if_true, Option.isSome_some, true_and]
  refine and_congr_right fun _ => forall_congr' fun k => imp_congr_right fun above => ?_
  simp [Nat.ne_of_gt above]

/-- **Defining shadows.** After a definition, the name reads as the new value from every scope the
definition's scope owns it from, and every other reading is as it was. -/
theorem lookup_define (start : Nat) (other : String) :
    (env.define target name v).lookup start other =
      if other = name ∧ (env.define target name v).Owns start name target then .ok v
      else env.lookup start other := by
  by_cases same : other = name
  · subst same
    -- the owners change only from the definition's scope on, walking outwards
    induction start with
    | zero =>
      rw [lookup_zero, lookup_zero, binding?_define_of_lt within]
      by_cases here : 0 = target
      · subst here
        have owns : (env.define 0 other v).Owns 0 other 0 :=
          (owns_define within other v 0).2 ⟨Nat.le_refl 0, fun k above le => absurd le (by omega)⟩
        simp [owns]
      · have notOwns : ¬ (env.define target other v).Owns 0 other target :=
          fun owns => here (Nat.le_zero.1 owns.le).symm
        simp [here, notOwns]
    | succ start ih =>
      rw [lookup_succ, lookup_succ, binding?_define_of_lt within]
      by_cases here : start + 1 = target
      · subst here
        have owns : (env.define (start + 1) other v).Owns (start + 1) other (start + 1) :=
          (owns_define within other v _).2 ⟨Nat.le_refl _, fun k above le => absurd le (by omega)⟩
        simp [owns]
      · have below : target ≤ start + 1 → target < start + 1 := fun le => by omega
        cases bound : env.binding? (start + 1) other with
        | some w =>
          -- the scope reached binds the name itself, so the definition's scope does not own it
          have notOwns : ¬ (env.define target other v).Owns (start + 1) other target := by
            intro owns
            have free := ((owns_define within other v _).1 owns).2 (start + 1)
              (below owns.le) (Nat.le_refl _)
            simp [bound] at free
          simp [here, notOwns]
        | none =>
          have step : (env.define target other v).Owns (start + 1) other target ↔
              (env.define target other v).Owns start other target := by
            rw [owns_define within, owns_define within]
            constructor
            · rintro ⟨le, free⟩
              exact ⟨Nat.le_of_lt_succ (below le), fun k above le' => free k above (by omega)⟩
            · rintro ⟨le, free⟩
              refine ⟨Nat.le_succ_of_le le, fun k above le' => ?_⟩
              rcases Nat.lt_or_ge k (start + 1) with lt | ge
              · exact free k above (by omega)
              · rwa [show k = start + 1 by omega]
          simpa [here, bound, step] using ih
  · rw [if_neg fun both => same both.1]
    exact lookup_congr fun i _ => by simp [binding?_define_of_lt within, same]

end Define

/-- Defining a name in a scope that binds it already moves no owner. -/
theorem owns_define_of_bound {env : Env} {target : Nat} {name : String}
    (bound : (env.binding? target name).isSome) (v : Option Value) (start : Nat) (other : String)
    (i : Nat) : (env.define target name v).Owns start other i ↔ env.Owns start other i := by
  have same : ∀ j, ((env.define target name v).binding? j other).isSome =
      (env.binding? j other).isSome := by
    intro j
    rw [binding?_define]
    split
    · next here => obtain ⟨rfl, rfl, -⟩ := here; simpa using bound.symm
    · rfl
  rw [owns_iff_owner?, owns_iff_owner?, owner?_congr same]

/-! ## Assigning -/

theorem assign_eq_ok_iff {env env' : Env} {start : Nat} {name : String} {v : Option Value} :
    env.assign start name v = .ok env' ↔ ∃ i, env.Owns start name i ∧ env' = env.define i name v := by
  rw [assign_eq]
  cases owner : env.owner? start name with
  | none =>
    simp only [reduceCtorEq, false_iff, not_exists, not_and]
    exact fun i owns => absurd owns (not_owns_of_owner?_eq_none owner)
  | some i =>
    have owns : env.Owns start name i := owns_iff_owner?.2 owner
    simp only [Except.ok.injEq]
    exact ⟨fun defined => ⟨i, owns, defined.symm⟩,
      fun ⟨i', owns', defined⟩ => by rw [defined, owns.unique owns']⟩

/-- Assigning fails exactly where reading fails, and with the same error. -/
theorem assign_eq_error_iff {env : Env} {start : Nat} {name : String} {v : Option Value}
    {f : Fault} : env.assign start name v = .error f ↔ env.lookup start name = .error f := by
  rw [lookup_eq, assign_eq]
  cases owner : env.owner? start name with
  | none => simp
  | some i =>
    obtain ⟨w, bound⟩ := (owns_iff_owner?.2 owner).bound
    simp [bound]

/-- **Scope chains.** Seen from any scope `j` of a chain of scopes, reading a name finds its
binding in the innermost scope at or outside `j` that binds it, or, when no such scope binds it,
fails with an undefined-name error that has no position. Assigning succeeds exactly when reading
does, and otherwise fails with the same error. A successful assignment replaces the binding that
reading finds and no other: afterwards the name reads as the new value from every scope whose
innermost binding of it is that one, and every other reading is as it was. Defining a name in a
scope `i` of the chain binds it there only: the name then reads as the new value from `i` and
from every scope further in that does not bind it itself, and every other reading is as it
was. -/
theorem scope_chain_semantics (env : Env) (x : String) :
    (∀ j v, env.lookup j x = .ok v ↔ ∃ i, env.Owns j x i ∧ env.binding? i x = some v) ∧
    (∀ j f, env.lookup j x = .error f ↔
      (∀ i ≤ j, env.binding? i x = none) ∧ f = (Problem.undefinedVariable x).unplaced) ∧
    ((Problem.undefinedVariable x).unplaced.kind = .undefinedName ∧
      (Problem.undefinedVariable x).unplaced.token? = none) ∧
    (∀ j v, (∃ env', env.assign j x v = .ok env') ↔ ∃ w, env.lookup j x = .ok w) ∧
    (∀ j v f, env.assign j x v = .error f ↔ env.lookup j x = .error f) ∧
    (∀ j i v env', env.Owns j x i → env.assign j x v = .ok env' →
      (∀ k y, env'.binding? k y = if k = i ∧ y = x then some v else env.binding? k y) ∧
      ∀ s y, env'.lookup s y = if y = x ∧ env.Owns s x i then .ok v else env.lookup s y) ∧
    ∀ i v, i < env.scopes.length →
      (∀ k y, (env.define i x v).binding? k y = if k = i ∧ y = x then some v else env.binding? k y) ∧
      (∀ s, (env.define i x v).Owns s x i ↔ i ≤ s ∧ ∀ k, i < k → k ≤ s → env.binding? k x = none) ∧
      ∀ s y, (env.define i x v).lookup s y =
        if y = x ∧ (env.define i x v).Owns s x i then .ok v else env.lookup s y := by
  refine ⟨fun j v => lookup_eq_ok_iff, fun j f => lookup_eq_error_iff, ⟨rfl, rfl⟩,
    fun j v => ?_, fun j v f => assign_eq_error_iff, fun j i v env' owns assigned => ?_,
    fun i v within => ⟨binding?_define_of_lt within x v, owns_define within x v,
      lookup_define within x v⟩⟩
  · constructor
    · rintro ⟨env', assigned⟩
      obtain ⟨i, owns, -⟩ := assign_eq_ok_iff.1 assigned
      obtain ⟨w, bound⟩ := owns.bound
      exact ⟨w, lookup_eq_ok_iff.2 ⟨i, owns, bound⟩⟩
    · rintro ⟨w, found⟩
      obtain ⟨i, owns, -⟩ := lookup_eq_ok_iff.1 found
      exact ⟨env.define i x v, assign_eq_ok_iff.2 ⟨i, owns, rfl⟩⟩
  · -- the assignment is a definition in the owner, which moves no owner
    obtain ⟨i', owns', rfl⟩ := assign_eq_ok_iff.1 assigned
    obtain rfl := owns'.unique owns
    refine ⟨binding?_define_of_lt owns.lt_length x v, fun s y => ?_⟩
    rw [lookup_define owns.lt_length x v]
    simp only [owns_define_of_bound owns.2.1]

/-- A chain of two scopes where only the outer one binds `x`. -/
def outerOnly : Env :=
  ⟨[⟨[("x", some (.bool true))]⟩, ⟨[]⟩]⟩

/-- From the inner scope of `outerOnly`, assigning `x` rewrites the outer binding, which the
inner scope then reads; defining `x` in the inner scope shadows it there. -/
theorem scope_chain_semantics_outer :
    outerOnly.Owns 1 "x" 0 ∧ outerOnly.assign 1 "x" (some .nil) = .ok (outerOnly.define 0 "x" (some .nil)) ∧
      (outerOnly.define 0 "x" (some .nil)).lookup 1 "x" = .ok (some .nil) ∧
      1 < outerOnly.scopes.length ∧ (outerOnly.define 1 "x" none).lookup 1 "x" = .ok none ∧
      (outerOnly.define 1 "x" none).lookup 0 "x" = outerOnly.lookup 0 "x" := by
  have owns : outerOnly.Owns 1 "x" 0 := by decide
  have assigned : outerOnly.assign 1 "x" (some .nil) = .ok (outerOnly.define 0 "x" (some .nil)) :=
    rfl
  have within : 1 < outerOnly.scopes.length := by decide
  have laws := scope_chain_semantics outerOnly "x"
  refine ⟨owns, assigned, ?_, within, ?_, ?_⟩
  · rw [((laws.2.2.2.2.2.1 1 0 _ _ owns assigned).2 1 "x"), if_pos ⟨rfl, owns⟩]
  · rw [(laws.2.2.2.2.2.2 1 none within).2.2 1 "x", if_pos ⟨rfl, by decide⟩]
  · rw [(laws.2.2.2.2.2.2 1 none within).2.2 0 "x", if_neg (by decide)]

end Env

end Lox
