import Lox.Env
/-!
# Bindings of a scope chain, and writes replayed on it

The binding of a name in one scope (`Env.binding?`) is what `Env.lookup` reads there, and the
scope that owns a name seen from a starting scope (`Env.owner?`) is the highest scope up to it
that binds the name (`owner?_eq_some_iff`). Which scope owns a name depends only on which scopes
bind it (`owner?_congr`). Reading and assigning, each stepping outwards on its own, both stop at
the owner: reading reads its binding (`Env.lookup_eq`) and assigning replaces it
(`Env.assign_eq`).

Assigning a name that some scope binds replaces the binding in its owner (`Env.rebind`); a
sequence of such writes is replayed one after another (`Env.replay`). Rebinding never adds or
removes a name, so it never moves an owner, and after a sequence of writes each name's owner
holds the last value written to the name while every other binding is as it was
(`binding?_replay`).
-/

namespace Lox

namespace Scope

theorem find?_define (s : Scope) (name other : String) (v : Option Value) :
    (s.define name v).find? other = if name = other then some v else s.find? other := by
  unfold define find?
  by_cases present : s.bindings.any (·.1 == name)
  · simp only [present, if_true, List.find?_map]
    -- renaming the bindings of `name` keeps which binding a search finds
    have keeps : ((·.1 == other) ∘ fun b : String × Option Value =>
        if b.1 == name then (name, v) else b) = (·.1 == other) := by
      funext b; by_cases h : b.1 = name <;> simp [h]
    rw [keeps]
    cases found : s.bindings.find? (·.1 == other) with
    | none =>
      have : ¬ name = other := by
        rintro rfl
        simp [List.find?_eq_none] at found
        obtain ⟨b, member, named⟩ := List.any_eq_true.1 present
        exact found b.1 b.2 member (by simpa using named)
      simp [this]
    | some b =>
      have named : b.1 = other := by simpa using List.find?_some found
      by_cases same : name = other
      · simp [named, same]
      · simp [named, same, Ne.symm same]
  · simp only [present, Bool.false_eq_true, if_false, List.find?_append]
    by_cases same : name = other
    · subst same
      have absent : s.bindings.find? (·.1 == name) = none := by
        simp only [List.any_eq_true, not_exists, not_and] at present
        simpa [List.find?_eq_none] using present
      simp [absent]
    · simp [same]


end Scope

namespace Env

theorem binding?_eq_none_of_le {env : Env} {i : Nat} (beyond : env.scopes.length ≤ i)
    (name : String) : env.binding? i name = none := by
  simp [binding?, List.getElem?_eq_none beyond]

theorem lt_of_binding?_isSome {env : Env} {i : Nat} {name : String}
    (bound : (env.binding? i name).isSome) : i < env.scopes.length := by
  rcases Nat.lt_or_ge i env.scopes.length with within | beyond
  · exact within
  · simp [binding?_eq_none_of_le beyond] at bound

theorem length_define (env : Env) (target : Nat) (name : String) (v : Option Value) :
    (env.define target name v).scopes.length = env.scopes.length :=
  List.length_modify _ _ _

/-- Defining binds the name in the target scope, if there is one, and changes nothing else. -/
theorem binding?_define (env : Env) (target i : Nat) (name other : String) (v : Option Value) :
    (env.define target name v).binding? i other =
      if target = i ∧ name = other ∧ i < env.scopes.length then some v
      else env.binding? i other := by
  simp only [binding?, define, List.getElem?_modify]
  by_cases here : target = i
  · subst here
    cases scope : env.scopes[target]? with
    | none =>
      have := List.getElem?_eq_none_iff.1 scope
      simp [Nat.not_lt.2 this]
    | some s =>
      have := (List.getElem?_eq_some_iff.1 scope).1
      by_cases same : name = other <;> simp [Scope.find?_define, same, this]
  · simp [here]

/-- Reading from `start` on, the first scope that binds a name is the scope `start` itself if it
binds it, and otherwise the first one below. -/
theorem owner?_succ (env : Env) (start : Nat) (name : String) :
    env.owner? (start + 1) name =
      if (env.binding? (start + 1) name).isSome then some (start + 1)
      else env.owner? start name := by
  show List.find? _ _ = if _ then _ else List.find? _ _
  rw [List.range_succ, List.reverse_append, List.reverse_singleton, List.singleton_append,
    List.filter_cons]
  by_cases within : start + 1 < env.scopes.length
  · simp only [within, decide_true, if_true, List.find?_cons]
    split <;> simp_all [binding?]
  · simp only [within, decide_false, Bool.false_eq_true, if_false]
    simp [binding?_eq_none_of_le (Nat.le_of_not_lt within)]

theorem owner?_zero (env : Env) (name : String) :
    env.owner? 0 name = if (env.binding? 0 name).isSome then some 0 else none := by
  show List.find? _ _ = _
  by_cases within : 0 < env.scopes.length
  · simp only [List.range_succ, List.range_zero, List.nil_append, List.reverse_singleton,
      List.filter_cons, within, decide_true, if_true, List.filter_nil, List.find?_cons,
      List.find?_nil]
    split <;> simp_all [binding?]
  · simp [within, binding?_eq_none_of_le (Nat.le_of_not_lt within)]

/-- The owner of a name seen from `start` is the highest scope up to `start` that binds it. -/
theorem owner?_eq_some_iff {env : Env} {start i : Nat} {name : String} :
    env.owner? start name = some i ↔
      i ≤ start ∧ (env.binding? i name).isSome ∧
        ∀ j, i < j → j ≤ start → env.binding? j name = none := by
  induction start with
  | zero =>
    rw [owner?_zero]
    split
    · next bound =>
      constructor
      · rintro ⟨⟩; exact ⟨Nat.le_refl 0, bound, fun j lt le => absurd le (by omega)⟩
      · rintro ⟨le, -, -⟩; simp; omega
    · next unbound =>
      constructor
      · nofun
      · rintro ⟨le, bound, -⟩
        obtain rfl : i = 0 := by omega
        exact absurd bound unbound
  | succ start ih =>
    rw [owner?_succ]
    split
    · next bound =>
      constructor
      · rintro ⟨⟩; exact ⟨Nat.le_refl _, bound, fun j lt le => absurd le (by omega)⟩
      · rintro ⟨le, found, above⟩
        by_cases top : i = start + 1
        · rw [top]
        · have := above (start + 1) (by omega) (Nat.le_refl _)
          simp [this] at bound
    · next unbound =>
      rw [ih]
      constructor
      · rintro ⟨le, found, above⟩
        refine ⟨Nat.le_succ_of_le le, found, fun j lt le' => ?_⟩
        by_cases top : j = start + 1
        · subst top; simpa using unbound
        · exact above j lt (by omega)
      · rintro ⟨le, found, above⟩
        have : i ≠ start + 1 := by rintro rfl; exact unbound found
        exact ⟨by omega, found, fun j lt le' => above j lt (by omega)⟩

theorem owner?_eq_none_iff {env : Env} {start : Nat} {name : String} :
    env.owner? start name = none ↔ ∀ i ≤ start, env.binding? i name = none := by
  induction start with
  | zero =>
    rw [owner?_zero]
    split
    · next bound =>
      simp only [reduceCtorEq, false_iff]
      intro unbound
      simp [unbound 0 (Nat.le_refl _)] at bound
    · next unbound =>
      simp only [true_iff]
      intro i le
      obtain rfl : i = 0 := by omega
      simpa using unbound
  | succ start ih =>
    rw [owner?_succ]
    split
    · next bound =>
      simp only [reduceCtorEq, false_iff]
      intro unbound
      simp [unbound (start + 1) (Nat.le_refl _)] at bound
    · next unbound =>
      rw [ih]
      constructor
      · intro below i le
        by_cases top : i = start + 1
        · subst top; simpa using unbound
        · exact below i (by omega)
      · exact fun all i le => all i (by omega)

/-- Which scope owns a name depends only on which scopes bind it. -/
theorem owner?_congr {env env' : Env} {name : String}
    (same : ∀ i, (env'.binding? i name).isSome = (env.binding? i name).isSome) (start : Nat) :
    env'.owner? start name = env.owner? start name := by
  induction start with
  | zero => rw [owner?_zero, owner?_zero, same]
  | succ start ih => rw [owner?_succ, owner?_succ, same, ih]

/-! ## Reading and assigning find the owner -/

/-- **Reading a name reads its owner's binding**, or fails with the undefined-name error where no
scope up to the starting one binds it. -/
theorem lookup_eq (env : Env) (start : Nat) (name : String) :
    env.lookup start name =
      match (env.owner? start name).bind (env.binding? · name) with
      | some v => .ok v
      | none => .error (Problem.undefinedVariable name).unplaced := by
  -- reading steps outwards one scope at a time, as the owner is found
  induction start with
  | zero =>
    rw [lookup.eq_def, owner?_zero]
    cases bound : env.binding? 0 name <;> simp [bound]
  | succ outer ih =>
    rw [lookup.eq_def, owner?_succ]
    cases bound : env.binding? (outer + 1) name <;> simp [bound, ih]

/-- **Assigning a name replaces its owner's binding**, or fails as reading does where no scope up
to the starting one binds it. -/
theorem assign_eq (env : Env) (start : Nat) (name : String) (v : Option Value) :
    env.assign start name v =
      match env.owner? start name with
      | some i => .ok (env.define i name v)
      | none => .error (Problem.undefinedVariable name).unplaced := by
  induction start with
  | zero =>
    rw [assign.eq_def, owner?_zero]
    cases env.binding? 0 name <;> simp
  | succ outer ih =>
    rw [assign.eq_def, owner?_succ]
    cases env.binding? (outer + 1) name <;> simp [ih]

/-! ## Replacing bindings -/

/-- Replaces the binding that reading a name from scope `start` finds; nothing if no scope binds
the name. This is what a successful `assign` does. -/
def rebind (env : Env) (start : Nat) (name : String) (v : Value) : Env :=
  match env.owner? start name with
  | some i => env.define i name (some v)
  | none => env

theorem assign_eq_ok {env env' : Env} {start : Nat} {name : String} {v : Value}
    (assigned : env.assign start name (some v) = .ok env') :
    (env.owner? start name).isSome ∧ env' = env.rebind start name v := by
  rw [assign_eq] at assigned
  unfold rebind
  split at assigned
  · next i owner =>
    cases assigned
    simp [owner]
  · cases assigned

theorem assign_eq_error {env : Env} {start : Nat} {name : String} {v : Option Value} {f : Fault}
    (failed : env.assign start name v = .error f) :
    env.owner? start name = none ∧ f = (Problem.undefinedVariable name).unplaced := by
  rw [assign_eq] at failed
  split at failed
  · cases failed
  · next owner =>
    cases failed
    exact ⟨owner, rfl⟩

theorem length_rebind (env : Env) (start : Nat) (name : String) (v : Value) :
    (env.rebind start name v).scopes.length = env.scopes.length := by
  unfold rebind
  split
  · exact length_define _ _ _ _
  · rfl

/-- Rebinding changes the binding of the name in its owner, and nothing else. -/
theorem binding?_rebind (env : Env) (start i : Nat) (name other : String) (v : Value) :
    (env.rebind start name v).binding? i other =
      if env.owner? start name = some i ∧ name = other then some (some v)
      else env.binding? i other := by
  unfold rebind
  split
  · next owner owned =>
    have within := lt_of_binding?_isSome (owner?_eq_some_iff.1 owned).2.1
    rw [binding?_define]
    by_cases here : owner = i
    · subst here; simp [owned, within]
    · simp [owned, here]
  · next unowned => simp [unowned]

theorem isSome_binding?_rebind (env : Env) (start i : Nat) (name other : String) (v : Value) :
    ((env.rebind start name v).binding? i other).isSome = (env.binding? i other).isSome := by
  rw [binding?_rebind]
  split
  · next owned =>
    obtain ⟨owner, rfl⟩ := owned
    simpa using ((owner?_eq_some_iff.1 owner).2.1).symm
  · rfl

theorem owner?_rebind (env : Env) (start s : Nat) (name other : String) (v : Value) :
    (env.rebind start name v).owner? s other = env.owner? s other :=
  owner?_congr (fun i => isSome_binding?_rebind env start i name other v) s

/-- The environment after a sequence of writes, each a name and its new value. -/
def replay (env : Env) (start : Nat) (writes : List (String × Value)) : Env :=
  writes.foldl (fun env w => env.rebind start w.1 w.2) env

/-- The value of the last of the writes to a name. -/
def lastWrite? (writes : List (String × Value)) (name : String) : Option Value :=
  (writes.reverse.find? (·.1 == name)).map (·.2)

theorem lastWrite?_cons (w : String × Value) (writes : List (String × Value)) (name : String) :
    lastWrite? (w :: writes) name =
      (lastWrite? writes name).or (if w.1 = name then some w.2 else none) := by
  unfold lastWrite?
  rw [List.reverse_cons, List.find?_append]
  cases writes.reverse.find? (·.1 == name) with
  | some _ => rfl
  | none => by_cases same : w.1 = name <;> simp [same]

@[simp] theorem replay_nil (env : Env) (start : Nat) : env.replay start [] = env := rfl

@[simp] theorem replay_cons (env : Env) (start : Nat) (w : String × Value)
    (writes : List (String × Value)) :
    env.replay start (w :: writes) = (env.rebind start w.1 w.2).replay start writes := rfl

theorem replay_append (env : Env) (start : Nat) (writes writes' : List (String × Value)) :
    env.replay start (writes ++ writes') = (env.replay start writes).replay start writes' :=
  List.foldl_append

theorem length_replay (env : Env) (start : Nat) (writes : List (String × Value)) :
    (env.replay start writes).scopes.length = env.scopes.length := by
  induction writes generalizing env with
  | nil => rfl
  | cons w writes ih => rw [replay_cons, ih, length_rebind]

theorem isSome_binding?_replay (env : Env) (start i : Nat) (name : String)
    (writes : List (String × Value)) :
    ((env.replay start writes).binding? i name).isSome = (env.binding? i name).isSome := by
  induction writes generalizing env with
  | nil => rfl
  | cons w writes ih => rw [replay_cons, ih, isSome_binding?_rebind]

/-- **Replayed writes.** After a sequence of writes, a name's binding in its owner holds the last
value written to it, if any; every other binding is as it was. -/
theorem binding?_replay (env : Env) (start i : Nat) (name : String)
    (writes : List (String × Value)) :
    (env.replay start writes).binding? i name =
      match lastWrite? writes name with
      | some v => if env.owner? start name = some i then some (some v) else env.binding? i name
      | none => env.binding? i name := by
  induction writes generalizing env with
  | nil => rfl
  | cons w writes ih =>
    rw [replay_cons, ih, owner?_rebind, lastWrite?_cons, binding?_rebind]
    cases lastWrite? writes name with
    | some v =>
      -- a later write to the name hides this one
      by_cases owned : env.owner? start name = some i
      · simp [owned]
      · have : ¬ (env.owner? start w.1 = some i ∧ w.1 = name) := fun ⟨o, same⟩ =>
          owned (same ▸ o)
        simp [owned, this]
    | none =>
      by_cases same : w.1 = name
      · subst same; simp
      · simp [same]

/-- A binding hidden behind a binding of the same name in a scope further in is never written. -/
theorem binding?_replay_of_shadowed {env : Env} {start i j : Nat} {name : String}
    (outer : i < j) (within : j ≤ start) (shadowing : (env.binding? j name).isSome)
    (writes : List (String × Value)) :
    (env.replay start writes).binding? i name = env.binding? i name := by
  have notOwner : env.owner? start name ≠ some i := fun owned => by
    simp [(owner?_eq_some_iff.1 owned).2.2 j outer within] at shadowing
  rw [binding?_replay]
  split <;> simp [notOwner]

end Env

end Lox
