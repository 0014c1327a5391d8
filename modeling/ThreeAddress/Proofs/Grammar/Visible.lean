import Mathlib.Data.List.Nodup
import ThreeAddress.Grammar.Statement
import ThreeAddress.Proofs.Typing.Judgement

namespace ThreeAddress

namespace Scopes

variable {scopes : Scopes} {parent : Option Nat} {scope : Nat} {name : String}
  {declaration : Declaration} {declarations : List Declaration} {entry : Scope}
  {more rest : List Scope} {visible : List String}

/-- Adds scopes behind those that are there. -/
def extend (scopes : Scopes) (more : List Scope) : Scopes :=
  ⟨(scopes.all.toList ++ more).toArray⟩

theorem extend_nil : scopes.extend [] = scopes := by
  simp [extend]

theorem extend_extend : (scopes.extend more).extend rest = scopes.extend (more ++ rest) := by
  simp [extend]

theorem count_extend : (scopes.extend more).count = scopes.count + more.length := by
  simp [extend, count]

theorem push_eq_extend : scopes.push parent = scopes.extend [{ parent }] := by
  rw [push, extend]
  congr 1
  exact Array.toList_inj.mp (by simp)

theorem entry_of_extend (inside : scope < scopes.count) :
    (scopes.extend more).all[scope]? = scopes.all[scope]? := by
  have within : scope < scopes.all.toList.length := by simpa [count] using inside
  simp [extend, List.getElem?_append_left within]

theorem first_of_extend : (scopes.extend (entry :: more)).all[scopes.count]? = some entry := by
  simp [extend, count]

theorem Ordered.start : ({} : Scopes).Ordered :=
  nofun

/-- A new scope stands in one that is there. -/
theorem Ordered.extend (ordered : scopes.Ordered)
    (inside : ∀ scope ∈ parent, scope < scopes.count) :
    (scopes.extend [⟨parent, declarations⟩]).Ordered := by
  intro scope within outer around
  have found := Array.getElem?_eq_getElem within
  by_cases old : scope < scopes.count
  · rw [entry_of_extend old, Array.getElem?_eq_getElem old, Option.some.injEq] at found
    rw [← found] at around
    exact ordered scope old outer around
  · have last : scope = scopes.count := by
      have bound : scope < (scopes.extend [⟨parent, declarations⟩]).count := within
      rw [count_extend, List.length_singleton] at bound
      omega
    subst last
    rw [first_of_extend, Option.some.injEq] at found
    rw [← found] at around
    exact inside outer around

theorem Means.extend (means : scopes.Means name scope declaration) :
    (scopes.extend more).Means name scope declaration := by
  induction means with
  | here entry found =>
      have inside := (Array.getElem?_eq_some_iff.mp entry).1
      exact .here ((entry_of_extend inside).trans entry) found
  | outward entry missing around _ ih =>
      have inside := (Array.getElem?_eq_some_iff.mp entry).1
      exact .outward ((entry_of_extend inside).trans entry) missing around ih

/-- From a scope that is there, no way leads to a new one. -/
theorem Means.of_extend (ordered : scopes.Ordered) (inside : scope < scopes.count)
    (means : (scopes.extend more).Means name scope declaration) :
    scopes.Means name scope declaration := by
  induction means with
  | here entry found => exact .here ((entry_of_extend inside).symm.trans entry) found
  | outward entry missing around _ ih =>
      have old := (entry_of_extend inside).symm.trans entry
      obtain ⟨within, rfl⟩ := Array.getElem?_eq_some_iff.mp old
      have falls := ordered _ within _ around
      exact .outward old missing around (ih (Nat.lt_trans falls inside))

/-- These are the names with a meaning in a scope, or none where there is no scope yet. -/
structure Around (scopes : Scopes) (parent : Option Nat) (visible : List String) : Prop where
  inside : ∀ scope ∈ parent, scope < scopes.count
  means : ∀ name, (∃ scope ∈ parent, ∃ declaration, scopes.Means name scope declaration) ↔
    name ∈ visible

theorem Around.start : Around {} none [] where
  inside := nofun
  means := by simp

theorem Around.extend (around : scopes.Around parent visible) (ordered : scopes.Ordered) :
    (scopes.extend more).Around parent visible where
  inside := by
    intro scope member
    have bound := around.inside scope member
    rw [count_extend]
    omega
  means := by
    intro name
    rw [← around.means name]
    constructor
    · rintro ⟨scope, member, declaration, means⟩
      exact ⟨scope, member, declaration, means.of_extend ordered (around.inside scope member)⟩
    · rintro ⟨scope, member, declaration, means⟩
      exact ⟨scope, member, declaration, means.extend⟩

theorem find?_isSome_iff (parent : Option Nat) :
    (∃ declaration, (⟨parent, declarations⟩ : Scope).find? name = some declaration) ↔
      name ∈ declarations.map Declaration.name := by
  rw [← Option.isSome_iff_exists, Scope.find?, List.find?_isSome]
  simp [eq_comm]

/-- In a new scope, its own names come before those around it. -/
theorem Around.block (around : scopes.Around parent visible) (ordered : scopes.Ordered) :
    (scopes.extend [⟨parent, declarations⟩]).Around (some scopes.count)
      (declarations.map Declaration.name ++ visible) where
  inside := by
    intro scope member
    cases member
    rw [count_extend]
    exact Nat.lt_add_one _
  means := by
    intro name
    rw [List.mem_append, ← find?_isSome_iff parent, ← around.means name]
    constructor
    · rintro ⟨scope, member, declaration, means⟩
      cases member
      cases means with
      | here entry found =>
          cases entry.symm.trans first_of_extend
          exact .inl ⟨declaration, found⟩
      | outward entry missing outer means =>
          cases entry.symm.trans first_of_extend
          exact .inr ⟨_, outer, declaration,
            means.of_extend ordered (around.inside _ outer)⟩
    · rintro (⟨declaration, found⟩ | ⟨scope, member, declaration, means⟩)
      · exact ⟨_, rfl, declaration, .here first_of_extend found⟩
      · cases nearest : (⟨parent, declarations⟩ : Scope).find? name with
        | some own => exact ⟨_, rfl, own, .here first_of_extend nearest⟩
        | none => exact ⟨_, rfl, declaration, .outward first_of_extend nearest member means.extend⟩

theorem declaredIn_extend (scopes : Scopes) (parent : Option Nat) :
    (scopes.extend [⟨parent, declarations⟩]).declaredIn scopes.count name = true ↔
      name ∈ declarations.map Declaration.name := by
  rw [declaredIn, first_of_extend, ← find?_isSome_iff parent]
  exact Option.isSome_iff_exists

theorem declare_extend (fresh : declaration.name ∉ declarations.map Declaration.name) :
    (scopes.extend [⟨parent, declarations⟩]).declare scopes.count declaration =
      scopes.extend [⟨parent, declarations ++ [declaration]⟩] := by
  have notYet := mt (declaredIn_extend scopes parent).mp fresh
  have inside : scopes.count < (scopes.extend [⟨parent, declarations⟩]).count := by
    rw [count_extend]
    exact Nat.lt_add_one _
  have fits : (scopes.extend [⟨parent, declarations⟩]).canDeclare scopes.count declaration =
      true := by
    rw [canDeclare, decide_eq_true inside, Bool.eq_false_iff.mpr notYet]
    rfl
  have size : scopes.count = scopes.all.toList.length := rfl
  rw [declare, if_pos fits, extend, extend, List.modify_toArray, List.modify_eq_take_drop, size,
    List.take_left, List.drop_left]
  rfl

end Scopes

namespace Grammar

theorem isDeclared_iff {scopes : Scopes} {scope : Nat} {visible : List String}
    (around : scopes.Around (some scope) visible) (ordered : scopes.Ordered) (name : String) :
    isDeclared scopes scope name = true ↔ name ∈ visible := by
  rw [isDeclared, Option.isSome_iff_exists, ← around.means name]
  constructor
  · rintro ⟨declaration, found⟩
    exact ⟨scope, rfl, declaration, (Scopes.lookup_eq_some_iff ordered).mp found⟩
  · rintro ⟨_, member, declaration, means⟩
    cases member
    exact ⟨declaration, (Scopes.lookup_eq_some_iff ordered).mpr means⟩

end Grammar

end ThreeAddress
