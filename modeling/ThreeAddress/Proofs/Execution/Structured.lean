import Mathlib.Logic.Function.Basic
import ThreeAddress.Program
import ThreeAddress.Proofs.Execution.Meaning
import ThreeAddress.Proofs.Variables

namespace ThreeAddress

/-!
# Executing a program as it is written

Every variable of every block keeps its own cells for the whole run. A loop is
given a number of rounds; a program ends in a store if some number of rounds is
enough for it. Execution goes astray where an index is evaluated that is no
integer within its bound.
-/

abbrev Store (Value : Type) := Cell → Value

/-- How the execution of a statement ends. -/
inductive Outcome (Value : Type) where
  | done (store : Store Value)
  /-- Left by a break. -/
  | broken (store : Store Value)
  /-- An element was evaluated that is none. -/
  | astray
  /-- A loop has used up its rounds. -/
  | unfinished

def Outcome.andThen (outcome : Outcome Value) (next : Store Value → Outcome Value) :
    Outcome Value :=
  match outcome with
  | .done store => next store
  | .broken store => .broken store
  | .astray => .astray
  | .unfinished => .unfinished

/-- Goes on with the next round of a loop, unless the body has left it. -/
def Outcome.andAgain (outcome : Outcome Value) (next : Store Value → Outcome Value) :
    Outcome Value :=
  match outcome with
  | .done store => next store
  | .broken store => .done store
  | .astray => .astray
  | .unfinished => .unfinished

def Outcome.branch (test : Option Bool) (yes no : Outcome Value) : Outcome Value :=
  match test with
  | some true => yes
  | some false => no
  | none => .astray

/-- At most this many rounds, each of a test and a body. -/
def whileRounds (test : Store Value → Option Bool) (body : Store Value → Outcome Value) :
    Nat → Store Value → Outcome Value
  | 0, _ => .unfinished
  | rounds + 1, store =>
      .branch (test store) ((body store).andAgain (whileRounds test body rounds)) (.done store)

/-- At most this many rounds, each of a body and a test. -/
def doRounds (body : Store Value → Outcome Value) (test : Store Value → Option Bool) :
    Nat → Store Value → Outcome Value
  | 0, _ => .unfinished
  | rounds + 1, store =>
      (body store).andAgain fun store =>
        .branch (test store) (doRounds body test rounds store) (.done store)

/-- What a place holds in a scope. Source programs have no temporaries. -/
def Scopes.load (scopes : Scopes) (scope : Nat) (store : Store Value) : Place → Option Value
  | .cell name indices => (scopes.cell? scope name indices).map store
  | .temp _ => none

def Scopes.target? (scopes : Scopes) (scope : Nat) : Place → Option Cell
  | .cell name indices => scopes.cell? scope name indices
  | .temp _ => none

namespace Stmt

section

variable (meaning : Interpretation Value) (scopes : Scopes)

/-- Copies the value of the right side into the cell that the left side names. -/
def execAssign (scope : Nat) (target value : Expr) (store : Store Value) : Outcome Value :=
  let load := scopes.load scope store
  match (target.place? meaning load).bind (scopes.target? scope), value.eval meaning load with
  | some cell, some result => .done (Function.update store cell result)
  | _, _ => .astray

def test (scope : Nat) (condition : Expr) (store : Store Value) : Option Bool :=
  (condition.eval meaning (scopes.load scope store)).map meaning.holds

mutual

/-- Executes a statement that stands in a scope, every loop with at most this many rounds. -/
def exec (rounds scope : Nat) : Stmt → Store Value → Outcome Value
  | .assign target value _ => execAssign meaning scopes scope target value
  | .ifThen condition body => fun store =>
      .branch (test meaning scopes scope condition store) (exec rounds scope body store)
        (.done store)
  | .ifThenElse condition body otherwise => fun store =>
      .branch (test meaning scopes scope condition store) (exec rounds scope body store)
        (exec rounds scope otherwise store)
  | .whileDo condition body =>
      whileRounds (test meaning scopes scope condition) (exec rounds scope body) rounds
  | .doWhile body condition =>
      doRounds (exec rounds scope body) (test meaning scopes scope condition) rounds
  | .breakLoop => .broken
  | .block inner _ body => execAll rounds inner body

def execAll (rounds scope : Nat) : List Stmt → Store Value → Outcome Value
  | [] => .done
  | first :: rest => fun store =>
      (exec rounds scope first store).andThen (execAll rounds scope rest)

end

end

end Stmt

namespace Program

variable (program : Program) (meaning : Interpretation Value)

def exec (rounds : Nat) (store : Store Value) : Outcome Value :=
  Stmt.execAll meaning program.scopes rounds program.block.scope program.block.body store

/-- The program, started in one store, ends in another. -/
def EndsIn (store final : Store Value) : Prop :=
  ∃ rounds, program.exec meaning rounds store = .done final

/-- Every index that the program evaluates, started in this store, is within its bound. -/
def StaysInBounds (store : Store Value) : Prop :=
  ∀ rounds, program.exec meaning rounds store ≠ .astray

end Program

/-- More rounds may only change an outcome that is unfinished. -/
def Outcome.Grows (less more : Outcome Value) : Prop :=
  less = .unfinished ∨ less = more

namespace Outcome

variable {Value : Type} {less more : Outcome Value} {fewer further : Store Value → Outcome Value}

theorem Grows.refl (outcome : Outcome Value) : outcome.Grows outcome :=
  .inr rfl

theorem Grows.andThen (first : less.Grows more)
    (second : ∀ store, (fewer store).Grows (further store)) :
    (less.andThen fewer).Grows (more.andThen further) := by
  rcases first with rfl | rfl
  · exact .inl rfl
  · cases less with
    | done store => exact second store
    | _ => exact .refl _

theorem Grows.andAgain (first : less.Grows more)
    (second : ∀ store, (fewer store).Grows (further store)) :
    (less.andAgain fewer).Grows (more.andAgain further) := by
  rcases first with rfl | rfl
  · exact .inl rfl
  · cases less with
    | done store => exact second store
    | _ => exact .refl _

theorem Grows.branch {no noMore : Outcome Value} (taken : less.Grows more)
    (passed : no.Grows noMore) (test : Option Bool) :
    (Outcome.branch test less no).Grows (.branch test more noMore) := by
  match test with
  | none => exact .refl _
  | some true => exact taken
  | some false => exact passed

end Outcome

section

variable {Value : Type} {test : Store Value → Option Bool}
  {body bodyMore : Store Value → Outcome Value}

theorem whileRounds_grows (bodyGrows : ∀ store, (body store).Grows (bodyMore store))
    {count more : Nat} (fewer : count ≤ more) (store : Store Value) :
    (whileRounds test body count store).Grows (whileRounds test bodyMore more store) := by
  induction count generalizing more store with
  | zero => exact .inl rfl
  | succ count ih =>
      obtain ⟨more, rfl⟩ := Nat.exists_eq_add_one_of_ne_zero (Nat.ne_zero_of_lt fewer)
      have again := (bodyGrows store).andAgain (ih (Nat.le_of_succ_le_succ fewer))
      exact again.branch (.refl _) (test store)

theorem doRounds_grows (bodyGrows : ∀ store, (body store).Grows (bodyMore store))
    {count more : Nat} (fewer : count ≤ more) (store : Store Value) :
    (doRounds body test count store).Grows (doRounds bodyMore test more store) := by
  induction count generalizing more store with
  | zero => exact .inl rfl
  | succ count ih =>
      obtain ⟨more, rfl⟩ := Nat.exists_eq_add_one_of_ne_zero (Nat.ne_zero_of_lt fewer)
      refine (bodyGrows store).andAgain ?_
      intro next
      exact (ih (Nat.le_of_succ_le_succ fewer) next).branch (.refl _) (test next)

variable {meaning : Interpretation Value} {scopes : Scopes} {rounds more : Nat}

mutual

theorem Stmt.exec_grows (stmt : Stmt) (fewer : rounds ≤ more) (scope : Nat)
    (store : Store Value) :
    (stmt.exec meaning scopes rounds scope store).Grows
      (stmt.exec meaning scopes more scope store) := by
  match stmt with
  | .assign _ _ _ | .breakLoop =>
      rw [Stmt.exec, Stmt.exec]
      exact .refl _
  | .ifThen condition body =>
      rw [Stmt.exec, Stmt.exec]
      exact (Stmt.exec_grows body fewer scope store).branch (.refl _) _
  | .ifThenElse condition body otherwise =>
      rw [Stmt.exec, Stmt.exec]
      exact (Stmt.exec_grows body fewer scope store).branch
        (Stmt.exec_grows otherwise fewer scope store) _
  | .whileDo condition body =>
      rw [Stmt.exec, Stmt.exec]
      exact whileRounds_grows (Stmt.exec_grows body fewer scope) fewer store
  | .doWhile body condition =>
      rw [Stmt.exec, Stmt.exec]
      exact doRounds_grows (Stmt.exec_grows body fewer scope) fewer store
  | .block inner declarations body =>
      rw [Stmt.exec, Stmt.exec]
      exact Stmt.execAll_grows body fewer inner store

theorem Stmt.execAll_grows (body : List Stmt) (fewer : rounds ≤ more) (scope : Nat)
    (store : Store Value) :
    (Stmt.execAll meaning scopes rounds scope body store).Grows
      (Stmt.execAll meaning scopes more scope body store) := by
  match body with
  | [] =>
      rw [Stmt.execAll, Stmt.execAll]
      exact .refl _
  | first :: rest =>
      rw [Stmt.execAll, Stmt.execAll]
      exact (Stmt.exec_grows first fewer scope store).andThen
        (Stmt.execAll_grows rest fewer scope)

end

end

namespace Program

variable {Value : Type} {program : Program} {meaning : Interpretation Value}
  {store final other : Store Value}

theorem exec_of_endsIn (ended : program.EndsIn meaning store final) :
    ∃ enough, ∀ rounds, enough ≤ rounds → program.exec meaning rounds store = .done final := by
  obtain ⟨enough, done⟩ := ended
  refine ⟨enough, ?_⟩
  intro rounds more
  have grows : (program.exec meaning enough store).Grows (program.exec meaning rounds store) :=
    Stmt.execAll_grows program.block.body more program.block.scope store
  rw [done] at grows
  rcases grows with unfinished | same
  · contradiction
  · exact same.symm

/-- A program ends in one store at most. -/
theorem endsIn_unique (one : program.EndsIn meaning store final)
    (two : program.EndsIn meaning store other) : final = other := by
  obtain ⟨enough, ended⟩ := exec_of_endsIn one
  obtain ⟨also, alsoEnded⟩ := exec_of_endsIn two
  have same := (ended (max enough also) (Nat.le_max_left _ _)).symm.trans
    (alsoEnded (max enough also) (Nat.le_max_right _ _))
  cases same
  rfl

end Program

end ThreeAddress
