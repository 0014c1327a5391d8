import Mathlib.Logic.Function.Basic
import ThreeAddress.Code.Instr
import ThreeAddress.Proofs.Execution.Meaning

namespace ThreeAddress

/-!
# Executing a list of instructions

A machine goes through a list with a counter. A jump goes to the place of its
label in the list. The memory is indexed by addresses; `addressOf` says which
address a place has, so that one machine runs a list with temporaries apart from
variables, and another one runs it with both addressed by their printed names.
-/

namespace Machine

structure Config (Address Value : Type) where
  counter : Nat
  memory : Address → Value

def marks (label : Label) : Instr → Bool
  | .label here => here == label
  | _ => false

def position? (code : List Instr) (label : Label) : Option Nat :=
  code.findIdx? (marks label)

/-- The labels that stand in a list, in order. -/
def labels (code : List Instr) : List Label :=
  code.filterMap fun
    | .label here => some here
    | _ => none

/-- A segment of a list that starts at a position. -/
def CodeAt (code : List Instr) (start : Nat) (segment : List Instr) : Prop :=
  ∃ before after, code = before ++ segment ++ after ∧ before.length = start

section

variable {Address Value : Type} [DecidableEq Address]
  (meaning : Interpretation Value) (addressOf : Place → Address)

def loadFrom (memory : Address → Value) (place : Place) : Option Value :=
  some (memory (addressOf place))

def assign (target value : Expr) (memory : Address → Value) : Option (Address → Value) := do
  let place ← target.place? meaning (loadFrom addressOf memory)
  let result ← value.eval meaning (loadFrom addressOf memory)
  return Function.update memory (addressOf place) result

variable (code : List Instr)

def Config.next (config : Config Address Value) : Config Address Value :=
  { config with counter := config.counter + 1 }

def Config.jump (target : Label) (config : Config Address Value) :
    Option (Config Address Value) :=
  (position? code target).map fun counter => { config with counter }

def Config.jumpIf (taken : Bool) (target : Label) (config : Config Address Value) :
    Option (Config Address Value) :=
  if taken then config.jump code target else some config.next

/-- One step, unless the counter is past the list or an instruction has no effect. -/
def step (config : Config Address Value) : Option (Config Address Value) :=
  match code[config.counter]? with
  | none => none
  | some (.assign target value) =>
      (assign meaning addressOf target value config.memory).map fun memory =>
        { counter := config.counter + 1, memory }
  | some (.label _) => some config.next
  | some (.goto target) => config.jump code target
  | some (.ifTrue condition target) => do
      let result ← condition.eval meaning (loadFrom addressOf config.memory)
      config.jumpIf code (meaning.holds result) target
  | some (.ifFalse condition target) => do
      let result ← condition.eval meaning (loadFrom addressOf config.memory)
      config.jumpIf code (!meaning.holds result) target

def run : Nat → Config Address Value → Option (Config Address Value)
  | 0, config => some config
  | steps + 1, config => (step meaning addressOf code config).bind (run steps)

/-- Wherever it stands, a segment is gone through from one memory to another. -/
def Passes (segment : List Instr) (memory final : Address → Value) : Prop :=
  ∀ code start, CodeAt code start segment →
    ∃ steps, run meaning addressOf code steps ⟨start, memory⟩ =
      some ⟨start + segment.length, final⟩

/-- Started at the first instruction, the list is run to its end. -/
def RunsTo (memory final : Address → Value) : Prop :=
  ∃ steps, run meaning addressOf code steps ⟨0, memory⟩ = some ⟨code.length, final⟩

end

section

variable {Address Value : Type} [DecidableEq Address] {meaning : Interpretation Value}
  {addressOf : Place → Address} {code : List Instr} {memory final : Address → Value}
  {first second third : Config Address Value} {steps more : Nat}

theorem run_add : run meaning addressOf code (steps + more) first =
    (run meaning addressOf code steps first).bind (run meaning addressOf code more) := by
  induction steps generalizing first with
  | zero => simp [run]
  | succ steps ih =>
      rw [Nat.succ_add_eq_add_succ, Nat.add_succ, run, run, Option.bind_assoc]
      exact congrArg _ (funext fun next => ih)

theorem run_trans (front : run meaning addressOf code steps first = some second)
    (back : run meaning addressOf code more second = some third) :
    run meaning addressOf code (steps + more) first = some third := by
  rw [run_add, front, Option.bind_some, back]

theorem run_one (stepped : step meaning addressOf code first = some second) :
    run meaning addressOf code 1 first = some second := by
  simp [run, stepped]

theorem step_at_end : step meaning addressOf code ⟨code.length, memory⟩ = none := by
  simp [step]

/-- No run goes on past the end of the list. -/
theorem run_le_of_end (ended : run meaning addressOf code steps first = some ⟨code.length, memory⟩)
    (other : run meaning addressOf code more first = some second) : more ≤ steps := by
  apply Nat.le_of_not_lt
  intro longer
  obtain ⟨extra, rfl⟩ := Nat.exists_eq_add_of_lt longer
  rw [Nat.add_assoc, run_add, ended, Option.bind_some, run, step_at_end] at other
  contradiction

theorem runsTo_unique (one : RunsTo meaning addressOf code memory final)
    {other : Address → Value} (two : RunsTo meaning addressOf code memory other) :
    final = other := by
  obtain ⟨steps, one⟩ := one
  obtain ⟨more, two⟩ := two
  have same : steps = more := Nat.le_antisymm (run_le_of_end two one) (run_le_of_end one two)
  subst more
  rw [one] at two
  cases two
  rfl

end

section

variable {code segment rest : List Instr} {instr : Instr} {start : Nat} {label : Label}

theorem CodeAt.whole : CodeAt code 0 code :=
  ⟨[], [], by simp, rfl⟩

theorem CodeAt.left (placed : CodeAt code start (segment ++ rest)) : CodeAt code start segment := by
  obtain ⟨before, after, split, length⟩ := placed
  exact ⟨before, rest ++ after, by simp [split], length⟩

theorem CodeAt.right (placed : CodeAt code start (segment ++ rest)) :
    CodeAt code (start + segment.length) rest := by
  obtain ⟨before, after, split, length⟩ := placed
  exact ⟨before ++ segment, after, by simp [split], by simp [length]⟩

theorem CodeAt.tail (placed : CodeAt code start (instr :: rest)) :
    CodeAt code (start + 1) rest := by
  have split : CodeAt code start ([instr] ++ rest) := placed
  exact split.right

theorem CodeAt.inside {offset : Nat} (outer : CodeAt code start segment)
    (inner : CodeAt segment offset rest) : CodeAt code (start + offset) rest := by
  obtain ⟨before, after, split, length⟩ := outer
  obtain ⟨front, back, innerSplit, innerLength⟩ := inner
  refine ⟨before ++ front, back ++ after, by simp [split, innerSplit], ?_⟩
  rw [List.length_append, length, innerLength]

theorem CodeAt.head (placed : CodeAt code start (instr :: rest)) : code[start]? = some instr := by
  obtain ⟨before, after, split, length⟩ := placed
  rw [split, List.append_assoc, List.getElem?_append_right (by omega)]
  simp [length]

@[simp] theorem labels_append : labels (segment ++ rest) = labels segment ++ labels rest :=
  List.filterMap_append

/-- Where a label stands only once, a jump finds it. -/
theorem CodeAt.position (distinct : (labels code).Nodup)
    (placed : CodeAt code start (.label label :: rest)) : position? code label = some start := by
  obtain ⟨before, after, split, length⟩ := placed
  have absent : ∀ instr ∈ before, marks label instr = false := by
    intro instr member
    cases instr with
    | label here =>
        apply beq_eq_false_iff_ne.mpr
        intro same
        rcases same with rfl
        rw [split, List.append_assoc, labels_append] at distinct
        refine (List.nodup_append.mp distinct).2.2 here ?_ here ?_ rfl
        · exact List.mem_filterMap.mpr ⟨_, member, rfl⟩
        · exact List.mem_filterMap.mpr ⟨.label here, by simp, rfl⟩
    | _ => rfl
  rw [position?, split, List.append_assoc, List.findIdx?_append,
    List.findIdx?_eq_none_iff.mpr absent]
  simp [List.findIdx?_cons, marks, length]

end

section

variable {Address Value : Type} [DecidableEq Address] {meaning : Interpretation Value}
  {addressOf : Place → Address} {code rest : List Instr} {start counter : Nat} {target : Label}
  {condition : Expr} {value : Value} {memory : Address → Value}

theorem run_label (placed : CodeAt code start (.label target :: rest)) :
    run meaning addressOf code 1 ⟨start, memory⟩ = some ⟨start + 1, memory⟩ :=
  run_one (by simp [step, placed.head, Config.next])

theorem run_goto (placed : CodeAt code start (.goto target :: rest))
    (found : position? code target = some counter) :
    run meaning addressOf code 1 ⟨start, memory⟩ = some ⟨counter, memory⟩ :=
  run_one (by simp [step, placed.head, Config.jump, found])

theorem run_ifTrue (placed : CodeAt code start (.ifTrue condition target :: rest))
    (found : position? code target = some counter)
    (evaluated : condition.eval meaning (loadFrom addressOf memory) = some value) :
    run meaning addressOf code 1 ⟨start, memory⟩ =
      some ⟨if meaning.holds value then counter else start + 1, memory⟩ := by
  apply run_one
  cases tested : meaning.holds value <;>
    simp [step, placed.head, evaluated, Config.jumpIf, Config.jump, Config.next, found, tested]

theorem run_ifFalse (placed : CodeAt code start (.ifFalse condition target :: rest))
    (found : position? code target = some counter)
    (evaluated : condition.eval meaning (loadFrom addressOf memory) = some value) :
    run meaning addressOf code 1 ⟨start, memory⟩ =
      some ⟨if meaning.holds value then start + 1 else counter, memory⟩ := by
  apply run_one
  cases tested : meaning.holds value <;>
    simp [step, placed.head, evaluated, Config.jumpIf, Config.jump, Config.next, found, tested]

end

section

variable {Address Value : Type} [DecidableEq Address] {meaning : Interpretation Value}
  {addressOf : Place → Address} {memory middle final : Address → Value}
  {segment rest : List Instr}

theorem Passes.nil : Passes meaning addressOf [] memory memory :=
  fun _ _ _ => ⟨0, rfl⟩

theorem Passes.append (front : Passes meaning addressOf segment memory middle)
    (back : Passes meaning addressOf rest middle final) :
    Passes meaning addressOf (segment ++ rest) memory final := by
  intro code start placed
  obtain ⟨steps, first⟩ := front code start placed.left
  obtain ⟨more, second⟩ := back code (start + segment.length) placed.right
  refine ⟨steps + more, ?_⟩
  rw [run_trans first second, List.length_append, Nat.add_assoc]

theorem Passes.assign {target value : Expr}
    (assigned : Machine.assign meaning addressOf target value memory = some final) :
    Passes meaning addressOf [.assign target value] memory final := by
  intro code start placed
  exact ⟨1, run_one (by simp [step, placed.head, assigned])⟩

end

end Machine

end ThreeAddress
