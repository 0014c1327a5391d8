import ThreeAddress.Proofs.Execution.Machine

namespace ThreeAddress

namespace Expr

mutual

/-- An expression loads these places only, whatever its indices are. -/
def Uses (loads : Place → Prop) : Expr → Prop
  | .binary _ _ left right => left.Uses loads ∧ right.Uses loads
  | .unary _ _ operand => operand.Uses loads
  | .paren _ inner => inner.Uses loads
  | .loc _ id indices => (∀ numbers, loads (.cell id.name numbers)) ∧ AllUse loads indices
  | .int _ _ | .real _ _ | .bool _ _ => True
  | .temp _ number => loads (.temp number)

def AllUse (loads : Place → Prop) : List Expr → Prop
  | [] => True
  | index :: rest => index.Uses loads ∧ AllUse loads rest

end

variable {loads : Place → Prop} {Value : Type} {meaning : Interpretation Value}
  {first second : Place → Option Value}

mutual

theorem eval_congr (same : ∀ place, loads place → first place = second place) (expr : Expr)
    (uses : expr.Uses loads) : expr.eval meaning first = expr.eval meaning second := by
  match expr with
  | .binary _ _ left right =>
      rw [eval, eval, eval_congr same left uses.1, eval_congr same right uses.2]
  | .unary _ _ operand => rw [eval, eval, eval_congr same operand uses]
  | .paren _ inner => exact eval_congr same inner uses
  | .loc _ id indices =>
      rw [eval, eval, evalIndices_congr same indices uses.2]
      cases evalIndices meaning second indices with
      | none => rfl
      | some numbers => exact same _ (uses.1 numbers)
  | .int _ _ | .real _ _ | .bool _ _ => rfl
  | .temp _ number => exact same _ uses

theorem evalIndices_congr (same : ∀ place, loads place → first place = second place)
    (indices : List Expr) (uses : AllUse loads indices) :
    evalIndices meaning first indices = evalIndices meaning second indices := by
  match indices with
  | [] => rfl
  | index :: rest =>
      rw [evalIndices, evalIndices, eval_congr same index uses.1,
        evalIndices_congr same rest uses.2]

end

theorem place?_congr (same : ∀ place, loads place → first place = second place) (expr : Expr)
    (uses : expr.Uses loads) : expr.place? meaning first = expr.place? meaning second := by
  cases expr with
  | loc _ id indices => simp only [place?, evalIndices_congr same indices uses.2]
  | _ => rfl

theorem place?_loads {expr : Expr} {place : Place} (uses : expr.Uses loads)
    (named : expr.place? meaning first = some place) : loads place := by
  cases expr with
  | loc _ id indices =>
      obtain ⟨numbers, -, rfl⟩ := Option.map_eq_some_iff.mp named
      exact uses.1 numbers
  | temp _ number =>
      cases named
      exact uses
  | _ => simp [place?] at named

end Expr

def Instr.exprs : Instr → List Expr
  | .assign target value => [target, value]
  | .label _ | .goto _ => []
  | .ifTrue condition _ | .ifFalse condition _ => [condition]

def Instr.Uses (loads : Place → Prop) (instr : Instr) : Prop :=
  ∀ expr ∈ instr.exprs, expr.Uses loads

namespace Machine

section

variable {α β γ δ : Type} {related : α → β → Prop} {following : γ → δ → Prop} {first : Option α}
  {second : Option β}

theorem rel_map {left : α → γ} {right : β → δ} (both : Option.Rel related first second)
    (next : ∀ one other, related one other → following (left one) (right other)) :
    Option.Rel following (first.map left) (second.map right) := by
  cases both with
  | none => exact .none
  | some both => exact .some (next _ _ both)

theorem rel_bind {left : α → Option γ} {right : β → Option δ}
    (both : Option.Rel related first second)
    (next : ∀ one other, related one other → Option.Rel following (left one) (right other)) :
    Option.Rel following (first.bind left) (second.bind right) := by
  cases both with
  | none => exact .none
  | some both => exact next _ _ both

end

section

variable {Address Value : Type} {meaning : Interpretation Value} {loads : Place → Prop}
  {addressOf : Place → Address} {code : List Instr} {memory : Place → Value}
  {named : Address → Value}

def CodeUses (loads : Place → Prop) (code : List Instr) : Prop :=
  ∀ instr ∈ code, instr.Uses loads

/-- Two places that are used have different addresses. -/
def Separates (loads : Place → Prop) (addressOf : Place → Address) : Prop :=
  ∀ place other, loads place → loads other → addressOf place = addressOf other → place = other

/-- Every place that is used has the same value in both memories. -/
def Holds (loads : Place → Prop) (addressOf : Place → Address) (memory : Place → Value)
    (named : Address → Value) : Prop :=
  ∀ place, loads place → named (addressOf place) = memory place

/-- Both machines are at the same instruction, with the same values. -/
def Alike (loads : Place → Prop) (addressOf : Place → Address) (config : Config Place Value)
    (other : Config Address Value) : Prop :=
  config.counter = other.counter ∧ Holds loads addressOf config.memory other.memory

theorem Holds.load (holds : Holds loads addressOf memory named) (place : Place)
    (used : loads place) : loadFrom id memory place = loadFrom addressOf named place :=
  congrArg some (holds place used).symm

theorem jump_alike {config : Config Place Value} {other : Config Address Value} {target : Label}
    (alike : Alike loads addressOf config other) :
    Option.Rel (Alike loads addressOf) (config.jump code target) (other.jump code target) := by
  unfold Config.jump
  cases position? code target with
  | none => exact .none
  | some counter => exact .some ⟨rfl, alike.2⟩

theorem jumpIf_alike {config : Config Place Value} {other : Config Address Value} {target : Label}
    (taken : Bool) (alike : Alike loads addressOf config other) :
    Option.Rel (Alike loads addressOf) (config.jumpIf code taken target)
      (other.jumpIf code taken target) := by
  cases taken with
  | true => exact jump_alike alike
  | false => exact .some ⟨congrArg Nat.succ alike.1, alike.2⟩

variable [DecidableEq Address]

theorem Holds.update (holds : Holds loads addressOf memory named)
    (separates : Separates loads addressOf) {place : Place} (used : loads place) (value : Value) :
    Holds loads addressOf (Function.update memory place value)
      (Function.update named (addressOf place) value) := by
  intro other otherUsed
  by_cases same : other = place
  · subst other
    rw [Function.update_self, Function.update_self]
  · have apart : addressOf other ≠ addressOf place :=
      fun equal => same (separates other place otherUsed used equal)
    rw [Function.update_of_ne same, Function.update_of_ne apart]
    exact holds other otherUsed

theorem assign_alike (separates : Separates loads addressOf)
    (holds : Holds loads addressOf memory named) {target value : Expr}
    (targetUses : target.Uses loads) (valueUses : value.Uses loads) :
    Option.Rel (Holds loads addressOf) (assign meaning id target value memory)
      (assign meaning addressOf target value named) := by
  unfold assign
  rw [← Expr.place?_congr holds.load target targetUses,
    ← Expr.eval_congr holds.load value valueUses]
  cases aimed : target.place? meaning (loadFrom id memory) with
  | none => exact .none
  | some place =>
      cases value.eval meaning (loadFrom id memory) with
      | none => exact .none
      | some result =>
          exact .some (holds.update separates (Expr.place?_loads targetUses aimed) result)

theorem step_alike (separates : Separates loads addressOf)
    (uses : CodeUses loads code) {config : Config Place Value}
    {other : Config Address Value} (alike : Alike loads addressOf config other) :
    Option.Rel (Alike loads addressOf) (step meaning id code config)
      (step meaning addressOf code other) := by
  obtain ⟨sameCounter, holds⟩ := alike
  have next : Alike loads addressOf config.next other.next :=
    ⟨congrArg Nat.succ sameCounter, holds⟩
  unfold step
  rw [← sameCounter]
  cases here : code[config.counter]? with
  | none => exact .none
  | some instr =>
      have instrUses := uses instr (List.mem_of_getElem? here)
      cases instr with
      | assign target value =>
          have assigned : Option.Rel (Holds loads addressOf)
              (assign meaning id target value config.memory)
              (assign meaning addressOf target value other.memory) :=
            assign_alike separates holds (instrUses target (by simp [Instr.exprs]))
              (instrUses value (by simp [Instr.exprs]))
          exact rel_map assigned fun _ _ stillHolds => ⟨rfl, stillHolds⟩
      | label _ => exact .some next
      | goto target => exact jump_alike ⟨sameCounter, holds⟩
      | ifTrue condition target =>
          dsimp only
          rw [← Expr.eval_congr holds.load condition (instrUses condition (by simp [Instr.exprs]))]
          cases condition.eval meaning (loadFrom id config.memory) with
          | none => exact .none
          | some value => exact jumpIf_alike _ ⟨sameCounter, holds⟩
      | ifFalse condition target =>
          dsimp only
          rw [← Expr.eval_congr holds.load condition (instrUses condition (by simp [Instr.exprs]))]
          cases condition.eval meaning (loadFrom id config.memory) with
          | none => exact .none
          | some value => exact jumpIf_alike _ ⟨sameCounter, holds⟩

/-- Both machines take the same steps, as long as there are any. -/
theorem run_alike (separates : Separates loads addressOf)
    (uses : CodeUses loads code) (steps : Nat) {config : Config Place Value}
    {other : Config Address Value} (alike : Alike loads addressOf config other) :
    Option.Rel (Alike loads addressOf) (run meaning id code steps config)
      (run meaning addressOf code steps other) := by
  induction steps generalizing config other with
  | zero => exact .some alike
  | succ steps ih => exact rel_bind (step_alike separates uses alike) fun _ _ next => ih next

end

end Machine

end ThreeAddress
