import Mathlib.Data.List.Nodup
import ThreeAddress.Proofs.Execution.Machine
import ThreeAddress.Proofs.Lowering.Emission
import ThreeAddress.Proofs.WellFormed

namespace ThreeAddress

open Lowering Machine

/-- The numbers after one up to another. -/
def between (low high : Nat) : List Nat :=
  List.range' (low + 1) (high - low)

@[simp] theorem between_self {low : Nat} : between low low = [] := by
  simp [between]

theorem between_cons {low high : Nat} (below : low < high) :
    between low high = (low + 1) :: between (low + 1) high := by
  obtain ⟨extra, rfl⟩ := Nat.exists_eq_add_of_lt below
  have whole : low + extra + 1 - low = extra + 1 := by omega
  have rest : low + extra + 1 - (low + 1) = extra := by omega
  rw [between, between, whole, rest, List.range'_succ]

theorem between_append {low middle high : Nat} (first : low ≤ middle) (second : middle ≤ high) :
    between low middle ++ between middle high = between low high := by
  obtain ⟨front, rfl⟩ := Nat.exists_eq_add_of_le first
  obtain ⟨back, rfl⟩ := Nat.exists_eq_add_of_le second
  have one : low + front - low = front := by omega
  have two : low + front + back - (low + front) = back := by omega
  have both : low + front + back - low = front + back := by omega
  rw [between, between, between, one, two, both, Nat.add_right_comm, List.range'_append_1]

theorem mem_between {low high number : Nat} :
    number ∈ between low high ↔ low < number ∧ number ≤ high := by
  simp only [between, List.mem_range'_1]
  omega

theorem nodup_between {low high : Nat} : (between low high).Nodup :=
  List.nodup_range'

namespace Machine

def fills? : Instr → Option Nat
  | .assign (.temp _ number) _ => some number
  | _ => none

/-- The temporaries that code fills, in order. -/
def filled (code : List Instr) : List Nat :=
  code.filterMap fills?

@[simp] theorem filled_append {code rest : List Instr} :
    filled (code ++ rest) = filled code ++ filled rest :=
  List.filterMap_append

@[simp] theorem labels_nil : labels [] = [] := rfl

@[simp] theorem labels_label {label : Label} {code : List Instr} :
    labels (.label label :: code) = label :: labels code := rfl

@[simp] theorem labels_assign {target value : Expr} {code : List Instr} :
    labels (.assign target value :: code) = labels code := rfl

@[simp] theorem labels_goto {target : Label} {code : List Instr} :
    labels (.goto target :: code) = labels code := rfl

@[simp] theorem labels_ifTrue {condition : Expr} {target : Label} {code : List Instr} :
    labels (.ifTrue condition target :: code) = labels code := rfl

@[simp] theorem labels_ifFalse {condition : Expr} {target : Label} {code : List Instr} :
    labels (.ifFalse condition target :: code) = labels code := rfl

@[simp] theorem filled_nil : filled [] = [] := rfl

@[simp] theorem filled_temp {note : Note} {number : Nat} {value : Expr} {code : List Instr} :
    filled (.assign (.temp note number) value :: code) = number :: filled code := rfl

@[simp] theorem filled_label {label : Label} {code : List Instr} :
    filled (.label label :: code) = filled code := rfl

@[simp] theorem filled_goto {target : Label} {code : List Instr} :
    filled (.goto target :: code) = filled code := rfl

@[simp] theorem filled_ifTrue {condition : Expr} {target : Label} {code : List Instr} :
    filled (.ifTrue condition target :: code) = filled code := rfl

@[simp] theorem filled_ifFalse {condition : Expr} {target : Label} {code : List Instr} :
    filled (.ifFalse condition target :: code) = filled code := rfl

theorem filled_location {target value : Expr} {code : List Instr}
    (location : target.isLocation = true) :
    filled (.assign target value :: code) = filled code := by
  cases target with
  | loc note id indices => rfl
  | _ => simp [Expr.isLocation] at location

end Machine

/-- The code uses up exactly the names between two states of the supply: its temporaries are
filled in order, its labels stand in any order. -/
structure Takes (before : NameSupply) (code : List Instr) (after : NameSupply) : Prop where
  temps_le : before.temps ≤ after.temps
  labels_le : before.labels ≤ after.labels
  temps : filled code = between before.temps after.temps
  labels : (labels code).Perm ((between before.labels after.labels).map Label.mk)

namespace Takes

variable {before middle after : NameSupply} {code rest : List Instr}

theorem nothing (noTemps : filled code = []) (noLabels : Machine.labels code = []) :
    Takes before code before where
  temps_le := Nat.le_refl _
  labels_le := Nat.le_refl _
  temps := by rw [noTemps, between_self]
  labels := by rw [noLabels, between_self, List.map_nil]

theorem temp {note : Note} {value : Expr} :
    Takes before [.assign (.temp note (before.temps + 1)) value]
      { before with temps := before.temps + 1 } where
  temps_le := Nat.le_succ _
  labels_le := Nat.le_refl _
  temps := by simp [between_cons]
  labels := by simp

theorem label : Takes before [.label ⟨before.labels + 1⟩]
    { before with labels := before.labels + 1 } where
  temps_le := Nat.le_refl _
  labels_le := Nat.le_succ _
  temps := by simp
  labels := by simp [between_cons]

theorem append (front : Takes before code middle) (back : Takes middle rest after) :
    Takes before (code ++ rest) after where
  temps_le := Nat.le_trans front.temps_le back.temps_le
  labels_le := Nat.le_trans front.labels_le back.labels_le
  temps := by
    rw [filled_append, front.temps, back.temps, between_append front.temps_le back.temps_le]
  labels := by
    rw [labels_append, ← between_append front.labels_le back.labels_le, List.map_append]
    exact front.labels.append back.labels

theorem emission : Emission Takes where
  nothing := fun _ => nothing rfl rfl
  temp := fun _ _ _ => temp
  append := append

theorem reorder (taken : Takes before code after) (sameTemps : filled rest = filled code)
    (sameLabels : (Machine.labels rest).Perm (Machine.labels code)) :
    Takes before rest after where
  temps_le := taken.temps_le
  labels_le := taken.labels_le
  temps := sameTemps.trans taken.temps
  labels := sameLabels.trans taken.labels

theorem labels_nodup (taken : Takes before code after) : (Machine.labels code).Nodup := by
  have injective : Function.Injective Label.mk := by
    intro first second same
    exact Label.mk.inj same
  exact taken.labels.nodup_iff.mpr (List.Nodup.map injective nodup_between)

end Takes

namespace Expr

variable {typeOf? : String → Option DeclaredType} {single : Bool} {result : Expr}
  {code : List Instr} {before after : NameSupply}

theorem materialize_takes {expr : Expr}
    (given : expr.materialize.Gives before (code, result) after) : Takes before code after :=
  Takes.emission.materialize given

theorem settle_takes {expr : Expr}
    (given : (settle single expr).Gives before (code, result) after) :
    Takes before code after :=
  Takes.emission.settle given

theorem addressTerm_takes {declared : DeclaredType} {name : String} {line dimension : Nat}
    {index : Expr} (given : (addressTerm declared name line dimension index).Gives before
      (code, result) after) : Takes before code after :=
  Takes.emission.addressTerm given

theorem reduce_takes (expr : Expr)
    (given : (expr.reduce typeOf? single).Gives before (code, result) after) :
    Takes before code after :=
  Takes.emission.reduce expr given

theorem offset_takes (indices : List Expr) {declared : DeclaredType} {name : String}
    {line : Nat} {offset : Expr}
    (steps : Offset typeOf? declared name line indices before code offset after) :
    Takes before code after :=
  Takes.emission.offset indices steps

theorem addTerms_takes (indices : List Expr) {declared : DeclaredType} {name : String}
    {line dimension : Nat} {sum : Expr}
    (given : (addTerms typeOf? declared name line dimension sum indices).Gives before
      (code, result) after) : Takes before code after :=
  Takes.emission.addTerms indices given

theorem reduce_isLocation {expr : Expr} (location : expr.isLocation = true)
    (given : (expr.reduce typeOf? false).Gives before (code, result) after) :
    result.isLocation = true := by
  match expr, location with
  | .loc note id [], _ =>
      rw [reduce, gives_pure] at given
      cases given.1
      rfl
  | .loc note id (first :: rest), _ =>
      obtain ⟨_, _, _, _, _, -, -, settled, -⟩ := reduce_access_gives.mp given
      obtain ⟨-, rfl, -⟩ := settle_gives.mp settled
      rfl

end Expr

namespace Stmt

variable {scopes : Scopes} {body : List Instr} {before after : NameSupply}

theorem loopTest_takes {typeOf? : String → Option DeclaredType} {condition : Expr}
    {behind : Label} {code : List Instr}
    (tested : LoopTest typeOf? condition behind before code after) : Takes before code after := by
  unfold LoopTest at tested
  split at tested
  · obtain ⟨rfl, rfl⟩ := tested
    exact .nothing rfl rfl
  · obtain ⟨testCode, test, given, rfl⟩ := tested
    exact (Expr.reduce_takes condition given).append (.nothing rfl rfl)

/-- The label of the second branch is taken before the code of the first one, and the label
behind both before the code of the second. -/
theorem branch_labels (test front back : List Label) (elseward behind : Label) :
    (test ++ front ++ [elseward] ++ back ++ [behind]).Perm
      (test ++ [elseward] ++ front ++ [behind] ++ back) := by
  simp only [List.append_assoc]
  refine List.Perm.append_left test ?_
  rw [← List.append_assoc, ← List.append_assoc [elseward]]
  exact List.perm_append_comm.append List.perm_append_comm

/-- Both labels of a loop are taken before its code is made. -/
theorem loop_takes (inside : Takes (loopNames before) body after) (last : Instr)
    (noTemp : ∀ rest, filled (last :: rest) = filled rest)
    (noLabel : ∀ rest, Machine.labels (last :: rest) = Machine.labels rest) :
    Takes before ([.label ⟨before.labels + 1⟩] ++ body ++ [last, .label ⟨before.labels + 2⟩])
      after := by
  have both : Takes before [.label ⟨before.labels + 1⟩, .label ⟨before.labels + 2⟩]
      (loopNames before) := Takes.label.append Takes.label
  refine (both.append inside).reorder ?_ ?_
  · simp [noTemp]
  · simp only [labels_append, noLabel, labels_label, labels_nil, List.nil_append,
      List.cons_append]
    exact (List.perm_append_singleton _ _).cons _

mutual

theorem lower_takes (stmt : Stmt) {inLoop : Bool} {scope : Nat} {exit? : Option Label}
    {code : List Instr} {before after : NameSupply} (resolved : stmt.Resolved scopes inLoop scope)
    (given : (stmt.lower scopes scope exit?).Gives before code after) :
    Takes before code after := by
  match stmt with
  | .assign target value line =>
      obtain ⟨targetCode, targetResult, afterTarget, valueCode, valueResult, targetGiven,
        valueGiven, rfl⟩ := lower_assign_gives.mp given
      have location := Expr.reduce_isLocation resolved.1 targetGiven
      exact ((Expr.reduce_takes target targetGiven).append
        (Expr.reduce_takes value valueGiven)).append (.nothing (filled_location location) rfl)
  | .ifThen condition body =>
      obtain ⟨testCode, test, afterTest, bodyCode, tested, bodyGiven, rfl⟩ :=
        lower_ifThen_gives.mp given
      -- In the order of taking, the label stands before the body; in the code, behind it.
      have taken := ((Expr.reduce_takes condition tested).append .label).append
        (lower_takes body resolved.2 bodyGiven)
      refine taken.reorder (by simp) ?_
      simp only [labels_append, labels_ifFalse, labels_label, labels_nil, List.nil_append,
        List.append_assoc]
      exact List.perm_append_comm.append_left _
  | .ifThenElse condition body otherwise =>
      obtain ⟨testCode, test, afterTest, bodyCode, afterBody, elseCode, tested, bodyGiven,
        elseGiven, rfl⟩ := lower_ifThenElse_gives.mp given
      have taken := ((((Expr.reduce_takes condition tested).append .label).append
        (lower_takes body resolved.2.1 bodyGiven)).append .label).append
        (lower_takes otherwise resolved.2.2 elseGiven)
      refine taken.reorder (by simp) ?_
      simp only [labels_append, labels_ifFalse, labels_label, labels_goto, labels_nil,
        List.append_nil]
      exact branch_labels _ _ _ _ _
  | .whileDo condition body =>
      obtain ⟨testCode, afterTest, bodyCode, tested, bodyGiven, rfl⟩ :=
        lower_whileDo_gives.mp given
      have inside := (loopTest_takes tested).append (lower_takes body resolved.2 bodyGiven)
      simpa using loop_takes inside (.goto ⟨before.labels + 1⟩) (fun _ => rfl) fun _ => rfl
  | .doWhile body condition =>
      obtain ⟨bodyCode, afterBody, testCode, test, bodyGiven, tested, rfl⟩ :=
        lower_doWhile_gives.mp given
      have inside := (lower_takes body resolved.1 bodyGiven).append
        (Expr.reduce_takes condition tested)
      simpa using loop_takes inside (.ifTrue test ⟨before.labels + 1⟩) (fun _ => rfl) fun _ => rfl
  | .breakLoop =>
      obtain ⟨behind, -, rfl, rfl⟩ := lower_breakLoop_gives.mp given
      exact .nothing rfl rfl
  | .block inner declarations body =>
      exact lowerAll_takes body resolved (lower_block_gives.mp given)

theorem lowerAll_takes (body : List Stmt) {inLoop : Bool} {scope : Nat} {exit? : Option Label}
    {code : List Instr} {before after : NameSupply}
    (resolved : AllResolved scopes inLoop scope body)
    (given : (lowerAll scopes scope exit? body).Gives before code after) :
    Takes before code after := by
  match body with
  | [] =>
      obtain ⟨rfl, rfl⟩ := lowerAll_nil_gives.mp given
      exact .nothing rfl rfl
  | first :: rest =>
      obtain ⟨firstCode, middle, restCode, firstGiven, restGiven, rfl⟩ :=
        lowerAll_cons_gives.mp given
      exact (lower_takes first resolved.1 firstGiven).append
        (lowerAll_takes rest resolved.2 restGiven)

end

end Stmt

end ThreeAddress
