import ThreeAddress.Proofs.Counting
import ThreeAddress.Proofs.Lowering.Supply
import ThreeAddress.Proofs.Substatements

namespace ThreeAddress

open Lowering Machine Counter

variable {N : Type} [Counter N]

namespace Machine

/-- Where the jumps of code go, in order. -/
def targets (code : List Instr) : List Label :=
  code.filterMap Instr.jumpTarget?

variable {code rest : List Instr} {label : Label}

@[simp] theorem targets_nil : targets [] = [] := rfl

@[simp] theorem targets_append : targets (code ++ rest) = targets code ++ targets rest :=
  List.filterMap_append

@[simp] theorem targets_assign {target value : Expr} :
    targets (.assign target value :: code) = targets code := rfl

@[simp] theorem targets_label : targets (.label label :: code) = targets code := rfl

@[simp] theorem targets_goto : targets (.goto label :: code) = label :: targets code := rfl

@[simp] theorem targets_ifTrue {condition : Expr} :
    targets (.ifTrue condition label :: code) = label :: targets code := rfl

@[simp] theorem targets_ifFalse {condition : Expr} :
    targets (.ifFalse condition label :: code) = label :: targets code := rfl

/-- This many labels, numbered on from a counter. -/
def labelsAfter (low : N) (count : Nat) : List Label :=
  (numbers low count).map Label.mk

variable {low : N} {count front back : Nat}

@[simp] theorem labelsAfter_zero : labelsAfter low 0 = [] := rfl

theorem labelsAfter_succ :
    labelsAfter low (count + 1) = ⟨number (next low)⟩ :: labelsAfter (next low) count := rfl

theorem labelsAfter_append :
    labelsAfter low front ++ labelsAfter (after low front) back =
      labelsAfter low (front + back) := by
  rw [labelsAfter, labelsAfter, labelsAfter, ← List.map_append, numbers_add]

theorem labelsAfter_nodup (distinct : (numbers low count).Nodup) :
    (labelsAfter low count).Nodup := by
  have injective : Function.Injective Label.mk := by
    intro first second same
    exact Label.mk.inj same
  exact distinct.map injective

end Machine

/-- Code without labels and jumps, for which no label has been taken. -/
structure Straight (before : Names N) (code : List Instr) (after : Names N) : Prop where
  taken : after.labels = before.labels
  labels : Machine.labels code = []
  targets : Machine.targets code = []

theorem Straight.emission : Emission (N := N) Straight where
  nothing := fun _ => ⟨rfl, rfl, rfl⟩
  temp := fun _ _ _ => ⟨rfl, rfl, rfl⟩
  append := fun front back => {
    taken := back.taken.trans front.taken
    labels := by rw [labels_append, front.labels, back.labels, List.append_nil]
    targets := by rw [targets_append, front.targets, back.targets, List.append_nil] }

namespace Stmt

/-- The labels that a statement needs. -/
def labelCount (stmt : Stmt) : Nat :=
  stmt.parts.countP isIf + stmt.parts.countP hasElse + 2 * stmt.parts.countP isLoop

def allLabelCount (body : List Stmt) : Nat :=
  (allParts body).countP isIf + (allParts body).countP hasElse + 2 * (allParts body).countP isLoop

section

variable {condition : Expr} {stmt otherwise : Stmt} {rest : List Stmt}

theorem labelCount_ifThen : (Stmt.ifThen condition stmt).labelCount = stmt.labelCount + 1 := by
  simp only [labelCount, parts, List.countP_cons, isIf, hasElse, isLoop, if_true,
    Bool.false_eq_true, if_false]
  omega

theorem labelCount_ifThenElse : (Stmt.ifThenElse condition stmt otherwise).labelCount =
    stmt.labelCount + otherwise.labelCount + 2 := by
  simp only [labelCount, parts, List.countP_cons, List.countP_append, isIf, hasElse, isLoop,
    if_true, Bool.false_eq_true, if_false]
  omega

theorem labelCount_whileDo : (Stmt.whileDo condition stmt).labelCount = stmt.labelCount + 2 := by
  simp only [labelCount, parts, List.countP_cons, isIf, hasElse, isLoop, if_true,
    Bool.false_eq_true, if_false]
  omega

theorem labelCount_doWhile : (Stmt.doWhile stmt condition).labelCount = stmt.labelCount + 2 := by
  simp only [labelCount, parts, List.countP_cons, isIf, hasElse, isLoop, if_true,
    Bool.false_eq_true, if_false]
  omega

theorem labelCount_block {scope : Nat} {declarations : List Declaration} :
    (Stmt.block scope declarations rest).labelCount = allLabelCount rest := by
  simp [labelCount, allLabelCount, parts, isIf, hasElse, isLoop]

theorem allLabelCount_cons :
    allLabelCount (stmt :: rest) = stmt.labelCount + allLabelCount rest := by
  simp only [labelCount, allLabelCount, allParts, List.countP_append]
  omega

end

/-- Code with this many labels, numbered on from those taken before, whose jumps go to these
labels or out of the loop around it. -/
structure Labelled (exit? : Option Label) (low : N) (count : Nat) (code : List Instr) : Prop where
  labels : (Machine.labels code).Perm (labelsAfter low count)
  targets : ∀ target ∈ Machine.targets code, target ∈ Machine.labels code ∨ exit? = some target

namespace Labelled

variable {exit? : Option Label} {low : N} {count front back : Nat} {test body rest : List Instr}
  {condition : Expr}

theorem straight (noLabels : Machine.labels body = []) (noTargets : Machine.targets body = []) :
    Labelled exit? low 0 body where
  labels := by rw [noLabels, labelsAfter_zero]
  targets := by simp [noTargets]

theorem append (first : Labelled exit? low front body)
    (second : Labelled exit? (after low front) back rest) :
    Labelled exit? low (front + back) (body ++ rest) where
  labels := by
    rw [labels_append, ← labelsAfter_append]
    exact first.labels.append second.labels
  targets := by
    intro target member
    rw [targets_append, List.mem_append] at member
    rw [labels_append, List.mem_append]
    rcases member with front | back
    · exact (first.targets target front).imp_left .inl
    · exact (second.targets target back).imp_left .inr

theorem branch (noLabels : Machine.labels test = []) (noTargets : Machine.targets test = [])
    (inside : Labelled exit? (next low) count body) :
    Labelled exit? low (count + 1) (test ++ [.ifFalse condition ⟨number (next low)⟩] ++ body ++
      [.label ⟨number (next low)⟩]) where
  labels := by
    rw [labelsAfter_succ]
    simp only [labels_append, labels_ifFalse, labels_label, labels_nil, noLabels, List.nil_append]
    exact (List.perm_append_singleton _ _).trans (inside.labels.cons _)
  targets := by
    intro target member
    simp only [targets_append, targets_ifFalse, targets_label, targets_nil, noTargets,
      List.nil_append, List.append_nil, List.cons_append, List.mem_cons] at member
    simp only [labels_append, labels_label, labels_nil, List.mem_append, List.mem_singleton]
    rcases member with rfl | member
    · exact .inl (.inr rfl)
    · exact (inside.targets target member).imp_left fun own => .inl (.inr own)

theorem branches (noLabels : Machine.labels test = []) (noTargets : Machine.targets test = [])
    (first : Labelled exit? (next low) front body)
    (second : Labelled exit? (next (after (next low) front)) back rest) :
    Labelled exit? low (front + back + 2)
      (test ++ [.ifFalse condition ⟨number (next low)⟩] ++ body ++
        [.goto ⟨number (next (after (next low) front))⟩, .label ⟨number (next low)⟩] ++ rest ++
        [.label ⟨number (next (after (next low) front))⟩]) where
  labels := by
    have split : labelsAfter low (front + back + 2) = [⟨number (next low)⟩] ++
        labelsAfter (next low) front ++ [⟨number (next (after (next low) front))⟩] ++
        labelsAfter (next (after (next low) front)) back := by
      have count : front + back + 2 = front + (back + 1) + 1 := by omega
      rw [count, labelsAfter_succ, ← labelsAfter_append, labelsAfter_succ]
      simp only [List.append_assoc, List.nil_append, List.cons_append]
    rw [split]
    simp only [labels_append, labels_ifFalse, labels_goto, labels_label, labels_nil, noLabels,
      List.nil_append, List.append_nil]
    refine (branch_labels [] _ _ _ _).trans ?_
    exact (((first.labels.append_left _).append_right _).append second.labels)
  targets := by
    intro target member
    simp only [targets_append, targets_ifFalse, targets_goto, targets_label, targets_nil,
      noTargets, List.nil_append, List.append_nil, List.cons_append, List.mem_cons,
      List.mem_append] at member
    simp only [labels_append, labels_ifFalse, labels_label, labels_goto, labels_nil, noLabels,
      List.nil_append, List.mem_append, List.mem_singleton]
    rcases member with rfl | (member | rfl | none) | member
    · exact .inl (.inl (.inl (.inr rfl)))
    · exact (first.targets target member).imp_left fun own => .inl (.inl (.inl own))
    · exact .inl (.inr rfl)
    · contradiction
    · exact (second.targets target member).imp_left fun own => .inl (.inr own)

theorem loopTest_labelled {typeOf? : String → Option DeclaredType} {behind : Label}
    {before after : Names N} (tested : LoopTest typeOf? condition behind before test after) :
    after.labels = before.labels ∧ Labelled (some behind) low 0 test := by
  unfold LoopTest at tested
  split at tested
  · obtain ⟨rfl, rfl⟩ := tested
    exact ⟨rfl, .straight rfl rfl⟩
  · obtain ⟨testCode, value, given, rfl⟩ := tested
    obtain ⟨sameLabels, noLabels, noTargets⟩ := Straight.emission.reduce condition given
    refine ⟨sameLabels, ?_, ?_⟩
    · rw [labels_append, noLabels]
      exact .nil
    · intro target member
      rw [targets_append, noTargets] at member
      rw [List.mem_singleton.mp member]
      exact .inr rfl

/-- A loop jumps back to its first label, and out of itself to its second. -/
theorem loop (last : Instr)
    (inside : Labelled (some ⟨number (next (next low))⟩) (next (next low)) count body)
    (noLabel : Machine.labels [last] = [])
    (back : Machine.targets [last] = [⟨number (next low)⟩]) :
    Labelled exit? low (count + 2) ([.label ⟨number (next low)⟩] ++ body ++ [last] ++
      [.label ⟨number (next (next low))⟩]) where
  labels := by
    rw [labelsAfter_succ, labelsAfter_succ]
    simp only [labels_append, labels_label, labels_nil, noLabel, List.append_nil,
      List.cons_append, List.nil_append]
    exact ((List.perm_append_singleton _ _).trans (inside.labels.cons _)).cons _
  targets := by
    intro target member
    simp only [targets_append, targets_label, targets_nil, back, List.nil_append, List.append_nil,
      List.mem_append, List.mem_singleton] at member
    simp only [labels_append, labels_label, labels_nil, noLabel, List.append_nil,
      List.cons_append, List.nil_append, List.mem_append, List.mem_cons]
    rcases member with member | rfl
    · rcases inside.targets target member with own | out
      · exact .inl (.inr (.inl own))
      · exact .inl (.inr (.inr (.inl (Option.some.inj out).symm)))
    · exact .inl (.inl rfl)

end Labelled

mutual

theorem lower_labelled (stmt : Stmt) {scopes : Scopes} {scope : Nat} {exit? : Option Label}
    {code : List Instr} {before after : Names N}
    (given : (stmt.lower scopes scope exit?).Gives before code after) :
    after.labels = Counter.after before.labels stmt.labelCount ∧
      Labelled exit? before.labels stmt.labelCount code := by
  match stmt with
  | .assign target value line =>
      obtain ⟨targetCode, targetResult, afterTarget, valueCode, valueResult, targetGiven,
        valueGiven, rfl⟩ := lower_assign_gives.mp given
      have straight := Straight.emission.append (Straight.emission.reduce target targetGiven)
        (Straight.emission.reduce value valueGiven)
      refine ⟨straight.taken, ?_, ?_⟩
      · rw [labels_append, straight.labels]
        exact .nil
      · rw [targets_append, straight.targets]
        exact fun target member => (List.not_mem_nil member).elim
  | .ifThen condition body =>
      obtain ⟨testCode, test, afterTest, bodyCode, tested, bodyGiven, rfl⟩ :=
        lower_ifThen_gives.mp given
      obtain ⟨sameLabels, noLabels, noTargets⟩ := Straight.emission.reduce condition tested
      obtain ⟨counted, inside⟩ := lower_labelled body bodyGiven
      rw [Names.afterLabel_labels, sameLabels] at counted inside
      rw [labelCount_ifThen, Names.nextLabel, sameLabels]
      exact ⟨counted, .branch noLabels noTargets inside⟩
  | .ifThenElse condition body otherwise =>
      obtain ⟨testCode, test, afterTest, bodyCode, afterBody, elseCode, tested, bodyGiven,
        elseGiven, rfl⟩ := lower_ifThenElse_gives.mp given
      obtain ⟨sameLabels, noLabels, noTargets⟩ := Straight.emission.reduce condition tested
      obtain ⟨counted, first⟩ := lower_labelled body bodyGiven
      obtain ⟨elseCounted, second⟩ := lower_labelled otherwise elseGiven
      rw [Names.afterLabel_labels, sameLabels] at counted first
      rw [Names.afterLabel_labels, counted] at elseCounted second
      rw [labelCount_ifThenElse, Names.nextLabel, Names.nextLabel, sameLabels, counted]
      refine ⟨?_, .branches noLabels noTargets first second⟩
      have count : body.labelCount + otherwise.labelCount + 2 =
          body.labelCount + (otherwise.labelCount + 1) + 1 := by omega
      rw [elseCounted, count, after_succ, after_add, after_succ]
  | .whileDo condition body =>
      obtain ⟨testCode, afterTest, bodyCode, tested, bodyGiven, rfl⟩ :=
        lower_whileDo_gives.mp given
      obtain ⟨sameLabels, testLabelled⟩ := Labelled.loopTest_labelled tested
      obtain ⟨counted, bodyLabelled⟩ := lower_labelled body bodyGiven
      rw [sameLabels] at counted bodyLabelled
      have inside := testLabelled.append bodyLabelled
      rw [Nat.zero_add] at inside
      rw [labelCount_whileDo]
      refine ⟨counted, ?_⟩
      simpa [Names.nextLabel] using Labelled.loop (.goto before.nextLabel) inside rfl rfl
  | .doWhile body condition =>
      obtain ⟨bodyCode, afterBody, testCode, test, bodyGiven, tested, rfl⟩ :=
        lower_doWhile_gives.mp given
      obtain ⟨sameLabels, noLabels, noTargets⟩ := Straight.emission.reduce condition tested
      obtain ⟨counted, bodyLabelled⟩ := lower_labelled body bodyGiven
      have inside := bodyLabelled.append (.straight noLabels noTargets)
      rw [labelCount_doWhile, sameLabels]
      refine ⟨counted, ?_⟩
      simpa [Names.nextLabel] using Labelled.loop (.ifTrue test before.nextLabel) inside rfl rfl
  | .breakLoop =>
      obtain ⟨behind, leaves, rfl, rfl⟩ := lower_breakLoop_gives.mp given
      refine ⟨rfl, .nil, ?_⟩
      intro target member
      rw [List.mem_singleton.mp member]
      exact .inr leaves
  | .block inner declarations body =>
      rw [labelCount_block]
      exact lowerAll_labelled body (lower_block_gives.mp given)

theorem lowerAll_labelled (body : List Stmt) {scopes : Scopes} {scope : Nat}
    {exit? : Option Label} {code : List Instr} {before after : Names N}
    (given : (lowerAll scopes scope exit? body).Gives before code after) :
    after.labels = Counter.after before.labels (allLabelCount body) ∧
      Labelled exit? before.labels (allLabelCount body) code := by
  match body with
  | [] =>
      obtain ⟨rfl, rfl⟩ := lowerAll_nil_gives.mp given
      exact ⟨rfl, .nil, fun target member => (List.not_mem_nil member).elim⟩
  | first :: rest =>
      obtain ⟨firstCode, middle, restCode, firstGiven, restGiven, rfl⟩ :=
        lowerAll_cons_gives.mp given
      obtain ⟨counted, labelled⟩ := lower_labelled first firstGiven
      obtain ⟨restCounted, restLabelled⟩ := lowerAll_labelled rest restGiven
      rw [counted] at restCounted restLabelled
      rw [allLabelCount_cons, after_add]
      exact ⟨restCounted, labelled.append restLabelled⟩

end

end Stmt

end ThreeAddress
