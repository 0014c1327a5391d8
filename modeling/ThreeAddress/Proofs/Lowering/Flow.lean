import ThreeAddress.Proofs.Counting
import ThreeAddress.Proofs.Lowering.Uses

namespace ThreeAddress

/-!
# From filling a temporary to reading it

A pool holds the temporaries that are still to be read. Only instructions that fill
another temporary may leave some of them waiting, and all others read the whole
pool. So nothing can jump between the instruction that fills a temporary and the one
that reads it, and control that gets to the second has passed the first.
-/

open Lowering Machine Counter

variable {N : Type} [Counter N]

namespace Expr

def number? : Expr → Option Nat
  | .temp _ number => some number
  | _ => none

/-- The temporaries in an expression, from left to right. -/
def temps (expr : Expr) : List Nat :=
  expr.nodes.filterMap number?

variable {note : Note} {left right operand inner offset : Expr}

@[simp] theorem temps_binary {op : BinaryOp} :
    (Expr.binary note op left right).temps = left.temps ++ right.temps := by
  simp [temps, nodes, List.filterMap_cons, number?]

@[simp] theorem temps_unary {op : UnaryOp} :
    (Expr.unary note op operand).temps = operand.temps := by
  simp [temps, nodes, List.filterMap_cons, number?]

@[simp] theorem temps_paren : (Expr.paren note inner).temps = inner.temps := by
  simp [temps, nodes, List.filterMap_cons, number?]

@[simp] theorem temps_variable {id : Ident} : (Expr.loc note id []).temps = [] := rfl

@[simp] theorem temps_element {id : Ident} :
    (Expr.loc note id [offset]).temps = offset.temps := by
  simp [temps, nodes, indicesNodes, List.filterMap_cons, number?]

@[simp] theorem temps_int {value : Int} : (Expr.int note value).temps = [] := rfl

@[simp] theorem temps_real {value : Decimal.Binary64} : (Expr.real note value).temps = [] := rfl

@[simp] theorem temps_bool {value : Bool} : (Expr.bool note value).temps = [] := rfl

@[simp] theorem temps_temp {number : Nat} : (Expr.temp note number).temps = [number] := rfl

end Expr

namespace Instr

/-- The temporaries that an instruction reads. One that it fills is not among them. -/
def reads : Instr → List Nat
  | .assign (.temp _ _) value => value.temps
  | .assign target value => target.temps ++ value.temps
  | .label _ | .goto _ => []
  | .ifTrue condition _ | .ifFalse condition _ => condition.temps

/-- Whether control may go on to the next instruction. -/
def fallsThrough : Instr → Bool
  | .goto _ => false
  | _ => true

theorem reads_store {target value : Expr} (store : target.number? = none) :
    (Instr.assign target value).reads = target.temps ++ value.temps := by
  cases target with
  | temp note number => simp [Expr.number?] at store
  | _ => rfl

end Instr

namespace Machine

/-- The temporaries in code, each as often as it occurs. -/
def temps (code : List Instr) : List Nat :=
  code.flatMap fun instr => instr.exprs.flatMap Expr.temps

variable {code : List Instr} {number : Nat}

theorem fills?_store {target value : Expr} (store : target.number? = none) :
    fills? (.assign target value) = none := by
  cases target with
  | temp note number => simp [Expr.number?] at store
  | _ => rfl

theorem fills?_eq_some {instr : Instr} (fills : fills? instr = some number) :
    ∃ note value, instr = .assign (.temp note number) value := by
  match instr, fills with
  | .assign (.temp note _) value, rfl => exact ⟨note, value, rfl⟩

/-- An instruction has the temporary that it fills and those that it reads. -/
theorem temps_perm : (temps code).Perm (filled code ++ code.flatMap Instr.reads) := by
  induction code with
  | nil => exact .nil
  | cons instr rest ih =>
      have here : (instr.exprs.flatMap Expr.temps).Perm
          ((fills? instr).toList ++ instr.reads) := by
        match instr with
        | .assign (.temp _ _) _ => simp [Instr.exprs, fills?, Instr.reads]
        | .assign (.binary _ _ _ _) _ | .assign (.unary _ _ _) _ | .assign (.paren _ _) _
        | .assign (.loc _ _ _) _ | .assign (.int _ _) _ | .assign (.real _ _) _
        | .assign (.bool _ _) _ | .label _ | .goto _ | .ifTrue _ _ | .ifFalse _ _ =>
            simp [Instr.exprs, fills?, Instr.reads]
      have split : filled (instr :: rest) = (fills? instr).toList ++ filled rest := by
        cases fills : fills? instr <;> simp [filled, fills]
      simp only [temps, List.flatMap_cons, split] at ih ⊢
      refine (here.append ih).trans ?_
      simp only [List.append_assoc]
      refine List.Perm.append_left _ ?_
      rw [← List.append_assoc, ← List.append_assoc]
      exact List.perm_append_comm.append_right _

theorem occursIn_iff_mem_temps : (∃ note, OccursIn (.temp note number) code) ↔
    number ∈ temps code := by
  simp only [OccursIn, temps, List.mem_flatMap, Expr.temps, List.mem_filterMap]
  refine ⟨fun occurs => ?_, fun occurs => ?_⟩
  · obtain ⟨note, instr, member, expr, inside, below⟩ := occurs
    exact ⟨instr, member, expr, inside, _, below, rfl⟩
  · obtain ⟨instr, member, expr, inside, node, below, named⟩ := occurs
    match node, named with
    | .temp note _, rfl => exact ⟨note, instr, member, expr, inside, below⟩

/-- How many temporaries have been taken, and those of them that still have to be read. -/
structure Pool (N : Type) where
  taken : N
  waiting : List Nat

/-- How code changes the pool. An instruction that fills the next temporary reads some of the
waiting ones and leaves the others waiting. Any other instruction reads all that wait, each
once. -/
inductive Flows : Pool N → List Instr → Pool N → Prop
  | done {taken first last} : first.Perm last → Flows ⟨taken, first⟩ [] ⟨taken, last⟩
  | fill {taken waiting kept note value rest final} : waiting.Perm (value.temps ++ kept) →
      Flows ⟨next taken, Counter.number (next taken) :: kept⟩ rest final →
      Flows ⟨taken, waiting⟩ (.assign (.temp note (Counter.number (next taken))) value :: rest)
        final
  | use {taken waiting instr rest final} : fills? instr = none → waiting.Perm instr.reads →
      Flows ⟨taken, []⟩ rest final → Flows ⟨taken, waiting⟩ (instr :: rest) final

namespace Flows

variable {first middle last : Pool N} {rest : List Instr} {taken : N} {waiting other : List Nat}

theorem reorder (flows : Flows ⟨taken, waiting⟩ code last) (perm : other.Perm waiting) :
    Flows ⟨taken, other⟩ code last := by
  cases flows with
  | done same => exact .done (perm.trans same)
  | fill same next => exact .fill (perm.trans same) next
  | use none same next => exact .use none (perm.trans same) next

theorem append (front : Flows first code middle) (back : Flows middle rest last) :
    Flows first (code ++ rest) last := by
  induction front with
  | done same => exact back.reorder same
  | fill same _ ih => exact .fill same (ih back)
  | use none same _ ih => exact .use none same (ih back)

theorem single {instr : Instr} (none : fills? instr = none) (same : waiting.Perm instr.reads) :
    Flows ⟨taken, waiting⟩ [instr] ⟨taken, []⟩ :=
  .use none same (.done .nil)

theorem filled (flows : Flows first code last) :
    ∃ count, last.taken = after first.taken count ∧
      Machine.filled code = numbers first.taken count := by
  induction flows with
  | done => exact ⟨0, rfl, rfl⟩
  | fill same _ ih =>
      obtain ⟨count, counted, fills⟩ := ih
      exact ⟨count + 1, counted, by rw [filled_temp, fills, numbers]⟩
  | use none same _ ih =>
      obtain ⟨count, counted, fills⟩ := ih
      exact ⟨count, counted, by rw [Machine.filled, List.filterMap_cons_none none]; exact fills⟩

/-- Everything that waits or is filled is read, or waits in the end. -/
theorem balance (flows : Flows first code last) :
    (first.waiting ++ Machine.filled code).Perm (code.flatMap Instr.reads ++ last.waiting) := by
  induction flows with
  | done same => simpa using same
  | @fill taken waiting kept note value rest final same _ ih =>
      rw [filled_temp, List.flatMap_cons, List.append_assoc]
      refine (same.append_right _).trans ?_
      rw [List.append_assoc]
      refine List.Perm.append_left _ (List.Perm.trans ?_ ih)
      exact List.perm_middle
  | use none same _ ih =>
      rw [Machine.filled, List.filterMap_cons_none none, List.flatMap_cons, List.append_assoc]
      exact same.append ih

/-- What waits is read later, and only other temporaries are filled until then. -/
theorem read_later (flows : Flows first code last) (waits : number ∈ first.waiting)
    (gone : number ∉ last.waiting) : ∃ before reader after, code = before ++ reader :: after ∧
      (∀ instr ∈ before, (fills? instr).isSome = true) ∧ number ∈ reader.reads := by
  induction flows with
  | done same => exact (gone (same.mem_iff.mp waits)).elim
  | @fill taken waiting kept note value rest final same _ ih =>
      rcases List.mem_append.mp (same.mem_iff.mp waits) with here | kept
      · exact ⟨[], _, rest, rfl, nofun, here⟩
      · obtain ⟨before, reader, after, rfl, fills, reads⟩ := ih (List.mem_cons_of_mem _ kept) gone
        exact ⟨_ :: before, reader, after, rfl, List.forall_mem_cons.mpr ⟨rfl, fills⟩, reads⟩
  | @use taken waiting instr rest final none same _ _ =>
      exact ⟨[], instr, rest, rfl, nofun, same.mem_iff.mp waits⟩

/-- What is filled on the way is read later in the same way. -/
theorem filled_then_read (flows : Flows first code last) (fills : number ∈ Machine.filled code)
    (gone : number ∉ last.waiting) :
    ∃ front note value before reader after,
      code = front ++ .assign (.temp note number) value :: (before ++ reader :: after) ∧
      (∀ instr ∈ before, (fills? instr).isSome = true) ∧ number ∈ reader.reads := by
  induction flows with
  | done => simp at fills
  | @fill taken waiting kept note value rest final same next ih =>
      rw [filled_temp] at fills
      rcases List.mem_cons.mp fills with rfl | later
      · obtain ⟨before, reader, after, rfl, fills, reads⟩ :=
          next.read_later List.mem_cons_self gone
        exact ⟨[], note, value, before, reader, after, rfl, fills, reads⟩
      · obtain ⟨front, laterNote, laterValue, before, reader, after, rfl, fills, reads⟩ :=
          ih later gone
        exact ⟨_ :: front, laterNote, laterValue, before, reader, after, rfl, fills, reads⟩
  | @use taken waiting instr rest final none same _ ih =>
      rw [Machine.filled, List.filterMap_cons_none none] at fills
      obtain ⟨front, note, value, before, reader, after, rfl, fills, reads⟩ := ih fills gone
      exact ⟨instr :: front, note, value, before, reader, after, rfl, fills, reads⟩

/-- What is read has waited since the start, or has been filled on the way. -/
theorem filled_before (flows : Flows first code last) {front back : List Instr} {reader : Instr}
    (split : code = front ++ reader :: back) (reads : number ∈ reader.reads) :
    (number ∈ first.waiting ∧ ∀ instr ∈ front, (fills? instr).isSome = true) ∨
    ∃ before note value after, front = before ++ .assign (.temp note number) value :: after ∧
      ∀ instr ∈ after, (fills? instr).isSome = true := by
  induction flows generalizing front with
  | done => simp at split
  | @fill taken waiting kept note value rest final same _ ih =>
      cases front with
      | nil =>
          cases split
          exact .inl ⟨same.mem_iff.mpr (List.mem_append_left _ reads), nofun⟩
      | cons instr front =>
          cases split
          rcases ih rfl with ⟨waits, fills⟩ | ⟨before, atNote, atValue, after, rfl, fills⟩
          · rcases List.mem_cons.mp waits with rfl | kept
            · exact .inr ⟨[], note, value, front, rfl, fills⟩
            · exact .inl ⟨same.mem_iff.mpr (List.mem_append_right _ kept),
                List.forall_mem_cons.mpr ⟨rfl, fills⟩⟩
          · exact .inr ⟨_ :: before, atNote, atValue, after, rfl, fills⟩
  | @use taken waiting instr rest final none same _ ih =>
      cases front with
      | nil =>
          cases split
          exact .inl ⟨same.mem_iff.mpr reads, nofun⟩
      | cons instr front =>
          cases split
          rcases ih rfl with ⟨waits, -⟩ | ⟨before, note, value, after, rfl, fills⟩
          · contradiction
          · exact .inr ⟨_ :: before, note, value, after, rfl, fills⟩

end Flows

/-- Control may go from one position to another. -/
def Next (code : List Instr) (here there : Nat) : Prop :=
  ∃ instr, code[here]? = some instr ∧
    (instr.fallsThrough = true ∧ there = here + 1 ∨
      ∃ target ∈ instr.jumpTarget?, position? code target = some there)

/-- A way for control from the first instruction to a position, with the positions before it, the
latest first. -/
inductive Path (code : List Instr) : List Nat → Nat → Prop
  | start : Path code [] 0
  | onward {visited here there} : Path code visited here → Next code here there →
      Path code (here :: visited) there

theorem label_of_position {label : Label} {there : Nat}
    (found : position? code label = some there) : code[there]? = some (.label label) := by
  obtain ⟨inside, marked, -⟩ := List.findIdx?_eq_some_iff_getElem.mp found
  rw [List.getElem?_eq_getElem inside]
  cases instr : code[there] with
  | label here =>
      rw [instr] at marked
      rw [eq_of_beq marked]
  | _ =>
      rw [instr] at marked
      contradiction

section

variable {Address Value : Type} {config onward : Config Address Value} {target : Label}
  {taken : Bool}

theorem jump_next {instr : Instr} (present : code[config.counter]? = some instr)
    (jumps : instr.jumpTarget? = some target)
    (jumped : config.jump code target = some onward) :
    Next code config.counter onward.counter := by
  obtain ⟨there, found, rfl⟩ := Option.map_eq_some_iff.mp jumped
  exact ⟨instr, present, .inr ⟨target, jumps, found⟩⟩

theorem jumpIf_next {instr : Instr} (present : code[config.counter]? = some instr)
    (jumps : instr.jumpTarget? = some target) (falls : instr.fallsThrough = true)
    (jumped : config.jumpIf code taken target = some onward) :
    Next code config.counter onward.counter := by
  cases taken with
  | true => exact jump_next present jumps jumped
  | false =>
      cases jumped
      exact ⟨instr, present, .inl ⟨falls, rfl⟩⟩

variable [DecidableEq Address] {meaning : Interpretation Value} {addressOf : Place → Address}

theorem step_next (stepped : step meaning addressOf code config = some onward) :
    Next code config.counter onward.counter := by
  unfold step at stepped
  split at stepped
  · contradiction
  · next present =>
      obtain ⟨memory, -, rfl⟩ := Option.map_eq_some_iff.mp stepped
      exact ⟨_, present, .inl ⟨rfl, rfl⟩⟩
  · next present =>
      cases stepped
      exact ⟨_, present, .inl ⟨rfl, rfl⟩⟩
  · next present => exact jump_next present rfl stepped
  · next present =>
      obtain ⟨value, -, jumped⟩ := Option.bind_eq_some_iff.mp stepped
      exact jumpIf_next present rfl rfl jumped
  · next present =>
      obtain ⟨value, -, jumped⟩ := Option.bind_eq_some_iff.mp stepped
      exact jumpIf_next present rfl rfl jumped

/-- Every run follows a path. -/
theorem run_path {steps : Nat} {memory : Address → Value}
    (ran : run meaning addressOf code steps ⟨0, memory⟩ = some config) :
    ∃ visited, visited.length = steps ∧ Path code visited config.counter := by
  induction steps generalizing config with
  | zero =>
      cases ran
      exact ⟨[], rfl, .start⟩
  | succ steps ih =>
      rw [run_add] at ran
      obtain ⟨middle, before, last⟩ := Option.bind_eq_some_iff.mp ran
      obtain ⟨visited, length, path⟩ := ih before
      simp only [run, Option.bind_fun_some] at last
      exact ⟨middle.counter :: visited, by simp [length], path.onward (step_next last)⟩

end

/-- Only from the position before it does control get to an instruction that is no label. -/
theorem Next.eq_succ {here there : Nat} (next : Next code here there)
    (noLabel : ∀ label, code[there]? ≠ some (.label label)) : there = here + 1 := by
  obtain ⟨instr, -, ⟨-, following⟩ | ⟨target, -, found⟩⟩ := next
  · exact following
  · exact (noLabel target (label_of_position found)).elim

/-- Control that gets into a stretch without labels has passed the instruction before it. -/
theorem Path.passes {visited : List Nat} {here : Nat} {front stretch back : List Instr}
    {instr : Instr} (path : Path code visited here)
    (split : code = front ++ instr :: (stretch ++ back))
    (noLabel : ∀ label, Instr.label label ∉ stretch)
    (behind : front.length < here) (inside : here ≤ front.length + stretch.length) :
    front.length ∈ visited := by
  induction path with
  | start => omega
  | @onward visited before there path next ih =>
      have inStretch : code[there]? = stretch[there - (front.length + 1)]? := by
        obtain ⟨offset, rfl⟩ := Nat.exists_eq_add_of_le (Nat.succ_le_of_lt behind)
        rw [split, List.getElem?_append_right (by omega)]
        have past : front.length.succ + offset - front.length = offset + 1 := by omega
        rw [past, List.getElem?_cons_succ, List.getElem?_append_left (by omega)]
        congr 1
        omega
      have step := next.eq_succ fun label same =>
        noLabel label (List.mem_of_getElem? (inStretch.symm.trans same))
      rcases Nat.lt_or_eq_of_le (Nat.le_of_lt_succ (step ▸ behind)) with further | rfl
      · exact List.mem_cons_of_mem _ (ih further (by omega))
      · exact List.mem_cons_self

/-- Control that gets to a read, in code that leaves nothing waiting, has filled the temporary. -/
theorem Path.fills_before {visited : List Nat} {here : Nat} {first : N} {last : Pool N} {reader : Instr}
    (path : Path code visited here) (flows : Flows ⟨first, []⟩ code last)
    (present : code[here]? = some reader) (reads : number ∈ reader.reads) :
    ∃ there ∈ visited, ∃ note value, code[there]? = some (.assign (.temp note number) value) := by
  obtain ⟨inside, rfl⟩ := List.getElem?_eq_some_iff.mp present
  have split : code = code.take here ++ code[here] :: code.drop (here + 1) := by
    rw [List.getElem_cons_drop, List.take_append_drop]
  rcases flows.filled_before split reads with ⟨waits, -⟩ | ⟨front, note, value, between, same, fills⟩
  · contradiction
  · have length := congrArg List.length same
    rw [List.length_take_of_le (Nat.le_of_lt inside), List.length_append, List.length_cons] at length
    have whole : code = front ++ .assign (.temp note number) value ::
        (between ++ [code[here]] ++ code.drop (here + 1)) := by
      rw [List.append_assoc, List.singleton_append, ← List.cons_append, ← List.append_assoc, ← same]
      exact split
    have noLabel : ∀ label, Instr.label label ∉ between ++ [code[here]] := by
      intro label member
      rcases List.mem_append.mp member with among | last
      · have filled := fills _ among
        contradiction
      · rw [← List.mem_singleton.mp last] at reads
        contradiction
    refine ⟨front.length, path.passes whole noLabel (by omega) ?_, note, value, ?_⟩
    · rw [List.length_append, List.length_singleton]
      omega
    · rw [whole, List.getElem?_append_right (Nat.le_refl _), Nat.sub_self, List.getElem?_cons_zero]

end Machine

end ThreeAddress
