import ThreeAddress.Proofs.Grammar.Visible
import ThreeAddress.Proofs.Variables

namespace ThreeAddress.Scopes

/-!
# Scopes as nested environments

A table of scopes is built by calls that open a scope or declare a name in one. Each scope
stands in an earlier one, so the way outward from a scope is a finite chain of numbers.
A lookup finds the first scope of this chain that declares the name. What a call changes
is said by the chain as well: a declaration is seen from where its scope comes first among
those that declare the name, and a new scope is on no chain that was there before.
-/

/-- A table that calls have built, with the numbers that they have given out. A scope is opened
in one of these, if in any, while a declaration may be tried with any number. -/
inductive Built : List Nat → Scopes → Prop
  | empty : Built [] {}
  | push {given scopes parent} : Built given scopes → (∀ outer ∈ parent, outer ∈ given) →
      Built (given ++ [scopes.count]) (scopes.push parent)
  | declare {given scopes scope declaration} : Built given scopes →
      Built given (scopes.declare scope declaration)

def Holds (scopes : Scopes) (scope : Nat) (declaration : Declaration) : Prop :=
  ∃ entry, scopes.all[scope]? = some entry ∧ declaration ∈ entry.declarations

def DeclaresIn (scopes : Scopes) (scope : Nat) (name : String) : Prop :=
  ∃ declaration, scopes.Holds scope declaration ∧ declaration.name = name

/-- The scopes on the way outward from a number. There are none where the number is no scope's. -/
inductive Chain (scopes : Scopes) : Nat → List Nat → Prop
  | outside {scope} : scopes.count ≤ scope → Chain scopes scope []
  | last {scope} : scope < scopes.count → scopes.parent? scope = none → Chain scopes scope [scope]
  | outward {scope parent rest} : scopes.parent? scope = some parent → Chain scopes parent rest →
      Chain scopes scope (scope :: rest)

/-- A scope is on the way outward from another one, with no declaration of the name before it. -/
def Reaches (scopes : Scopes) (name : String) (start scope : Nat) : Prop :=
  ∃ nearer further, scopes.Chain start (nearer ++ scope :: further) ∧
    ∀ between ∈ nearer, ¬ scopes.DeclaresIn between name

/-- No scope declares a name twice. -/
def Distinct (scopes : Scopes) : Prop :=
  ∀ (scope : Nat) (entry : Scope), scopes.all[scope]? = some entry →
    (entry.declarations.map Declaration.name).Nodup

variable {scopes : Scopes} {given chain other : List Nat} {scope start number steps : Nat}
  {name : String} {declaration : Declaration} {parent : Option Nat}

theorem entry_push (scopes : Scopes) (parent : Option Nat) (number : Nat) :
    (scopes.push parent).all[number]? =
      if number = scopes.count then some { parent } else scopes.all[number]? := by
  rw [push, Array.getElem?_push]
  rfl

theorem entry_declare (able : scopes.canDeclare scope declaration = true) (number : Nat) :
    (scopes.declare scope declaration).all[number]? =
      if scope = number then scopes.all[number]?.map (·.add declaration)
      else scopes.all[number]? := by
  simp [declare, able, Array.getElem?_modify]

theorem declare_of_unable (unable : scopes.canDeclare scope declaration = false) :
    scopes.declare scope declaration = scopes := by
  simp [declare, unable]

@[simp] theorem count_push : (scopes.push parent).count = scopes.count + 1 := by
  simp [push, count]

@[simp] theorem count_declare : (scopes.declare scope declaration).count = scopes.count := by
  unfold declare
  split <;> simp [count]

theorem parent?_push (inside : number < scopes.count) :
    (scopes.push parent).parent? number = scopes.parent? number := by
  simp [parent?, entry_push, Nat.ne_of_lt inside]

@[simp] theorem parent?_declare :
    (scopes.declare scope declaration).parent? number = scopes.parent? number := by
  cases able : scopes.canDeclare scope declaration with
  | false => rw [declare_of_unable able]
  | true =>
      simp only [parent?, entry_declare able]
      split
      · cases scopes.all[number]? <;> simp [Scope.add]
      · rfl

theorem parent?_inside {outer : Nat} (around : scopes.parent? scope = some outer) :
    scope < scopes.count := by
  obtain ⟨entry, found, -⟩ := Option.bind_eq_some_iff.mp around
  exact (Array.getElem?_eq_some_iff.mp found).1

@[simp] theorem declared?_push :
    (scopes.push parent).declared? number name = scopes.declared? number name := by
  simp only [declared?, entry_push]
  split
  · next new => simp [new, count, Scope.find?]
  · rfl

theorem declared?_eq_none_iff :
    scopes.declared? scope name = none ↔ ¬ scopes.DeclaresIn scope name := by
  simp only [declared?, Scope.find?, DeclaresIn, Holds]
  cases scopes.all[scope]? <;> simp

theorem declaredIn_eq_isSome :
    scopes.declaredIn scope name = (scopes.declared? scope name).isSome := by
  simp only [declaredIn, declared?]
  cases scopes.all[scope]? <;> simp

theorem declaredIn_iff : scopes.declaredIn scope name = true ↔ scopes.DeclaresIn scope name := by
  rw [declaredIn_eq_isSome, ← not_iff_not, ← declared?_eq_none_iff]
  simp

/-- A scope has at most one declaration of a name. -/
theorem Distinct.declared?_eq_some_iff (distinct : scopes.Distinct) :
    scopes.declared? scope name = some declaration ↔
      scopes.Holds scope declaration ∧ declaration.name = name := by
  simp only [declared?, Option.bind_eq_some_iff, Holds]
  constructor
  · intro ⟨entry, found, first⟩
    have named := List.find?_some first
    exact ⟨⟨entry, found, List.mem_of_find?_eq_some first⟩, by simpa using named⟩
  · intro ⟨⟨entry, found, member⟩, named⟩
    have once := List.inj_on_of_nodup_map (distinct scope entry found)
    cases first : entry.find? name with
    | none =>
        have absent := List.find?_eq_none.mp first declaration member
        simp [named] at absent
    | some other =>
        have otherNamed : other.name = name := by simpa using List.find?_some first
        have same : other = declaration :=
          once (List.mem_of_find?_eq_some first) member (otherNamed.trans named.symm)
        exact ⟨entry, found, by rw [first, same]⟩

theorem canDeclare_eq_false_iff : scopes.canDeclare scope declaration = false ↔
    scopes.count ≤ scope ∨ scopes.DeclaresIn scope declaration.name := by
  rw [← declaredIn_iff]
  by_cases inside : scope < scopes.count
  · simp [canDeclare, inside]
  · simp [canDeclare, inside, Nat.le_of_not_lt inside]

theorem canDeclare_iff : scopes.canDeclare scope declaration = true ↔
    scope < scopes.count ∧ ¬ scopes.DeclaresIn scope declaration.name := by
  rw [← Bool.not_eq_false, canDeclare_eq_false_iff, not_or, Nat.not_le]

theorem declared?_declare (able : scopes.canDeclare scope declaration = true) :
    (scopes.declare scope declaration).declared? number name =
      if number = scope ∧ name = declaration.name then some declaration
      else scopes.declared? number name := by
  obtain ⟨inside, fresh⟩ := canDeclare_iff.mp able
  by_cases here : scope = number
  · subst here
    have entry : scopes.all[scope]? = some scopes.all[scope] := Array.getElem?_eq_getElem inside
    have before := declared?_eq_none_iff.mpr fresh
    simp only [declared?, entry, Option.bind_some] at before
    simp only [declared?, entry_declare able, entry, if_true, Option.map_some, Option.bind_some,
      Scope.add, Scope.find?, List.find?_append, List.find?_singleton] at before ⊢
    by_cases named : name = declaration.name
    · simp [named, before]
    · simp [named, Ne.symm named]
  · simp [declared?, entry_declare able, here, Ne.symm here]

theorem ordered_iff :
    scopes.Ordered ↔ ∀ scope outer, scopes.parent? scope = some outer → outer < scope := by
  constructor
  · intro ordered scope outer around
    have inside := parent?_inside around
    simp only [parent?, Array.getElem?_eq_getElem inside, Option.bind_some] at around
    exact ordered scope inside outer around
  · intro falls scope inside outer around
    apply falls
    simp only [parent?, Array.getElem?_eq_getElem inside, Option.bind_some]
    exact around

theorem Ordered.declare (ordered : scopes.Ordered) :
    (scopes.declare scope declaration).Ordered := by
  rw [ordered_iff] at ordered ⊢
  simpa using ordered

theorem Distinct.push (distinct : scopes.Distinct) : (scopes.push parent).Distinct := by
  intro scope entry found
  rw [entry_push] at found
  split at found
  · cases found
    simp
  · exact distinct scope entry found

theorem Distinct.declare (distinct : scopes.Distinct) :
    (scopes.declare scope declaration).Distinct := by
  cases able : scopes.canDeclare scope declaration with
  | false => rwa [declare_of_unable able]
  | true =>
      intro number entry found
      rw [entry_declare able] at found
      split at found
      · next here =>
          subst here
          obtain ⟨old, atScope, rfl⟩ := Option.map_eq_some_iff.mp found
          have fresh : declaration.name ∉ old.declarations.map Declaration.name := by
            intro member
            obtain ⟨earlier, holds, named⟩ := List.mem_map.mp member
            exact (canDeclare_iff.mp able).2 ⟨earlier, ⟨old, atScope, holds⟩, named⟩
          rw [Scope.add, List.map_append, List.map_singleton, ← List.concat_eq_append]
          exact (distinct scope old atScope).concat fresh
      · exact distinct number entry found

/-- The numbers given out are those of the scopes. -/
theorem Built.mem_given (built : Built given scopes) : number ∈ given ↔ number < scopes.count := by
  induction built with
  | empty => simp [count]
  | push _ _ ih =>
      rw [List.mem_append, List.mem_singleton, ih, count_push]
      omega
  | declare _ ih => rw [ih, count_declare]

theorem Built.ordered (built : Built given scopes) : scopes.Ordered := by
  induction built with
  | empty => exact Ordered.start
  | push earlier inside ih =>
      rw [push_eq_extend]
      exact ih.extend fun outer member => earlier.mem_given.mp (inside outer member)
  | declare _ ih => exact ih.declare

theorem Built.distinct (built : Built given scopes) : scopes.Distinct := by
  induction built with
  | empty => simp [Distinct]
  | push _ _ ih => exact ih.push
  | declare _ ih => exact ih.declare

theorem Chain.unique (first : scopes.Chain scope chain) (second : scopes.Chain scope other) :
    chain = other := by
  induction first generalizing other with
  | outside beyond =>
      cases second with
      | outside _ => rfl
      | last inside _ => omega
      | outward around _ =>
          have inside := parent?_inside around
          omega
  | last inside top =>
      cases second with
      | outside beyond => omega
      | last _ _ => rfl
      | outward around _ => simp [top] at around
  | outward around _ ih =>
      cases second with
      | outside beyond =>
          have inside := parent?_inside around
          omega
      | last _ top => simp [top] at around
      | outward otherAround rest =>
          obtain rfl := Option.some.inj (around.symm.trans otherAround)
          rw [ih rest]

/-- The numbers fall on the way outward, so it comes to an end. -/
theorem Ordered.exists_chain (ordered : scopes.Ordered) (scope : Nat) :
    ∃ chain, scopes.Chain scope chain := by
  induction scope using Nat.strongRecOn with
  | ind scope ih =>
      cases around : scopes.parent? scope with
      | some outer =>
          obtain ⟨rest, onward⟩ := ih outer (ordered_iff.mp ordered scope outer around)
          exact ⟨scope :: rest, .outward around onward⟩
      | none =>
          by_cases inside : scope < scopes.count
          · exact ⟨[scope], .last inside around⟩
          · exact ⟨[], .outside (Nat.le_of_not_lt inside)⟩

theorem Chain.length_le (ordered : scopes.Ordered) (way : scopes.Chain scope chain) :
    chain.length ≤ scopes.count := by
  have bound : chain.length ≤ scope + 1 ∧ (chain ≠ [] → scope < scopes.count) := by
    induction way with
    | outside => simp
    | last inside => simp [inside]
    | outward around _ ih =>
        have falls := ordered_iff.mp ordered _ _ around
        simp only [List.length_cons]
        exact ⟨by omega, fun _ => parent?_inside around⟩
  cases chain with
  | nil => simp
  | cons first rest =>
      have inside := bound.2 (by simp)
      omega

/-- A search takes the first of these scopes that declares the name, if it may go so far. -/
theorem Chain.lookupWithin (way : scopes.Chain scope chain) (enough : chain.length ≤ steps) :
    scopes.lookupWithin name steps scope = chain.findSome? (scopes.declared? · name) := by
  induction way generalizing steps with
  | outside beyond =>
      cases steps with
      | zero => rfl
      | succ steps => simp [Scopes.lookupWithin, Array.getElem?_eq_none beyond]
  | @last scope inside top =>
      obtain ⟨fewer, rfl⟩ := Nat.exists_eq_add_one_of_ne_zero (Nat.ne_zero_of_lt enough)
      simp only [parent?, Array.getElem?_eq_getElem inside, Option.bind_some] at top
      simp only [Scopes.lookupWithin, declared?, Array.getElem?_eq_getElem inside, top,
        List.findSome?_cons, List.findSome?_nil, Option.bind_some, Option.bind_none]
      cases (scopes.all[scope]).find? name <;> rfl
  | @outward scope outer rest around _ ih =>
      obtain ⟨fewer, rfl⟩ := Nat.exists_eq_add_one_of_ne_zero (Nat.ne_zero_of_lt enough)
      have onward := ih (Nat.le_of_succ_le_succ enough)
      have inside := parent?_inside around
      simp only [parent?, Array.getElem?_eq_getElem inside, Option.bind_some] at around
      simp only [Scopes.lookupWithin, declared?, Array.getElem?_eq_getElem inside, around,
        List.findSome?_cons, Option.bind_some, onward]
      cases (scopes.all[scope]).find? name <;> rfl

theorem Chain.lookup (ordered : scopes.Ordered) (way : scopes.Chain scope chain) :
    scopes.lookup scope name = chain.findSome? (scopes.declared? · name) :=
  way.lookupWithin (way.length_le ordered)

theorem lookup_eq_some_iff_reaches (ordered : scopes.Ordered) :
    scopes.lookup scope name = some declaration ↔
      ∃ home, scopes.Reaches name scope home ∧ scopes.declared? home name = some declaration := by
  obtain ⟨chain, way⟩ := ordered.exists_chain scope
  rw [way.lookup ordered, List.findSome?_eq_some_iff]
  constructor
  · intro ⟨nearer, home, further, whole, found, before⟩
    refine ⟨home, ⟨nearer, further, whole ▸ way, ?_⟩, found⟩
    exact fun between member => declared?_eq_none_iff.mp (before between member)
  · intro ⟨home, ⟨nearer, further, other, before⟩, found⟩
    refine ⟨nearer, home, further, way.unique other, found, ?_⟩
    exact fun between member => declared?_eq_none_iff.mpr (before between member)

theorem Chain.declare (way : scopes.Chain start chain) :
    (scopes.declare scope declaration).Chain start chain := by
  induction way with
  | outside beyond => exact .outside (by simpa using beyond)
  | last inside top => exact .last (by simpa using inside) (by simpa using top)
  | outward around _ ih => exact .outward (by simpa using around) ih

theorem Chain.push (ordered : scopes.Ordered) (inside : start < scopes.count)
    (way : scopes.Chain start chain) : (scopes.push parent).Chain start chain := by
  induction way with
  | outside beyond => omega
  | last here top =>
      exact .last (by rw [count_push]; omega) (by rwa [parent?_push here])
  | @outward scope outer rest around _ ih =>
      have falls := ordered_iff.mp ordered scope outer around
      exact .outward (by rwa [parent?_push inside]) (ih (by omega))

section

variable {old new : Nat → Option Declaration}

/-- A new value is found where no old one comes before it. -/
theorem findSome?_of_first (present : new scope = some declaration)
    (others : ∀ number ≠ scope, new number = old number) {nearer : List Nat}
    (before : ∀ between ∈ nearer, old between = none) (further : List Nat) :
    (nearer ++ scope :: further).findSome? new = some declaration := by
  induction nearer with
  | nil => simp [present]
  | cons first rest ih =>
      obtain ⟨absent, later⟩ := List.forall_mem_cons.mp before
      by_cases here : first = scope
      · simp [here, present]
      · simp only [List.cons_append, List.findSome?_cons, others first here, absent]
        exact ih later

/-- A new value is not found where an old one always comes before it. -/
theorem findSome?_of_hidden (others : ∀ number ≠ scope, new number = old number)
    (hidden : ∀ nearer further, chain = nearer ++ scope :: further →
      ∃ between ∈ nearer, old between ≠ none) : chain.findSome? new = chain.findSome? old := by
  induction chain with
  | nil => rfl
  | cons first rest ih =>
      have different : first ≠ scope := by
        intro here
        obtain ⟨between, member, -⟩ := hidden [] rest (by simp [here])
        simp at member
      rw [List.findSome?_cons, List.findSome?_cons, others first different]
      cases absent : old first with
      | some found => rfl
      | none =>
          apply ih
          intro nearer further whole
          obtain ⟨between, member, visible⟩ := hidden (first :: nearer) further (by simp [whole])
          rcases List.mem_cons.mp member with here | later
          · exact (visible (here ▸ absent)).elim
          · exact ⟨between, later, visible⟩

end

/-- A declaration is what its name means from where the way comes to its scope. -/
theorem lookup_declare_of_reaches (ordered : scopes.Ordered)
    (able : scopes.canDeclare scope declaration = true)
    (reaches : scopes.Reaches declaration.name start scope) :
    (scopes.declare scope declaration).lookup start declaration.name = some declaration := by
  obtain ⟨nearer, further, way, before⟩ := reaches
  have others : ∀ number ≠ scope,
      (scopes.declare scope declaration).declared? number declaration.name =
        scopes.declared? number declaration.name := by
    intro number different
    simp [declared?_declare able, different]
  rw [way.declare.lookup ordered.declare]
  apply findSome?_of_first (by simp [declared?_declare able]) others
  intro between member
  exact declared?_eq_none_iff.mpr (before between member)

/-- All other lookups stay as they are. -/
theorem lookup_declare_of_not_reaches (ordered : scopes.Ordered)
    (able : scopes.canDeclare scope declaration = true)
    (unseen : ¬ (name = declaration.name ∧ scopes.Reaches name start scope)) :
    (scopes.declare scope declaration).lookup start name = scopes.lookup start name := by
  obtain ⟨chain, way⟩ := ordered.exists_chain start
  rw [way.declare.lookup ordered.declare, way.lookup ordered]
  by_cases named : name = declaration.name
  · have others : ∀ number ≠ scope, (scopes.declare scope declaration).declared? number name =
        scopes.declared? number name := by
      intro number different
      simp [declared?_declare able, different]
    apply findSome?_of_hidden others
    intro nearer further whole
    by_contra none
    apply unseen
    refine ⟨named, nearer, further, whole ▸ way, fun between member => ?_⟩
    rw [← declared?_eq_none_iff]
    by_contra declares
    exact none ⟨between, member, declares⟩
  · simp [declared?_declare able, named]

/-- A new scope is on no way outward from an old one. -/
theorem lookup_push (ordered : scopes.Ordered) (inside : start < scopes.count) :
    (scopes.push parent).lookup start name = scopes.lookup start name := by
  obtain ⟨chain, way⟩ := ordered.exists_chain start
  have enough : chain.length ≤ (scopes.push parent).count := by
    have bound := way.length_le ordered
    rw [count_push]
    omega
  rw [lookup, (way.push ordered inside).lookupWithin enough, way.lookup ordered]
  simp only [declared?_push]

/-- Scopes that calls have built are a nested environment. The way outward from each number is one
finite chain, and a search along it ends with the nearest declaration of the name. A declaration is
refused, and then nothing changes, just where there is no such scope or it has the name already.
One that is taken is found from where its scope is reached with no declaration of the name before
it, and changes no other lookup. A new scope changes no lookup from an old one. -/
theorem built_scopes_form_environment (built : Built given scopes) :
    (∀ scope name,
      (∃ chain, (∀ other, scopes.Chain scope other ↔ other = chain) ∧
        ∀ steps, chain.length ≤ steps →
          scopes.lookupWithin name steps scope = scopes.lookup scope name) ∧
      (∀ declaration, scopes.lookup scope name = some declaration ↔
        declaration.name = name ∧
          ∃ home, scopes.Reaches name scope home ∧ scopes.Holds home declaration) ∧
      (scopes.lookup scope name = none ↔
        ∀ chain, scopes.Chain scope chain → ∀ outer ∈ chain, ¬ scopes.DeclaresIn outer name)) ∧
    (∀ scope declaration,
      (scopes.canDeclare scope declaration = false ∧
          scopes.declare scope declaration = scopes ↔
        scope ∉ given ∨ scopes.DeclaresIn scope declaration.name) ∧
      (scopes.canDeclare scope declaration = true → ∀ start name,
        (name = declaration.name ∧ scopes.Reaches name start scope →
          (scopes.declare scope declaration).lookup start name = some declaration) ∧
        (¬ (name = declaration.name ∧ scopes.Reaches name start scope) →
          (scopes.declare scope declaration).lookup start name = scopes.lookup start name))) ∧
    ∀ parent, ∀ start ∈ given, ∀ name,
      (scopes.push parent).lookup start name = scopes.lookup start name := by
  have ordered := built.ordered
  refine ⟨fun scope name => ?_, fun scope declaration => ?_, fun parent start member name => ?_⟩
  · obtain ⟨chain, way⟩ := ordered.exists_chain scope
    have only (other : List Nat) : scopes.Chain scope other ↔ other = chain :=
      ⟨fun another => another.unique way, fun same => same ▸ way⟩
    refine ⟨⟨chain, only, fun steps enough => ?_⟩, fun declaration => ?_, ?_⟩
    · rw [way.lookupWithin enough, way.lookup ordered]
    · rw [lookup_eq_some_iff_reaches ordered]
      simp only [built.distinct.declared?_eq_some_iff]
      grind
    · rw [way.lookup ordered, List.findSome?_eq_none_iff]
      simp only [declared?_eq_none_iff, only, forall_eq]
  · constructor
    · rw [built.mem_given, Nat.not_lt, ← canDeclare_eq_false_iff]
      exact and_iff_left_of_imp declare_of_unable
    · intro able start name
      constructor
      · intro ⟨named, reaches⟩
        subst named
        exact lookup_declare_of_reaches ordered able reaches
      · exact lookup_declare_of_not_reaches ordered able
  · exact lookup_push ordered (built.mem_given.mp member)

def outerName : Declaration :=
  ⟨⟨.int, []⟩, ⟨"x", 1⟩⟩

def innerName : Declaration :=
  ⟨⟨.float, [2]⟩, ⟨"x", 2⟩⟩

/-- Three scopes, one in the other. The one in the middle has the name of the outermost again, which
is declared last. -/
def threeDeep : Scopes :=
  let opened := ((({} : Scopes).push none).push (some 0)).push (some 1)
  (opened.declare 1 innerName).declare 0 outerName

theorem threeDeep_forms_environment :
    Built [0, 1, 2] threeDeep ∧ threeDeep.lookup 2 "x" = some innerName ∧
    (threeDeep.canDeclare 1 outerName = false ∧ threeDeep.declare 1 outerName = threeDeep) ∧
    (threeDeep.declare 2 outerName).lookup 2 "x" = some outerName ∧
    (threeDeep.declare 2 outerName).lookup 1 "x" = threeDeep.lookup 1 "x" ∧
    (threeDeep.push (some 2)).lookup 2 "x" = threeDeep.lookup 2 "x" := by
  have built : Built [0, 1, 2] threeDeep :=
    .declare (.declare (.push (.push (.push .empty (by simp)) (by simp [count]))
      (by simp [count, push])))
  obtain ⟨lookups, declares, pushes⟩ := built_scopes_form_environment built
  have way : threeDeep.Chain 2 [2, 1, 0] :=
    .outward (by decide) (.outward (by decide) (.last (by decide) (by decide)))
  have fresh : ¬ threeDeep.DeclaresIn 2 "x" := by
    rw [← declaredIn_iff]
    decide
  refine ⟨built, ?_, (declares 1 outerName).1.mpr (.inr ⟨innerName, ⟨_, rfl, by decide⟩, rfl⟩),
    ?_, ?_, pushes (some 2) 2 (by simp) "x"⟩
  · apply ((lookups 2 "x").2.1 innerName).mpr
    exact ⟨rfl, 1, ⟨[2], [0], way, by simpa using fresh⟩, _, rfl, by decide⟩
  · exact ((declares 2 outerName).2 (by decide) 2 "x").1 ⟨rfl, [], [1, 0], way, by simp⟩
  · apply ((declares 2 outerName).2 (by decide) 1 "x").2
    intro seen
    obtain ⟨_, nearer, further, other, _⟩ := seen
    have upward : threeDeep.Chain 1 [1, 0] := .outward (by decide) (.last (by decide) (by decide))
    have member : 2 ∈ [1, 0] := by simp [upward.unique other]
    simp at member

end ThreeAddress.Scopes
