import ThreeAddress.Proofs.Lowering.Total

namespace ThreeAddress

/-!
# What the size limit bounds

The size of a declaration is multiplied from the outermost dimension inwards, so a
zero hides every product behind it. A stride is multiplied from behind its
dimension on and may leave that zero out. An accepted array therefore has all its
strides exactly if the zero dimensions have theirs, and only then an access to it
is lowered.
-/

open Lowering

/-- The sizes can be multiplied from the left, and make an integer of the language. -/
def Multiplies (sizes : List Nat) : Prop :=
  ∃ product, wordProduct 1 sizes = some product ∧ product ≤ intMax

section

variable {first product size : Nat} {sizes : List Nat}

theorem wordProduct_cons : wordProduct first (size :: sizes) =
    if first * size < wordValues then wordProduct (first * size) sizes else none := by
  by_cases small : first * size < wordValues <;> simp [wordProduct, small]

/-- A smaller factor in front overflows no sooner. -/
theorem wordProduct_of_le {smaller : Nat} (below : smaller ≤ first)
    (defined : wordProduct first sizes = some product) :
    wordProduct smaller sizes = some (smaller * sizes.prod) := by
  induction sizes generalizing first smaller with
  | nil => simp [wordProduct]
  | cons size rest ih =>
      rw [wordProduct_cons] at defined
      split at defined
      · next small =>
          have stillBelow : smaller * size ≤ first * size := Nat.mul_le_mul_right size below
          have stillSmall : smaller * size < wordValues := Nat.lt_of_le_of_lt stillBelow small
          rw [wordProduct_cons, if_pos stillSmall, ih stillBelow defined, List.prod_cons,
            Nat.mul_assoc]
      · contradiction

theorem Multiplies.of_product (positive : 1 ≤ first)
    (defined : wordProduct first sizes = some product) (small : product ≤ intMax) :
    Multiplies sizes := by
  refine ⟨_, wordProduct_of_le positive defined, ?_⟩
  calc 1 * sizes.prod
      ≤ first * sizes.prod := Nat.mul_le_mul_right _ positive
    _ = product := (wordProduct_eq_some defined).symm
    _ ≤ intMax := small

theorem Multiplies.tail (whole : Multiplies (size :: sizes)) (positive : 1 ≤ size) :
    Multiplies sizes := by
  obtain ⟨product, defined, small⟩ := whole
  rw [wordProduct_cons, Nat.one_mul] at defined
  split at defined
  · exact .of_product positive defined small
  · contradiction

end

namespace DeclaredType

variable {type : DeclaredType}

def StrideFits (type : DeclaredType) (dimension : Nat) : Prop :=
  ∃ stride, type.stride dimension = some stride ∧ stride ≤ intMax

/-- Every dimension has a stride, and it is an integer of the language. -/
def Addressable (type : DeclaredType) : Prop :=
  ∀ dimension < type.depth, type.StrideFits dimension

/-- What is wrong with a stride that does not fit. -/
def strideFault (type : DeclaredType) (name : String) (dimension : Nat) : InternalFault :=
  match type.stride dimension with
  | none => .strideOverflow name
  | some stride => .literalTooLarge stride

theorem multiplies_of_fits (fits : type.fits = true) : Multiplies type.dims := by
  cases size : type.size with
  | none => simp [DeclaredType.fits, size] at fits
  | some bytes => exact .of_product (width_pos type.basic) size (fits_size fits size)

/-- In an accepted array, the strides of the zero dimensions bound all others: the sizes behind a
dimension that is not zero are bounded by the sizes behind the one around it, or else by the whole
storage. -/
theorem addressable_iff (fits : type.fits = true) : type.Addressable ↔
    ∀ dimension, type.dims[dimension]? = some 0 → type.StrideFits dimension := by
  constructor
  · intro addressable dimension zero
    have inside : dimension < type.dims.length := (List.getElem?_eq_some_iff.mp zero).1
    exact addressable dimension inside
  · intro zeros dimension inside
    have reached : ∀ dimension ≤ type.depth, Multiplies (type.dims.drop dimension) := by
      intro dimension within
      induction dimension with
      | zero => exact multiplies_of_fits fits
      | succ outer ih =>
          have bound : outer < type.dims.length := within
          have around : Multiplies (type.dims[outer] :: type.dims.drop (outer + 1)) := by
            rw [← List.drop_eq_getElem_cons]
            exact ih (Nat.le_of_succ_le within)
          by_cases zero : type.dims[outer] = 0
          · exact zeros outer (List.getElem?_eq_some_iff.mpr ⟨bound, zero⟩)
          · exact around.tail (Nat.one_le_iff_ne_zero.mpr zero)
    exact reached (dimension + 1) inside

end DeclaredType

/-- Lowering from a supply of names breaks off with a fault. -/
def Lowering.Fails (work : Lowering Nat α) (before : NameSupply) (fault : InternalFault) : Prop :=
  ∃ after, work.run.run before = (.error fault, after)

section

variable {α β : Type} {work : Lowering Nat α} {next : α → Lowering Nat β} {before middle : NameSupply}
  {fault : InternalFault}

theorem Lowering.Fails.first (failed : work.Fails before fault) :
    (work >>= next).Fails before fault := by
  obtain ⟨after, failed⟩ := failed
  exact ⟨after, by rw [run_bind, failed]⟩

theorem Lowering.Fails.later {value : α} (given : work.Gives before value middle)
    (failed : (next value).Fails middle fault) : (work >>= next).Fails before fault := by
  obtain ⟨after, failed⟩ := failed
  exact ⟨after, by rw [run_bind, given]; exact failed⟩

end

namespace Expr

variable {typeOf? : String → Option DeclaredType} {declared : DeclaredType} {dimension : Nat}

theorem addressTerm_fits (name : String) (line : Nat) (index : Expr)
    (fits : declared.StrideFits dimension) :
    (addressTerm declared name line dimension index).Total := by
  obtain ⟨stride, exact, small⟩ := fits
  exact addressTerm_total name line index exact small

theorem addressTerm_fails (name : String) (line : Nat) (index : Expr) (before : NameSupply)
    (misfit : ¬ declared.StrideFits dimension) :
    (addressTerm declared name line dimension index).Fails before
      (declared.strideFault name dimension) := by
  unfold addressTerm DeclaredType.strideFault
  cases exact : declared.stride dimension with
  | none => exact ⟨before, rfl⟩
  | some stride =>
      have large : intMax < stride := by
        apply Nat.lt_of_not_le
        intro small
        exact misfit ⟨stride, exact, small⟩
      have notOne : stride ≠ 1 := by
        intro one
        subst stride
        exact absurd large (by decide)
      simp only [if_neg notOne, if_pos large]
      exact ⟨before, rfl⟩

/-- The terms of the indices are added up if every one of them has a stride. -/
theorem addTerms_fits {indices : List Expr} (name : String) (line : Nat) (sum : Expr)
    (lowered : ∀ index ∈ indices, (index.reduce typeOf? true).Total)
    (fits : ∀ later < indices.length, declared.StrideFits (dimension + later)) :
    (addTerms typeOf? declared name line dimension sum indices).Total := by
  intro before
  induction indices generalizing dimension sum before with
  | nil => exact ⟨_, _, addTerms_nil_gives.mpr ⟨rfl, rfl, rfl⟩⟩
  | cons index rest ih =>
      have restFits : ∀ later < rest.length, declared.StrideFits (dimension + 1 + later) := by
        intro later inside
        rw [Nat.add_right_comm]
        exact fits (later + 1) (Nat.succ_lt_succ inside)
      obtain ⟨⟨indexCode, indexResult⟩, afterIndex, indexGiven⟩ :=
        lowered index List.mem_cons_self before
      obtain ⟨⟨termCode, term⟩, afterTerm, termGiven⟩ :=
        addressTerm_fits name line indexResult (fits 0 (Nat.succ_pos _)) afterIndex
      obtain ⟨⟨sumCode, newSum⟩, afterSum, sumGiven⟩ :=
        materialize_total (.binary (addressNote line) .add sum term) afterTerm
      obtain ⟨⟨restCode, total⟩, after, restGiven⟩ :=
        ih newSum (fun index member => lowered index (List.mem_cons_of_mem _ member)) restFits
          afterSum
      exact ⟨_, _, addTerms_cons_gives.mpr
        ⟨_, _, _, _, _, _, _, _, _, _, indexGiven, termGiven, sumGiven, restGiven, rfl⟩⟩

/-- Adding up breaks off at the first dimension without a stride. -/
theorem addTerms_fails {indices : List Expr} {bad : Nat} (name : String) (line : Nat)
    (sum : Expr) (before : NameSupply)
    (lowered : ∀ index ∈ indices, (index.reduce typeOf? true).Total)
    (inside : bad < indices.length) (misfit : ¬ declared.StrideFits (dimension + bad))
    (fits : ∀ earlier < bad, declared.StrideFits (dimension + earlier)) :
    (addTerms typeOf? declared name line dimension sum indices).Fails before
      (declared.strideFault name (dimension + bad)) := by
  induction indices generalizing dimension bad sum before with
  | nil => contradiction
  | cons index rest ih =>
      obtain ⟨⟨indexCode, indexResult⟩, afterIndex, indexGiven⟩ :=
        lowered index List.mem_cons_self before
      rw [addTerms]
      refine .later indexGiven ?_
      cases bad with
      | zero => exact .first (addressTerm_fails name line indexResult afterIndex misfit)
      | succ bad =>
          have restMisfit : ¬ declared.StrideFits (dimension + 1 + bad) := by
            rwa [Nat.add_right_comm]
          have restFits : ∀ earlier < bad, declared.StrideFits (dimension + 1 + earlier) := by
            intro earlier below
            rw [Nat.add_right_comm]
            exact fits (earlier + 1) (Nat.succ_lt_succ below)
          obtain ⟨⟨termCode, term⟩, afterTerm, termGiven⟩ :=
            addressTerm_fits name line indexResult (fits 0 (Nat.succ_pos _)) afterIndex
          obtain ⟨⟨sumCode, newSum⟩, afterSum, sumGiven⟩ :=
            materialize_total (.binary (addressNote line) .add sum term) afterTerm
          have restFails := ih newSum afterSum
            (fun index member => lowered index (List.mem_cons_of_mem _ member))
            (Nat.lt_of_succ_lt_succ inside) restMisfit restFits
          rw [Nat.add_right_comm] at restFails
          exact .later termGiven (.later sumGiven (.first restFails))

variable {single : Bool} {note : Note} {id : Ident} {indices : List Expr}

theorem access_total (typed : typeOf? id.name = some declared)
    (full : indices.length = declared.depth)
    (lowered : ∀ index ∈ indices, (index.reduce typeOf? true).Total)
    (addressable : declared.Addressable) :
    ((Expr.loc note id indices).reduce typeOf? single).Total := by
  intro before
  cases indices with
  | nil => exact ⟨_, _, by rw [reduce]; exact gives_pure.mpr ⟨rfl, rfl⟩⟩
  | cons first rest =>
      have outermost : declared.StrideFits 0 := addressable 0 (full ▸ Nat.succ_pos _)
      have inner : ∀ later < rest.length, declared.StrideFits (1 + later) := by
        intro later inside
        apply addressable
        rw [← full, List.length_cons]
        omega
      obtain ⟨⟨firstCode, firstResult⟩, afterFirst, firstGiven⟩ :=
        lowered first List.mem_cons_self before
      obtain ⟨⟨termCode, term⟩, afterTerm, termGiven⟩ :=
        addressTerm_fits id.name note.line firstResult outermost afterFirst
      obtain ⟨⟨sumCode, sum⟩, afterSum, sumGiven⟩ :=
        addTerms_fits id.name note.line term
          (fun index member => lowered index (List.mem_cons_of_mem _ member)) inner afterTerm
      obtain ⟨⟨offsetCode, offset⟩, afterOffset, offsetGiven⟩ :=
        materialize_total (.binary (addressNote note.line) .mul sum
          (.int (addressNote note.line) declared.basic.width)) afterSum
      obtain ⟨⟨lastCode, result⟩, after, settled⟩ :=
        settle_total single (.loc note id [offset]) afterOffset
      have steps : Offset typeOf? declared id.name note.line (first :: rest) before _ offset
          afterOffset := ⟨_, _, _, _, _, _, _, _, _, _, _, _, rfl, firstGiven, termGiven, sumGiven,
        offsetGiven, rfl⟩
      exact ⟨_, _, reduce_access_gives.mpr ⟨_, _, _, _, _, typed, steps, settled, rfl⟩⟩

theorem access_fails {bad : Nat} (before : NameSupply) (typed : typeOf? id.name = some declared)
    (full : indices.length = declared.depth)
    (lowered : ∀ index ∈ indices, (index.reduce typeOf? true).Total)
    (inside : bad < declared.depth) (misfit : ¬ declared.StrideFits bad)
    (fits : ∀ outer < bad, declared.StrideFits outer) :
    ((Expr.loc note id indices).reduce typeOf? single).Fails before
      (declared.strideFault id.name bad) := by
  cases indices with
  | nil =>
      rw [← full] at inside
      contradiction
  | cons first rest =>
      obtain ⟨⟨firstCode, firstResult⟩, afterFirst, firstGiven⟩ :=
        lowered first List.mem_cons_self before
      rw [reduce, typed]
      refine .later firstGiven ?_
      cases bad with
      | zero => exact .first (addressTerm_fails id.name note.line firstResult afterFirst misfit)
      | succ bad =>
          obtain ⟨⟨termCode, term⟩, afterTerm, termGiven⟩ :=
            addressTerm_fits id.name note.line firstResult (fits 0 (Nat.succ_pos _)) afterFirst
          have restInside : bad < rest.length := by
            rw [← full, List.length_cons] at inside
            exact Nat.lt_of_succ_lt_succ inside
          have restMisfit : ¬ declared.StrideFits (1 + bad) := by rwa [Nat.add_comm]
          have restFits : ∀ earlier < bad, declared.StrideFits (1 + earlier) := by
            intro earlier below
            rw [Nat.add_comm]
            exact fits (earlier + 1) (Nat.succ_lt_succ below)
          have restFails := addTerms_fails id.name note.line term afterTerm
            (fun index member => lowered index (List.mem_cons_of_mem _ member)) restInside
            restMisfit restFits
          rw [Nat.add_comm 1 bad] at restFails
          exact .later termGiven (.first restFails)

end Expr

/-- An accepted array has all its strides exactly if its zero dimensions have theirs. If it has
them, every access with an index for each dimension is lowered, as far as its indices are; if not,
every such access breaks off at the outermost stride that is missing. -/
theorem accepted_array_addressable_iff {scopes : Scopes} {scope : Nat} {basic : BasicType}
    {tokens : List Token} {phrase : Grammar.Phrase Declaration tokens.length}
    (read : Grammar.declaration scopes scope basic tokens = .ok phrase) :
    (phrase.value.type.Addressable ↔ ∀ dimension,
      phrase.value.type.dims[dimension]? = some 0 → phrase.value.type.StrideFits dimension) ∧
    ∀ typeOf? single note id indices, typeOf? id.name = some phrase.value.type →
      indices.length = phrase.value.type.depth →
      (∀ index ∈ indices, (Expr.reduce typeOf? true index).Total) →
      (phrase.value.type.Addressable → (Expr.reduce typeOf? single (.loc note id indices)).Total) ∧
      ∀ bad < phrase.value.type.depth, ¬ phrase.value.type.StrideFits bad →
        (∀ outer < bad, phrase.value.type.StrideFits outer) →
        ∀ before, (Expr.reduce typeOf? single (.loc note id indices)).Fails before
          (phrase.value.type.strideFault id.name bad) := by
  have fits : phrase.value.type.fits = true :=
    Grammar.declaration_fits scopes scope basic tokens phrase read
  refine ⟨DeclaredType.addressable_iff fits, ?_⟩
  intro typeOf? single note id indices typed full lowered
  constructor
  · intro addressable
    exact Expr.access_total typed full lowered addressable
  · intro bad inside misfit outer before
    exact Expr.access_fails before typed full lowered inside misfit outer

/-- Stores into an array that has no elements, as its outermost size is zero. -/
def emptyArray : String :=
  "\x7b int a[0][65536][65536]; a[0][0][0] = 1; \x7d"

def emptyArrayType : DeclaredType where
  basic := .int
  dims := [0, 65536, 65536]

/-- The declaration is accepted with a size of zero, but its outermost stride is no integer of the
language, and the store is not lowered. -/
theorem emptyArray_faults : ∃ program, Program.ofSource "empty" emptyArray = .ok program ∧
    program.scopes.typeOf? 0 "a" = some emptyArrayType ∧ emptyArrayType.size = some 0 ∧
    emptyArrayType.stride 0 = some 4294967296 ∧ intMax < 4294967296 ∧
    compile "empty" emptyArray = .error (.internal (.literalTooLarge 4294967296)) := by
  have accepted : ∃ program, Program.ofSource "empty" emptyArray = .ok program ∧
      program.scopes.typeOf? 0 "a" = some emptyArrayType ∧
      ((program.lower {}).1.mapError .internal : Except CompileError _) =
        .error (.internal (.literalTooLarge 4294967296)) := ⟨_, by cbv, rfl, rfl⟩
  obtain ⟨program, read, typed, faults⟩ := accepted
  refine ⟨program, read, typed, rfl, rfl, by decide, ?_⟩
  rw [compile, compileWith, read]
  exact faults

/-- The declarator of the array. -/
def emptyArrayTokens : List Token :=
  [⟨.ident "a", {}⟩, ⟨.mark .openBracket, {}⟩, ⟨.int 0, {}⟩, ⟨.mark .closeBracket, {}⟩,
   ⟨.mark .openBracket, {}⟩, ⟨.int 65536, {}⟩, ⟨.mark .closeBracket, {}⟩,
   ⟨.mark .openBracket, {}⟩, ⟨.int 65536, {}⟩, ⟨.mark .closeBracket, {}⟩,
   ⟨.mark .semicolon, {}⟩]

/-- The declaration is accepted, and an access to the array breaks off. -/
theorem emptyArray_not_addressable : ∃ phrase,
    Grammar.declaration (({} : Scopes).push none) 0 .int emptyArrayTokens = .ok phrase ∧
    phrase.value.type = emptyArrayType ∧ ¬ emptyArrayType.Addressable ∧
    ∀ before, (Expr.reduce (fun _ => some emptyArrayType) false
      (.loc { line := 1 } ⟨"a", 1⟩ (List.replicate 3 (.int { line := 1 } 0)))).Fails before
        (.literalTooLarge 4294967296) := by
  have accepted : ∃ phrase, Grammar.declaration (({} : Scopes).push none) 0 .int
      emptyArrayTokens = .ok phrase ∧ phrase.value.type = emptyArrayType := ⟨_, by cbv, rfl⟩
  obtain ⟨phrase, read, same⟩ := accepted
  obtain ⟨addressable, accesses⟩ := accepted_array_addressable_iff read
  rw [same] at addressable accesses
  have misfit : ¬ emptyArrayType.StrideFits 0 := by
    intro fits
    obtain ⟨stride, exact, small⟩ := fits
    cases exact
    exact absurd small (by decide)
  have literals : ∀ index ∈ List.replicate 3 (Expr.int { line := 1 } 0),
      (Expr.reduce (fun _ => some emptyArrayType) true index).Total := by
    intro index member before
    rw [List.eq_of_mem_replicate member]
    exact ⟨_, _, rfl⟩
  obtain ⟨-, breaks⟩ := accesses (fun _ => some emptyArrayType) false { line := 1 } ⟨"a", 1⟩
    (List.replicate 3 (.int { line := 1 } 0)) rfl rfl literals
  refine ⟨phrase, read, same, ?_, breaks 0 (by decide) misfit fun outer below => ?_⟩
  · rw [addressable]
    intro zeros
    exact misfit (zeros 0 rfl)
  · contradiction

end ThreeAddress
