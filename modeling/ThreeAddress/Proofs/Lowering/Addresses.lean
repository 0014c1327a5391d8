import ThreeAddress.Proofs.Lowering.SizeLimit
import ThreeAddress.Proofs.Lowering.Values

namespace ThreeAddress

open Lowering Machine

namespace DeclaredType

variable {type : DeclaredType} {sizes : List Nat} {numbers others front : List Int} {value : Int}

/-- The terms of an offset: each index times the sizes behind its own. -/
def terms : List Nat → List Int → List Int
  | _ :: sizes, number :: numbers => number * sizes.prod :: terms sizes numbers
  | _, _ => []

/-- The byte offset of an element. -/
def byteOffset (type : DeclaredType) (numbers : List Int) : Int :=
  type.basic.width * (terms type.dims numbers).sum

/-- The numbers that come up on the way to a byte offset: the terms, the sums of the first ones,
and the offset itself. -/
inductive OnTheWay (type : DeclaredType) (numbers : List Int) : Int → Prop
  | term {value : Int} : value ∈ terms type.dims numbers → OnTheWay type numbers value
  | sum {front : List Int} : front <+: terms type.dims numbers → OnTheWay type numbers front.sum
  | offset : OnTheWay type numbers (type.byteOffset numbers)

theorem sum_terms : (terms sizes numbers).sum = rowMajor sizes numbers := by
  fun_induction terms sizes numbers with
  | case1 size sizes number numbers ih => rw [List.sum_cons, ih, rowMajor]
  | case2 sizes numbers ended =>
      cases sizes with
      | nil => rfl
      | cons size sizes =>
          cases numbers with
          | nil => rfl
          | cons number numbers => exact (ended size sizes number numbers rfl rfl).elim

theorem terms_cons {dimension : Nat} {number : Int} (inside : dimension < type.dims.length) :
    terms (type.dims.drop dimension) (number :: numbers) =
      number * (type.dims.drop (dimension + 1)).prod ::
        terms (type.dims.drop (dimension + 1)) numbers := by
  rw [List.drop_eq_getElem_cons inside, terms]

@[simp] theorem terms_nil : terms sizes [] = [] := by
  cases sizes <;> rfl

theorem terms_nonnegative (within : inBounds sizes numbers = true) :
    ∀ term ∈ terms sizes numbers, 0 ≤ term := by
  induction sizes generalizing numbers with
  | nil => exact nofun
  | cons size sizes ih =>
      cases numbers with
      | nil => exact nofun
      | cons number numbers =>
          obtain ⟨nonnegative, -, rest⟩ := inBounds_cons within
          exact List.forall_mem_cons.mpr
            ⟨Int.mul_nonneg nonnegative (Int.natCast_nonneg _), ih rest⟩

theorem OnTheWay.nonnegative (within : inBounds type.dims numbers = true)
    (onTheWay : type.OnTheWay numbers value) : 0 ≤ value := by
  have terms := terms_nonnegative within
  cases onTheWay with
  | term member => exact terms value member
  | sum first => exact List.sum_nonneg fun term member => terms term (first.subset member)
  | offset => exact Int.mul_nonneg (Int.natCast_nonneg _) (List.sum_nonneg terms)

/-- Nothing on the way to an offset is larger than the offset in bytes. -/
theorem OnTheWay.le_byteOffset (within : inBounds type.dims numbers = true)
    (onTheWay : type.OnTheWay numbers value) : value ≤ type.byteOffset numbers := by
  have nonnegative := terms_nonnegative within
  have scaled : (terms type.dims numbers).sum ≤ type.byteOffset numbers := by
    have wide : (1 : Int) ≤ type.basic.width := by exact_mod_cast width_pos type.basic
    exact le_mul_of_one_le_left (List.sum_nonneg nonnegative) wide
  cases onTheWay with
  | term member => exact (List.single_le_sum nonnegative value member).trans scaled
  | sum first =>
      obtain ⟨later, whole⟩ := first
      rw [← whole, List.sum_append] at scaled
      have behind : 0 ≤ later.sum := List.sum_nonneg fun term member =>
        nonnegative term (whole ▸ List.mem_append_right _ member)
      omega
  | offset => exact Int.le_refl _

/-- An element ends within the storage. -/
theorem byteOffset_add_width {bytes : Nat} (size : type.size = some bytes)
    (within : inBounds type.dims numbers = true) :
    type.byteOffset numbers + type.basic.width ≤ bytes := by
  obtain ⟨-, below⟩ := rowMajor_range within
  have last : rowMajor type.dims numbers + 1 ≤ type.dims.prod := below
  calc type.byteOffset numbers + type.basic.width
      = type.basic.width * (rowMajor type.dims numbers + 1) := by rw [byteOffset, sum_terms]; ring
    _ ≤ type.basic.width * type.dims.prod :=
        Int.mul_le_mul_of_nonneg_left last (Int.natCast_nonneg _)
    _ = bytes := by rw [wordProduct_eq_some size]; push_cast; rfl

/-- Different elements are at least one width apart. -/
theorem byteOffset_apart (within : inBounds type.dims numbers = true)
    (otherWithin : inBounds type.dims others = true) (different : others ≠ numbers) :
    (type.basic.width : Int) ≤ |type.byteOffset numbers - type.byteOffset others| := by
  have apart : rowMajor type.dims numbers - rowMajor type.dims others ≠ 0 := fun same =>
    different (rowMajor_injective otherWithin within (Int.eq_of_sub_eq_zero same).symm)
  rw [byteOffset, byteOffset, sum_terms, sum_terms, ← Int.mul_sub, abs_mul, Nat.abs_cast]
  exact le_mul_of_one_le_right (Int.natCast_nonneg _) (Int.one_le_abs apart)

end DeclaredType

namespace Expr

variable (typeOf? : String → Option DeclaredType) (declared : DeclaredType) (name : String)
  (line : Nat)

/-- The steps of `addTerms`. Of the code, the access's own instructions are given apart from those
of its indices. -/
inductive AddsTerms : (dimension : Nat) → (sum : Expr) → List Expr → NameSupply →
    (code own : List Instr) → (total : Expr) → NameSupply → Prop
  | nil {dimension sum before} : AddsTerms dimension sum [] before [] [] sum before
  | cons {dimension sum index rest before indexCode indexResult afterIndex termCode term afterTerm
        sumCode newSum afterSum restCode restOwn total after} :
      (index.reduce typeOf? true).Gives before (indexCode, indexResult) afterIndex →
      (addressTerm declared name line dimension indexResult).Gives afterIndex
        (termCode, term) afterTerm →
      (materialize (.binary (addressNote line) .add sum term)).Gives afterTerm
        (sumCode, newSum) afterSum →
      AddsTerms (dimension + 1) newSum rest afterSum restCode restOwn total after →
      AddsTerms dimension sum (index :: rest) before (indexCode ++ termCode ++ sumCode ++ restCode)
        (termCode ++ sumCode ++ restOwn) total after

/-- The steps of `Offset`, with the access's own instructions. -/
inductive Linearizes : List Expr → NameSupply → (code own : List Instr) → (offset : Expr) →
    NameSupply → Prop
  | steps {first rest before firstCode firstResult afterFirst termCode term afterTerm sumCode
        sumOwn sum afterSum offsetCode offset after} :
      (first.reduce typeOf? true).Gives before (firstCode, firstResult) afterFirst →
      (addressTerm declared name line 0 firstResult).Gives afterFirst (termCode, term) afterTerm →
      AddsTerms typeOf? declared name line 1 term rest afterTerm sumCode sumOwn sum afterSum →
      (materialize (.binary (addressNote line) .mul sum
        (.int (addressNote line) declared.basic.width))).Gives afterSum (offsetCode, offset) after →
      Linearizes (first :: rest) before (firstCode ++ termCode ++ sumCode ++ offsetCode)
        (termCode ++ sumOwn ++ offsetCode) offset after

variable {typeOf? declared name line} {code own : List Instr} {before after : NameSupply}

theorem addsTerms_of_gives {dimension : Nat} {sum total : Expr} {indices : List Expr}
    (given : (addTerms typeOf? declared name line dimension sum indices).Gives before
      (code, total) after) :
    ∃ own,
      AddsTerms typeOf? declared name line dimension sum indices before code own total after := by
  induction indices generalizing dimension sum before code with
  | nil =>
      obtain ⟨rfl, rfl, rfl⟩ := addTerms_nil_gives.mp given
      exact ⟨[], .nil⟩
  | cons index rest ih =>
      obtain ⟨_, _, _, _, _, _, _, _, _, _, indexGiven, termGiven, sumGiven, restGiven, rfl⟩ :=
        addTerms_cons_gives.mp given
      obtain ⟨own, restAdds⟩ := ih restGiven
      exact ⟨_, .cons indexGiven termGiven sumGiven restAdds⟩

theorem linearizes_of_offset {indices : List Expr} {offset : Expr}
    (steps : Offset typeOf? declared name line indices before code offset after) :
    ∃ own, Linearizes typeOf? declared name line indices before code own offset after := by
  obtain ⟨_, _, _, _, _, _, _, _, _, _, _, _, rfl, firstGiven, termGiven, sumGiven, offsetGiven,
    rfl⟩ := steps
  obtain ⟨own, adds⟩ := addsTerms_of_gives sumGiven
  exact ⟨_, .steps firstGiven termGiven adds offsetGiven⟩

end Expr

section

variable {Value : Type}

/-- The instruction fills a temporary, which is left with such a number. -/
def Instr.Leaves (meaning : Interpretation Value) (good : Int → Prop) (memory : Place → Value)
    (low : Nat) (instr : Instr) : Prop :=
  ∃ note number source value, instr = .assign (.temp note number) source ∧ number ≤ low ∧
    memory (.temp number) = meaning.int value ∧ good value

/-- The code computes a value as `Computes` says, and all that its own instructions compute for it
are such numbers. -/
def ComputesBy (meaning : Interpretation Value) (good : Int → Prop) (before : NameSupply)
    (code own : List Instr) (result : Expr) (after : NameSupply) (memory : Place → Value)
    (value : Value) : Prop :=
  ∃ final, Passes meaning id code memory final ∧ Keeps before.temps memory final ∧
    Settled meaning after.temps final result value ∧
    ∀ instr ∈ own, instr.Leaves meaning good final after.temps

variable {meaning : Interpretation Value} {good : Int → Prop} {low high : Nat}
  {memory final : Place → Value} {instr : Instr} {before names after : NameSupply}
  {code own rest restOwn : List Instr} {result last expr : Expr} {value lastValue : Value}

theorem Instr.Leaves.keep (leaves : instr.Leaves meaning good memory low)
    (kept : Keeps low memory final) (ordered : low ≤ high) :
    instr.Leaves meaning good final high := by
  obtain ⟨note, number, source, value, same, bound, held, fine⟩ := leaves
  exact ⟨note, number, source, value, same, Nat.le_trans bound ordered,
    (kept.temp number bound).trans held, fine⟩

theorem Computes.foreign (computes : Computes meaning before code result after memory value) :
    ComputesBy meaning good before code [] result after memory value := by
  obtain ⟨final, passes, keeps, settled⟩ := computes
  exact ⟨final, passes, keeps, settled, List.forall_mem_nil _⟩

theorem ComputesBy.bind (front : ComputesBy meaning good before code own result names memory value)
    (ordered : before.temps ≤ names.temps) (onward : names.temps ≤ after.temps)
    (back : ∀ middle, Keeps before.temps memory middle →
      Settled meaning names.temps middle result value →
      ComputesBy meaning good names rest restOwn last after middle lastValue) :
    ComputesBy meaning good before (code ++ rest) (own ++ restOwn) last after memory lastValue := by
  obtain ⟨middle, passes, keeps, settled, leaves⟩ := front
  obtain ⟨final, morePasses, moreKeeps, finished, moreLeaves⟩ := back middle keeps settled
  refine ⟨final, passes.append morePasses, keeps.trans (moreKeeps.lower ordered), finished, ?_⟩
  exact List.forall_mem_append.mpr
    ⟨fun instr member => (leaves instr member).keep moreKeeps onward, moreLeaves⟩

/-- The code of an index comes first. -/
theorem Computes.bindBy (front : Computes meaning before code result names memory value)
    (ordered : before.temps ≤ names.temps)
    (back : ∀ middle, Keeps before.temps memory middle →
      Settled meaning names.temps middle result value →
      ComputesBy meaning good names rest restOwn last after middle lastValue) :
    ComputesBy meaning good before (code ++ rest) restOwn last after memory lastValue := by
  obtain ⟨middle, passes, keeps, settled⟩ := front
  obtain ⟨final, morePasses, moreKeeps, finished, leaves⟩ := back middle keeps settled
  exact ⟨final, passes.append morePasses, keeps.trans (moreKeeps.lower ordered), finished, leaves⟩

theorem materialize_computesBy {number : Int} (fine : good number)
    (settled : Settled meaning before.temps memory expr (meaning.int number))
    (given : expr.materialize.Gives before (code, result) after) :
    ComputesBy meaning good before code code result after memory (meaning.int number) := by
  obtain ⟨final, passes, keeps, held⟩ := materialize_computes settled given
  refine ⟨final, passes, keeps, held, ?_⟩
  obtain ⟨rfl, rfl, rfl⟩ := Expr.materialize_gives.mp given
  exact List.forall_mem_singleton.mpr
    ⟨_, _, _, number, rfl, Nat.le_refl _, Option.some.inj held.now, fine⟩

theorem addressTerm_computesBy {declared : DeclaredType} {name : String} {line dimension : Nat}
    {index : Expr} {number : Int}
    (fine : good (number * (declared.dims.drop (dimension + 1)).prod))
    (settled : Settled meaning before.temps memory index (meaning.int number))
    (given : (Expr.addressTerm declared name line dimension index).Gives before
      (code, result) after) :
    ComputesBy meaning good before code code result after memory
      (meaning.int (number * (declared.dims.drop (dimension + 1)).prod)) := by
  have computes := addressTerm_computes settled given
  obtain ⟨stride, exact, cases⟩ := Expr.addressTerm_gives.mp given
  rcases cases with ⟨rfl, rfl, rfl, rfl⟩ | ⟨-, -, made⟩
  · exact computes.foreign
  · rw [← DeclaredType.stride_eq_some exact] at fine ⊢
    refine materialize_computesBy fine ?_ made
    rw [← meaning.mul_int]
    exact settled.binary _ _ .int

end

section

variable {Value : Type} {meaning : Interpretation Value} {typeOf? : String → Option DeclaredType}
  {load : Place → Option Value}

theorem Expr.AddsTerms.takes {declared : DeclaredType} {name : String} {line dimension : Nat}
    {sum total : Expr} {indices : List Expr} {before after : NameSupply} {code own : List Instr}
    (adds : AddsTerms typeOf? declared name line dimension sum indices before code own total
      after) : before.temps ≤ after.temps := by
  induction adds with
  | nil => exact Nat.le_refl _
  | @cons _ _ index _ _ _ _ _ _ _ _ _ _ _ _ _ _ _ indexGiven termGiven sumGiven _ ih =>
      have first := (Expr.reduce_takes index indexGiven).temps_le
      have second := (Expr.addressTerm_takes termGiven).temps_le
      have third := (Expr.materialize_takes sumGiven).temps_le
      omega

/-- Behind some terms, the sum of the terms goes on through all of them. -/
theorem Expr.AddsTerms.computes {declared : DeclaredType} {name : String} {line dimension : Nat}
    {sum total : Expr} {indices : List Expr} {before after : NameSupply} {code own : List Instr}
    {memory : Place → Value} {whole front numbers : List Int}
    (adds : AddsTerms typeOf? declared name line dimension sum indices before code own total after)
    (full : dimension + indices.length = declared.depth)
    (resolved : Expr.AllResolved typeOf? indices) (mirrors : Mirrors typeOf? load memory)
    (evaluated : Expr.evalIndices meaning load indices = some numbers)
    (split : DeclaredType.terms declared.dims whole =
      front ++ DeclaredType.terms (declared.dims.drop dimension) numbers)
    (settled : Settled meaning before.temps memory sum (meaning.int front.sum)) :
    ComputesBy meaning (declared.OnTheWay whole) before code own total after memory
      (meaning.int (DeclaredType.terms declared.dims whole).sum) := by
  induction adds generalizing memory front numbers with
  | nil =>
      cases evaluated
      rw [split, DeclaredType.terms_nil, List.append_nil]
      exact (Computes.nothing settled).foreign
  | @cons dimension sum index rest before indexCode indexResult afterIndex termCode term afterTerm
      sumCode newSum afterSum restCode restOwn total after indexGiven termGiven sumGiven restAdds
      ih =>
      obtain ⟨number, more, indexValue, restValues, rfl⟩ := Expr.evalIndices_cons evaluated
      have indexTakes := Expr.reduce_takes index indexGiven
      have termTakes := Expr.addressTerm_takes termGiven
      have sumTakes := Expr.materialize_takes sumGiven
      have restTakes := restAdds.takes
      simp only [DeclaredType.depth, List.length_cons] at full
      rw [DeclaredType.terms_cons (by omega)] at split
      have termOnTheWay : declared.OnTheWay whole
          (number * (declared.dims.drop (dimension + 1)).prod) := by
        refine .term ?_
        rw [split]
        exact List.mem_append_right _ List.mem_cons_self
      have sumOnTheWay : declared.OnTheWay whole
          (front ++ [number * (declared.dims.drop (dimension + 1)).prod]).sum := by
        refine .sum ⟨DeclaredType.terms (declared.dims.drop (dimension + 1)) more, ?_⟩
        rw [split, List.append_assoc, List.singleton_append]
      rw [List.append_assoc, List.append_assoc, List.append_assoc]
      refine (reduce_computes index resolved.1 mirrors indexValue indexGiven).bindBy
        indexTakes.temps_le fun second keeps indexSettled => ?_
      refine (addressTerm_computesBy termOnTheWay indexSettled termGiven).bind
        termTakes.temps_le (sumTakes.temps_le.trans restTakes) fun third moreKeeps termSettled => ?_
      -- The sum so far is below the temporaries of this index, so it is settled still.
      have stillSettled := (settled.later keeps indexTakes.temps_le).later moreKeeps
        termTakes.temps_le
      have added := stillSettled.binary (Expr.addressNote line) .add termSettled
      have longer : front.sum + number * (declared.dims.drop (dimension + 1)).prod =
          (front ++ [number * ((declared.dims.drop (dimension + 1)).prod : Int)]).sum := by simp
      rw [meaning.add_int, longer] at added
      refine (materialize_computesBy sumOnTheWay added sumGiven).bind
        sumTakes.temps_le restTakes fun fourth lastKeeps sumSettled => ?_
      have stillMirrors := ((mirrors.keep keeps).keep moreKeeps).keep lastKeeps
      exact ih (by simp only [DeclaredType.depth]; omega) resolved.2 stillMirrors restValues
        (by rw [split, List.append_assoc, List.singleton_append]) sumSettled

/-- The instructions of an access leave its byte offset, and only numbers on the way to it. -/
theorem Expr.Linearizes.computes {declared : DeclaredType} {name : String} {line : Nat}
    {indices : List Expr} {offset : Expr} {before after : NameSupply} {code own : List Instr}
    {memory : Place → Value} {numbers : List Int}
    (steps : Linearizes typeOf? declared name line indices before code own offset after)
    (full : indices.length = declared.depth) (resolved : Expr.AllResolved typeOf? indices)
    (mirrors : Mirrors typeOf? load memory)
    (evaluated : Expr.evalIndices meaning load indices = some numbers) :
    ComputesBy meaning (declared.OnTheWay numbers) before code own offset after memory
      (meaning.int (declared.byteOffset numbers)) := by
  obtain @⟨first, rest, _, _, _, _, _, term, _, _, _, _, _, _, _, _, firstGiven, termGiven, sumAdds,
    offsetGiven⟩ := steps
  obtain ⟨number, more, firstValue, restValues, rfl⟩ := Expr.evalIndices_cons evaluated
  have firstTakes := Expr.reduce_takes first firstGiven
  have termTakes := Expr.addressTerm_takes termGiven
  have sumTakes := sumAdds.takes
  have offsetTakes := Expr.materialize_takes offsetGiven
  simp only [DeclaredType.depth, List.length_cons] at full
  have inside : 0 < declared.dims.length := by omega
  have split : DeclaredType.terms declared.dims (number :: more) =
      [number * ((declared.dims.drop 1).prod : Int)] ++
        DeclaredType.terms (declared.dims.drop 1) more := DeclaredType.terms_cons inside
  have termOnTheWay : declared.OnTheWay (number :: more)
      (number * (declared.dims.drop 1).prod) := by
    refine .term ?_
    rw [split]
    exact List.mem_cons_self
  rw [List.append_assoc, List.append_assoc, List.append_assoc]
  refine (reduce_computes first resolved.1 mirrors firstValue firstGiven).bindBy
    firstTakes.temps_le fun second keeps firstSettled => ?_
  refine (addressTerm_computesBy termOnTheWay firstSettled termGiven).bind termTakes.temps_le
    (sumTakes.trans offsetTakes.temps_le) fun third moreKeeps termSettled => ?_
  rw [← List.sum_singleton (x := number * _)] at termSettled
  refine (sumAdds.computes (by simp only [DeclaredType.depth]; omega) resolved.2
    ((mirrors.keep keeps).keep moreKeeps) restValues split termSettled).bind
    sumTakes offsetTakes.temps_le fun fourth _ sumSettled => ?_
  refine materialize_computesBy .offset ?_ offsetGiven
  rw [DeclaredType.byteOffset, Int.mul_comm, ← meaning.mul_int]
  exact sumSettled.binary _ _ .int

end

/-- The code puts the byte offset of an element into its result, and all that the instructions of
the access compute comes up on the way to it. -/
def Expr.Addresses {Value : Type} (meaning : Interpretation Value)
    (typeOf? : String → Option DeclaredType) (declared : DeclaredType) (name : String) (line : Nat)
    (indices : List Expr) (numbers : List Int) (memory : Place → Value) (before : NameSupply)
    (code : List Instr) (offset : Expr) (after : NameSupply) : Prop :=
  ∃ own final, Linearizes typeOf? declared name line indices before code own offset after ∧
    Passes meaning id code memory final ∧ ThreeAddress.Keeps before.temps memory final ∧
    offset.eval meaning (loadFrom id final) = some (meaning.int (declared.byteOffset numbers)) ∧
    ∀ instr ∈ own, instr.Leaves meaning (declared.OnTheWay numbers) final after.temps

/-- An access to an accepted array whose sizes are not zero is lowered, as far as its indices are.
Its code computes the byte offset of the element, and no number on the way leaves the integers of
the language. The element ends within the storage and lies a width apart from all others. -/
theorem accepted_array_addressed {scopes : Scopes} {scope : Nat} {basic : BasicType}
    {tokens : List Token} {phrase : Grammar.Phrase Declaration tokens.length}
    (read : Grammar.declaration scopes scope basic tokens = .ok phrase)
    (array : phrase.value.type.dims ≠ []) (positive : ∀ size ∈ phrase.value.type.dims, 1 ≤ size) :
    (∀ typeOf? single note id indices, typeOf? id.name = some phrase.value.type →
      indices.length = phrase.value.type.depth →
      (∀ index ∈ indices, (Expr.reduce typeOf? true index).Total) →
      (Expr.reduce typeOf? single (.loc note id indices)).Total) ∧
    ∀ numbers, DeclaredType.inBounds phrase.value.type.dims numbers = true →
      (∀ {Value : Type} (meaning : Interpretation Value) (typeOf? : String → Option DeclaredType)
          (load : Place → Option Value) (memory : Place → Value) (single : Bool) (note : Note)
          (id : Ident) (indices : List Expr) (before : NameSupply) (code : List Instr)
          (result : Expr) (after : NameSupply),
        typeOf? id.name = some phrase.value.type → (Expr.loc note id indices).Resolved typeOf? →
        Mirrors typeOf? load memory → Expr.evalIndices meaning load indices = some numbers →
        (Expr.reduce typeOf? single (.loc note id indices)).Gives before (code, result) after →
        ∃ front offset middle last, code = front ++ last ∧
          Expr.Addresses meaning typeOf? phrase.value.type id.name note.line indices numbers memory
            before front offset middle ∧
          (Expr.settle single (.loc note id [offset])).Gives middle (last, result) after) ∧
      (∀ value, phrase.value.type.OnTheWay numbers value → 0 ≤ value ∧ value ≤ intMax) ∧
      (∃ bytes, phrase.value.type.size = some bytes ∧
        phrase.value.type.byteOffset numbers + phrase.value.type.basic.width ≤ bytes) ∧
      ∀ others, DeclaredType.inBounds phrase.value.type.dims others = true → others ≠ numbers →
        (phrase.value.type.basic.width : Int) ≤
          |phrase.value.type.byteOffset numbers - phrase.value.type.byteOffset others| := by
  have fits : phrase.value.type.fits = true :=
    Grammar.declaration_fits scopes scope basic tokens phrase read
  obtain ⟨bytes, size, small⟩ := DeclaredType.fits_iff.mp fits
  constructor
  · intro typeOf? single note id indices typed full lowered
    exact Expr.access_total typed full lowered fun dimension _ =>
      DeclaredType.stride_of_fits positive fits dimension
  · intro numbers within
    have ends := DeclaredType.byteOffset_add_width size within
    refine ⟨?_, ?_, ⟨bytes, size, ends⟩, fun others otherWithin different =>
      DeclaredType.byteOffset_apart within otherWithin different⟩
    · intro Value meaning typeOf? load memory single note id indices before code result after typed
        resolved mirrors evaluated given
      obtain ⟨⟨declared, found, full⟩, allResolved⟩ := resolved
      cases typed.symm.trans found
      cases indices with
      | nil => exact (array (List.length_eq_zero_iff.mp full.symm)).elim
      | cons first rest =>
          obtain ⟨_, front, offset, middle, last, found, steps, settled, same⟩ :=
            Expr.reduce_access_gives.mp given
          cases typed.symm.trans found
          obtain ⟨own, linearizes⟩ := Expr.linearizes_of_offset steps
          obtain ⟨final, passes, keeps, offsetSettled, leaves⟩ :=
            linearizes.computes full allResolved mirrors evaluated
          exact ⟨front, offset, middle, last, same,
            ⟨own, final, linearizes, passes, keeps, offsetSettled.now, leaves⟩, settled⟩
    · intro value onTheWay
      have below := onTheWay.le_byteOffset within
      exact ⟨onTheWay.nonnegative within, by omega⟩

/-- The declarator of a grid. -/
def gridTokens : List Token :=
  [⟨.ident "a", {}⟩, ⟨.mark .openBracket, {}⟩, ⟨.int 2, {}⟩, ⟨.mark .closeBracket, {}⟩,
   ⟨.mark .openBracket, {}⟩, ⟨.int 3, {}⟩, ⟨.mark .closeBracket, {}⟩, ⟨.mark .semicolon, {}⟩]

def gridType : DeclaredType where
  basic := .int
  dims := [2, 3]

/-- The last element of the grid is at byte 20 of 24. -/
theorem grid_addressed : ∃ phrase,
    Grammar.declaration (({} : Scopes).push none) 0 .int gridTokens = .ok phrase ∧
    phrase.value.type = gridType ∧ gridType.size = some 24 ∧ gridType.byteOffset [1, 2] = 20 ∧
    (4 : Int) ≤ |gridType.byteOffset [1, 2] - gridType.byteOffset [1, 1]| ∧
    ∀ before, ∃ front offset middle, Expr.Addresses Interpretation.integers
      (fun _ => some gridType) gridType "a" 1 [.int { line := 1 } 1, .int { line := 1 } 2] [1, 2]
      (fun _ => 0) before front offset middle := by
  have accepted : ∃ phrase, Grammar.declaration (({} : Scopes).push none) 0 .int gridTokens =
      .ok phrase ∧ phrase.value.type = gridType := ⟨_, by cbv, rfl⟩
  obtain ⟨phrase, read, same⟩ := accepted
  have sizes : phrase.value.type.dims = [2, 3] := congrArg DeclaredType.dims same
  obtain ⟨total, elements⟩ := accepted_array_addressed read (by simp [sizes]) (by simp [sizes])
  obtain ⟨computes, -, -, apart⟩ := elements [1, 2] (by rw [sizes]; rfl)
  rw [same] at total computes apart
  refine ⟨phrase, read, same, rfl, rfl, apart [1, 1] rfl (by decide), fun before => ?_⟩
  have literals : ∀ index ∈ [Expr.int { line := 1 } 1, Expr.int { line := 1 } 2],
      (Expr.reduce (fun _ => some gridType) true index).Total := by
    intro index member before
    rcases List.mem_pair.mp member with rfl | rfl <;> exact ⟨_, _, rfl⟩
  obtain ⟨⟨code, result⟩, after, given⟩ := total (fun _ => some gridType) false { line := 1 }
    ⟨"a", 1⟩ [.int { line := 1 } 1, .int { line := 1 } 2] rfl rfl literals before
  have mirrors : Mirrors (fun _ => some gridType) (fun _ => some (0 : Int)) (fun _ => 0) :=
    fun _ _ _ _ _ loaded => Option.some.inj loaded
  have resolved : (Expr.loc { line := 1 } ⟨"a", 1⟩
      [.int { line := 1 } 1, .int { line := 1 } 2]).Resolved (fun _ => some gridType) :=
    ⟨⟨gridType, rfl, rfl⟩, trivial, trivial, trivial⟩
  obtain ⟨front, offset, middle, -, -, addresses, -⟩ := computes Interpretation.integers
    (fun _ => some gridType) _ _ false { line := 1 } ⟨"a", 1⟩ _ before code result after rfl
    resolved mirrors rfl given
  exact ⟨front, offset, middle, addresses⟩

end ThreeAddress
