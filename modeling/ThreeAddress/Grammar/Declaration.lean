import ThreeAddress.Grammar.Phrase
import ThreeAddress.Scopes

namespace ThreeAddress.Grammar

/-!
# Declarations

```
declaration = basic dims identifier ";" | basic identifier dims ";"
dims        = ("[" number "]")*
```

A name is declared once in a block, and its storage must be an integer number of
bytes.
-/

def dims : (tokens : List Token) → MayRead (List Nat) tokens
  | [] => .error .brokenOff
  | token :: rest =>
      if token.kind = .mark .openBracket then
        match rest with
        | [] => .error .brokenOff
        | size :: afterSize =>
            match size.kind with
            | .int value => do
                let ⟨_, afterBracket, closed⟩ ← expect (.mark .closeBracket) afterSize
                let ⟨more, after, within⟩ ← dims afterBracket
                return ⟨value :: more, after, by simp only [List.length_cons]; omega⟩
            | found => .error (.unexpected (.noArraySize found) (size :: afterSize))
      else untouched [] (token :: rest)
termination_by tokens => tokens.length

def newName (scopes : Scopes) (scope : Nat) : (tokens : List Token) → Reads Ident tokens
  | [] => .error .brokenOff
  | token :: rest =>
      match token.kind with
      | .ident name =>
          if scopes.declaredIn scope name then
            .error (.unexpected (.redeclared name) (token :: rest))
          else taken ⟨name, token.line⟩ token rest
      | found => .error (.unexpected (.mismatchedName found) (token :: rest))

/-- The sizes after a name: none where some stood before it. -/
def trailingDims (name : String) (leading : List Nat) (tokens : List Token) :
    MayRead (List Nat) tokens :=
  if leading.isEmpty then dims tokens
  else
    match tokens with
    | [] => .error .brokenOff
    | token :: rest =>
        if token.kind = .mark .openBracket then
          .error (.unexpected (.repeatedDimensions name) (token :: rest))
        else untouched leading (token :: rest)

def declaration (scopes : Scopes) (scope : Nat) (basic : BasicType) (tokens : List Token) :
    Reads Declaration tokens := do
  let ⟨leading, afterLeading, first⟩ ← dims tokens
  let ⟨id, afterName, second⟩ ← newName scopes scope afterLeading
  let ⟨sizes, afterSizes, third⟩ ← trailingDims id.name leading afterName
  let declared : Declaration := ⟨⟨basic, sizes⟩, id⟩
  if declared.type.fits then
    let ⟨_, after, fourth⟩ ← expect (.mark .semicolon) afterSizes
    return ⟨declared, after, by omega⟩
  else .error (.unexpected (.arrayTooLarge id.name) afterSizes)

/-- The declarations of a block, and the scopes once they are made. -/
def declarations (scopes : Scopes) (scope : Nat) :
    (tokens : List Token) → MayRead (List Declaration × Scopes) tokens
  | [] => .error .brokenOff
  | token :: rest =>
      match token.kind with
      | .basic basic => do
          let ⟨first, afterFirst, shorter⟩ ← declaration scopes scope basic rest
          let ⟨(more, final), after, within⟩ ←
            declarations (scopes.declare scope first) scope afterFirst
          return ⟨(first :: more, final), after, by simp only [List.length_cons]; omega⟩
      | _ => untouched ([], scopes) (token :: rest)
termination_by tokens => tokens.length

end ThreeAddress.Grammar
