import PhpMembers.Classes.Table
import PhpMembers.Proofs.Printing.Pieces

/-! # Skeletons of class-likes

A skeleton says of a class-like what its entry in a table says, and no more: names, and which members are
static. It can be written down as source text.

* `MemberSkeleton`, `ClassSkeleton` : the skeletons.
* `ClassSkeleton.pieces`, `sourceOf` : how they are written down.
* `ClassSkeleton.entry` : the entry of a class-like with the skeleton.
* `ClassSkeleton.tidy` : its tokens can be told apart. -/

namespace PhpMembers

/-! ## (1) Skeletons -/

/-- How a member is declared. -/
inductive MemberForm
  /-- As a method. -/
  | method (isStatic : Bool)
  /-- As a property. -/
  | property (isStatic : Bool)
  /-- As a constant. -/
  | constant
  /-- As a case of an enum. -/
  | enumCase
deriving DecidableEq

/-- A member. -/
structure MemberSkeleton where
  /-- How it is declared. -/
  form : MemberForm
  /-- Its name, which may be a reserved word. -/
  name : Word
deriving DecidableEq

/-- What kind of class-like it is, and what is above it. -/
inductive ClassHead
  /-- A class. -/
  | plain (parent : Option PlainWord) (interfaces : List PlainWord)
  /-- An interface. -/
  | interface (parents : List PlainWord)
  /-- A trait. -/
  | trait
  /-- An enum. -/
  | enum (interfaces : List PlainWord)
deriving DecidableEq

/-- A class-like. -/
structure ClassSkeleton where
  /-- Its name. -/
  name : PlainWord
  /-- Its kind and what is above it. -/
  head : ClassHead
  /-- The traits that it uses. -/
  traits : List PlainWord
  /-- Its members in the order of their declaration. -/
  members : List MemberSkeleton
deriving DecidableEq

/-! ## (2) Source text -/

namespace Piece

/-- The word `class`. -/
def classKw : Piece := keyword .classKw ['c', 'l', 'a', 's', 's']

/-- The word `interface`. -/
def interfaceKw : Piece := keyword .interfaceKw ['i', 'n', 't', 'e', 'r', 'f', 'a', 'c', 'e']

/-- The word `trait`. -/
def traitKw : Piece := keyword .traitKw ['t', 'r', 'a', 'i', 't']

/-- The word `enum`. -/
def enumKw : Piece := keyword .enumKw ['e', 'n', 'u', 'm']

/-- The word `extends`. -/
def extendsKw : Piece := keyword .extendsKw ['e', 'x', 't', 'e', 'n', 'd', 's']

/-- The word `implements`. -/
def implementsKw : Piece := keyword .implementsKw ['i', 'm', 'p', 'l', 'e', 'm', 'e', 'n', 't', 's']

/-- The word `use`. -/
def useKw : Piece := keyword .useKw ['u', 's', 'e']

/-- The word `public`. -/
def publicKw : Piece := keyword .publicKw ['p', 'u', 'b', 'l', 'i', 'c']

/-- The word `static`. -/
def staticKw : Piece := keyword .staticKw ['s', 't', 'a', 't', 'i', 'c']

/-- The word `function`. -/
def functionKw : Piece := keyword .functionKw ['f', 'u', 'n', 'c', 't', 'i', 'o', 'n']

/-- The word `const`. -/
def constKw : Piece := keyword .constKw ['c', 'o', 'n', 's', 't']

/-- The word `case`. -/
def caseKw : Piece := keyword .caseKw ['c', 'a', 's', 'e']

end Piece

/-- The modifiers of a method or property. -/
def modifierPieces (isStatic : Bool) : List Piece :=
  if isStatic then [.publicKw, .staticKw] else [.publicKw]

/-- How a member is written: `public function m() \x7b\x7d`, `public $p;`, `const C = 1;` or `case X;`, and
`static` behind `public` where it applies. -/
def MemberSkeleton.pieces (m : MemberSkeleton) : List Piece :=
  match m.form with
  | .method isStatic =>
    modifierPieces isStatic ++ [.functionKw, (Piece.word m.name).tight, Piece.lParen.tight, .rParen,
      Piece.lBrace.tight, .rBrace]
  | .property isStatic => modifierPieces isStatic ++ [(Piece.sigiled m.name).tight, .semicolon]
  | .constant => [.constKw, .word m.name, .equals, Piece.one.tight, .semicolon]
  | .enumCase => [.caseKw, (Piece.word m.name).tight, .semicolon]

/-- Names separated by commas. -/
def namePieces : List PlainWord → List Piece
  | [] => []
  | [w] => [.name w]
  | w :: ws => (Piece.name w).tight :: .comma :: namePieces ws

/-- Names behind a reserved word, if there are any. -/
def clausePieces (keyword : Piece) (names : List PlainWord) : List Piece :=
  if names = [] then [] else keyword :: namePieces names

/-- How the use of a trait is written: `use T;`. -/
def usePieces (w : PlainWord) : List Piece := [.useKw, (Piece.name w).tight, .semicolon]

namespace ClassHead

/-- The word in front of the name. -/
def keyword : ClassHead → Piece
  | plain _ _ => .classKw
  | interface _ => .interfaceKw
  | trait => .traitKw
  | enum _ => .enumKw

/-- The names behind `extends`. -/
def extended : ClassHead → List PlainWord
  | plain parent _ => parent.toList
  | interface parents => parents
  | trait => []
  | enum _ => []

/-- The names behind `implements`. -/
def implemented : ClassHead → List PlainWord
  | plain _ interfaces => interfaces
  | interface _ => []
  | trait => []
  | enum interfaces => interfaces

end ClassHead

/-- How a class-like is written. -/
def ClassSkeleton.pieces (s : ClassSkeleton) : List Piece :=
  [s.head.keyword, .name s.name] ++ clausePieces .extendsKw s.head.extended
    ++ clausePieces .implementsKw s.head.implemented ++ [.lBrace] ++ s.traits.flatMap usePieces
    ++ s.members.flatMap MemberSkeleton.pieces ++ [.rBrace]

/-- A source text with the class-likes, one after the other. -/
def sourceOf (skeletons : List ClassSkeleton) : Text :=
  opened ((skeletons.flatMap ClassSkeleton.pieces).flatMap Piece.written)

example : sourceOf
      [⟨⟨⟨['A'], rfl⟩, rfl, by decide, by decide⟩,
        .plain (some ⟨⟨['B'], rfl⟩, rfl, by decide, by decide⟩) [],
        [⟨⟨['T'], rfl⟩, rfl, by decide, by decide⟩],
        [⟨.method true, ⟨['n', 'e', 'w'], rfl⟩⟩, ⟨.constant, ⟨['i', 'f'], rfl⟩⟩]⟩] =
    "<?php class A extends B \x7b use T; public static function new() \x7b\x7d const if = 1; \x7d ".toList := rfl

/-! ## (3) Entries -/

/-- The class that a plain word means in the global namespace. -/
def PlainWord.className (w : PlainWord) : ClassName := ⟨w.text⟩

/-- The kind of node that declares the member. -/
def MemberForm.declaration : MemberForm → Kind
  | method _ => .methodDecl
  | property _ => .propertyDecl
  | constant => .classConstDecl
  | enumCase => .enumCase

/-- The entry of a member. -/
def MemberSkeleton.entry (owner : ClassName) (m : MemberSkeleton) : MemberEntry :=
  match m.form with
  | .method isStatic => ⟨.method, ⟨m.name.text⟩, isStatic, .unknown⟩
  | .property isStatic => ⟨.property, ⟨m.name.text⟩, isStatic, .unknown⟩
  | .constant => ⟨.constant, ⟨m.name.text⟩, true, .unknown⟩
  | .enumCase => ⟨.constant, ⟨m.name.text⟩, true, .fixed (.object owner)⟩

namespace ClassHead

/-- The kind of class-like. -/
def kind : ClassHead → ClassKind
  | plain _ _ => .plain
  | interface _ => .interface
  | trait => .trait
  | enum _ => .enum

/-- The superclass. -/
def parent : ClassHead → Option PlainWord
  | plain parent _ => parent
  | _ => none

/-- The interfaces that are implemented or, for an interface, extended. -/
def interfaces : ClassHead → List PlainWord
  | plain _ interfaces => interfaces
  | interface parents => parents
  | trait => []
  | enum interfaces => interfaces

end ClassHead

/-- The members of a class-like by the way in which they are declared, each group in the order of the
declarations. -/
def ClassSkeleton.grouped (s : ClassSkeleton) (declaration : Kind) : List MemberSkeleton :=
  s.members.filter (·.form.declaration == declaration)

/-- The entry of a class-like: its methods come first, then properties, constants and cases. -/
def ClassSkeleton.entry (s : ClassSkeleton) : ClassEntry where
  name := s.name.className
  kind := s.head.kind
  parent := s.head.parent.map PlainWord.className
  interfaces := s.head.interfaces.map PlainWord.className
  traits := s.traits.map PlainWord.className
  members := [.methodDecl, .propertyDecl, .classConstDecl, .enumCase].flatMap fun declaration =>
    (s.grouped declaration).map (·.entry s.name.className)

/-! ## (4) What is written is tidy -/

/-- A member is written tidily. -/
theorem MemberSkeleton.tidy (m : MemberSkeleton) : Tidy m.pieces := by
  have modifiers (isStatic : Bool) : Tidy (modifierPieces isStatic) := by
    cases isStatic with
    | false => exact .spaced rfl .nil
    | true => exact .spaced rfl (.spaced rfl .nil)
  obtain ⟨form, w⟩ := m
  cases form with
  | method isStatic =>
      exact (modifiers isStatic).append (.spaced rfl (.mark (apart_singleton rfl)
        (.mark (apart_singleton rfl) (.spaced rfl (.mark (apart_singleton rfl) (.spaced rfl .nil))))))
  | property isStatic =>
      exact (modifiers isStatic).append (.mark (apart_singleton rfl) (.spaced rfl .nil))
  | constant =>
      exact .spaced rfl (.spaced rfl (.spaced rfl (.mark (apart_singleton rfl) (.spaced rfl .nil))))
  | enumCase => exact .spaced rfl (.mark (apart_singleton rfl) (.spaced rfl .nil))

/-- Names are written tidily. -/
theorem tidy_namePieces (names : List PlainWord) : Tidy (namePieces names) := by
  induction names using namePieces.induct with
  | case1 => exact .nil
  | case2 w => exact .spaced rfl .nil
  | case3 w ws _ ih =>
      rw [namePieces]
      · exact .mark (apart_singleton rfl) (.spaced rfl ih)
      · assumption

/-- A clause is written tidily. -/
theorem tidy_clausePieces {keyword : Piece} (spaced : keyword.spaced = true) (names : List PlainWord) :
    Tidy (clausePieces keyword names) := by
  rw [clausePieces]
  split
  · exact .nil
  · exact .spaced spaced (tidy_namePieces names)

/-- A class-like is written tidily. -/
theorem ClassSkeleton.tidy (s : ClassSkeleton) : Tidy s.pieces := by
  have header : Tidy [s.head.keyword, .name s.name] := by
    cases s.head <;> exact .spaced rfl (.spaced rfl .nil)
  have uses : Tidy (s.traits.flatMap usePieces) :=
    .flatMap fun w => .spaced rfl (.mark (apart_singleton rfl) (.spaced rfl .nil))
  exact (((((header.append (tidy_clausePieces rfl _)).append (tidy_clausePieces rfl _)).append
    (.spaced rfl .nil)).append uses).append (.flatMap MemberSkeleton.tidy)).append (.spaced rfl .nil)

end PhpMembers
