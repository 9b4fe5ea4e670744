import DocComments.Text

/-! Declarations as a single source line shows them. -/

namespace DocComments

inductive TypeKind where
  | classType
  | structType
  | interfaceType
  | enumType
  deriving DecidableEq, Repr

namespace TypeKind

def keyword : TypeKind → Text
  | classType => "class".toList
  | structType => "struct".toList
  | interfaceType => "interface".toList
  | enumType => "enum".toList

def ofKeyword? (word : Text) : Option TypeKind :=
  [classType, structType, interfaceType, enumType].find? fun kind => kind.keyword == word

theorem ofKeyword?_eq_some_iff (word : Text) (kind : TypeKind) :
    ofKeyword? word = some kind ↔ word = kind.keyword := by
  constructor
  · intro found
    have same := List.find?_some found
    exact (eq_of_beq same).symm
  · rintro rfl
    cases kind <;> decide

end TypeKind

inductive MemberKind where
  | type
  | method
  | constructor
  | property
  deriving DecidableEq, Repr

namespace MemberKind

def filed : MemberKind → MemberKind
  | constructor => method
  | kind => kind

end MemberKind

inductive Declaration where
  | type (kind : TypeKind) (name : Text)
  | method (name : Text) (returnType : Option Text) (params : Text)
  | property (name : Text)
  deriving DecidableEq, Repr

namespace Declaration

def name : Declaration → Text
  | type _ name => name
  | method name _ _ => name
  | property name => name

end Declaration

end DocComments
