import WireForm.Derivation.Item.Declaration

/-!
# Items from the texts of their parts

An item can be given by the texts that its declaration is put together from. Every text ends its
line, so that a comment in it ends there too; what the texts are is found out only when the whole is
read.

## Main definitions

* `Description`, `Description.text` — the texts, and the declaration
* `Description.item` — the item
-/

namespace WireForm.Derivation

/-- How fields are written. -/
inductive Layout where
  /-- In curly brackets. -/
  | named
  /-- In round brackets. -/
  | tuple
  /-- Not at all. -/
  | unit
  deriving DecidableEq, Repr

/-- The texts of a field or variant. -/
inductive MemberText where
  /-- A field without a name. -/
  | unnamed (type : String)
  /-- A field with a name. -/
  | named (name type : String)
  /-- A variant with the types of its fields, if it has a list of them, and its integer, if one is
  given. -/
  | variant (name : String) (fields : Option (List String)) (integer : Option String)
  deriving Repr

/-- The texts of an item. -/
structure Description where
  /-- The attributes, without the brackets around them. -/
  attributes : List String
  /-- The keyword that tells what the item is. -/
  keyword : String
  /-- The name. -/
  name : String
  /-- The parameters. -/
  generics : List String
  /-- The conditions on them. -/
  given : Option String
  /-- How the members are written. -/
  layout : Layout
  /-- The fields or variants. -/
  members : List MemberText
  deriving Repr

namespace Description

/-- Texts on lines of their own, with commas between them. -/
def lines (texts : List String) : String := "\n, ".intercalate texts ++ "\n"

end Description

/-- The member as it is declared. -/
def MemberText.text : MemberText → String
  | unnamed type => type
  | named name type => name ++ "\n: " ++ type
  | variant name fields integer =>
    name ++ fields.elim "" (fun types => "(" ++ Description.lines types ++ ")") ++
      integer.elim "" ("\n= " ++ ·)

namespace Description

/-- The declaration. -/
def text (d : Description) : String :=
  let attrs := String.join (d.attributes.map fun attr => "#[" ++ attr ++ "\n]\n")
  let generics := if d.generics.isEmpty then "" else "<" ++ lines d.generics ++ ">"
  let given := d.given.elim "" fun conditions => "\nwhere " ++ conditions ++ "\n"
  let members := lines (d.members.map MemberText.text)
  let body :=
    match d.layout with
    | .named => given ++ "\x7b" ++ members ++ "\x7d"
    | .tuple => "(" ++ members ++ ")" ++ given ++ ";"
    | .unit => given ++ ";"
  attrs ++ d.keyword ++ " " ++ d.name ++ "\n" ++ generics ++ body

/-- The item that is described. -/
def item (d : Description) : Except Misread Item := Item.ofText d.text

end Description

end WireForm.Derivation
