import Backend65816.Text.Render

/-!
# Types of the source language

A type is written as its name: a builtin, an enum or struct name, `&Name` for a near pointer to a
struct, or `&dyn Name` for a reference to any type that implements a trait. `Ty.ofText` and
`Ty.text` are inverse on the types it produces, so two types are equal when their texts are.
-/

namespace Backend65816

/-- A value type. -/
inductive Ty where
  | u8
  | i8
  | u16
  | i16
  | bool
  | void
  | named (name : String)
  | pointer (target : String)
  | reference (target : String)
deriving DecidableEq, Repr, Inhabited

namespace Ty

def ofText (text : String) : Ty :=
  match text with
  | "u8" => u8
  | "i8" => i8
  | "u16" => u16
  | "i16" => i16
  | "bool" => bool
  | "void" => void
  | _ =>
    match text.toList with
    | '&' :: 'd' :: 'y' :: 'n' :: ' ' :: rest => reference (String.ofList rest)
    | '&' :: rest => pointer (String.ofList rest)
    | _ => named text

def text : Ty → String
  | u8 => "u8"
  | i8 => "i8"
  | u16 => "u16"
  | i16 => "i16"
  | bool => "bool"
  | void => "void"
  | named name => name
  | pointer target => "&" ++ target
  | reference target => "&dyn " ++ target

def unspecified : Ty := named ""

def never : Ty := named "!"

def isPointer : Ty → Bool
  | pointer _ | reference _ => true
  | _ => false

def isReference : Ty → Bool
  | reference _ => true
  | _ => false

def pointee (type : Ty) : String :=
  String.ofList (Text.trim (Text.dropLead "dyn ".toList (Text.dropLead ['&'] type.text.toList)))

def isSigned : Ty → Bool
  | i8 | i16 => true
  | _ => false

def isInteger : Ty → Bool
  | u8 | i8 | u16 | i16 => true
  | _ => false

end Ty

end Backend65816
