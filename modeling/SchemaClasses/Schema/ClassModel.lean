import SchemaClasses.Text.Basic

set_option autoImplicit false

namespace SchemaClasses.Schema

inductive Scalar where
  | string
  | int
  | long
  | double
  | bool
  | object
deriving DecidableEq

namespace Scalar

def name : Scalar → Text
  | string => "string".toList
  | int => "int".toList
  | long => "long".toList
  | double => "double".toList
  | bool => "bool".toList
  | object => "object".toList

def isValueType : Scalar → Bool
  | int | long | double | bool => true
  | string | object => false

end Scalar

inductive TypeName where
  | scalar (type : Scalar)
  | nullable (type : Scalar)
  | named (className : Text)
  | list (item : TypeName)
deriving DecidableEq

def TypeName.render : TypeName → Text
  | .scalar type => type.name
  | .nullable type => type.name ++ ['?']
  | .named className => className
  | .list item => "System.Collections.Generic.IList<".toList ++ item.render ++ ['>']

inductive Initializer where
  | literal (text : Text)
  | construct (className : Text)
  | collection (item : TypeName)
deriving DecidableEq

def Initializer.render : Initializer → Text
  | .literal text => text
  | .construct className => "new ".toList ++ className ++ "()".toList
  | .collection item =>
    "new System.Collections.ObjectModel.Collection<".toList ++ item.render ++ ">()".toList

structure PropertyModel where
  jsonName : Text
  name : Text
  type : TypeName
  initializer? : Option Initializer
  required : Bool
  description? : Option Text
deriving DecidableEq

structure ClassModel where
  name : Text
  description? : Option Text
  properties : List PropertyModel
deriving DecidableEq

end SchemaClasses.Schema
