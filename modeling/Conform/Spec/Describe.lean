import Conform.Spec.Basic
import Conform.Term.Literal

/-!
# Texts of specifications

`Spec.describe` is the label under which a specification is expected in messages.  The *explicit
form* spells the specification out, without what it cannot show: predicates, conversions, and the
meaning of names, which may be recursive.
-/

namespace Conform

namespace Spec

mutual

/-- The label of a specification. -/
def describe : Spec → List Char
  | string => "string".toList
  | number => "number".toList
  | integer => "integer".toList
  | boolean => "boolean".toList
  | any => "any".toList
  | array _ => "array".toList
  | list _ => "list".toList
  | object _ => "object".toList
  | proplist _ => "proplist".toList
  | member literals =>
    enclosed "one of [".toList (commaSeparated (literals.map Term.literal)) [']']
  | satisfy _ description | convert _ description => description.toList
  | pipeline stages => [' ', '|', '>', ' '].intercalate (describeStages stages)
  | named name => name.toList

/-- The labels of the stages of a pipeline. -/
def describeStages : List Spec → List (List Char)
  | [] => []
  | stage :: stages => stage.describe :: describeStages stages

end

/-- The label of a specification, as a string. -/
def label (spec : Spec) : String := String.ofList spec.describe

/-- A record of an explicit form: its name and its parts by name, in braces. -/
def explicitRecord (name : String) (parts : List (String × List Char)) : List Char :=
  name.toList ++ enclosed [' ', '\x7b', ' ']
    (commaSeparated (parts.map fun part => part.1.toList ++ ':' :: ' ' :: part.2)) [' ', '\x7d']

/-- Explicit forms in brackets. -/
def explicitRow (texts : List (List Char)) : List Char :=
  enclosed ['['] (commaSeparated texts) [']']

mutual

/-- The explicit form of a specification. -/
def explicit : Spec → List Char
  | string => "string".toList
  | number => "number".toList
  | integer => "integer".toList
  | boolean => "boolean".toList
  | any => "any".toList
  | array element => Term.variant "Array" element.explicit
  | list element => Term.variant "List" element.explicit
  | object fields =>
    Term.variant "Object"
      (explicitRecord "Fields" [("fields", explicitRow (explicitFields fields))])
  | proplist fields =>
    Term.variant "Proplist"
      (explicitRecord "Fields" [("fields", explicitRow (explicitFields fields))])
  | member literals => Term.variant "Member" (Term.explicitList literals)
  | satisfy _ description =>
    explicitRecord "Satisfy" [("description", Text.quoted description)]
  | convert _ description =>
    explicitRecord "Convert" [("description", Text.quoted description)]
  | pipeline stages => Term.variant "Pipeline" (explicitRow (explicitStages stages))
  | named name => explicitRecord "Named" [("name", Text.quoted name)]

/-- The explicit forms of a row of fields. -/
def explicitFields : List Field → List (List Char)
  | [] => []
  | .required key spec :: fields =>
    explicitRecord "Required" [("key", Text.quoted key), ("spec", spec.explicit)]
      :: explicitFields fields
  | .optional key spec default :: fields =>
    explicitRecord "Optional"
        [("key", Text.quoted key), ("spec", spec.explicit), ("default", default.explicit)]
      :: explicitFields fields
  | .rest _ :: fields => "Rest".toList :: explicitFields fields

/-- The explicit forms of the stages of a pipeline. -/
def explicitStages : List Spec → List (List Char)
  | [] => []
  | stage :: stages => stage.explicit :: explicitStages stages

end

end Spec

end Conform
