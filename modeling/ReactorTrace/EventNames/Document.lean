import ReactorTrace.EventNames
import ReactorTrace.Json.Token
import ReactorTrace.Number.Shortest
import ReactorTrace.Text.Quoted

/-! Event name tables as JSON documents. A document is an object whose only member is
`event_names`, an array of strings, or an array of one such array. The table must not be empty. The
first defect in the order of the text is reported, and an empty table after all others. Reports also give
the place of a defect, and of a syntax error the wording; both are the JSON reader's own. -/

namespace ReactorTrace.EventNames

open Json

/-- What a document should have where it has something else. -/
inductive Expected
  | table
  | names
  | name
deriving DecidableEq, Inhabited

def Expected.describe : Expected → String
  | table => "struct EventNamesJSONConfig"
  | names => "a sequence"
  | name => "a string"

inductive Defect
  | malformed
  | wrongType (found : Token) (expected : Expected)
  | unknownField (name : String)
  | repeatedField
  | missingField
  | missingElement
  | noNames
deriving DecidableEq, Inhabited

/-- What the JSON reader tells of a text that it refuses: its wording of a syntax error, and the place
where it stopped. A place on line zero is left out of reports. -/
structure JsonReport where
  syntaxError : String
  line : Nat
  column : Nat
deriving DecidableEq, Inhabited

def JsonReport.locate (report : JsonReport) (description : String) : String :=
  if report.line = 0 then description
  else
    description ++ " at line " ++ report.line.repr ++ " column " ++ report.column.repr

namespace Defect

def code (text : String) : String := "\x60" ++ text ++ "\x60"

def describeNumber : Number → String
  | .integer n => "integer " ++ code n.repr
  | .float negative x => "floating point " ++ code ((if negative then "-" else "") ++ x.render)

def describeToken : Token → String
  | .openBrace => "map"
  | .openBracket => "sequence"
  | .text value => "string " ++ Text.Quoted.encode value
  | .number value => describeNumber value
  | .boolean value => "boolean " ++ code (if value then "true" else "false")
  | .null => "null"
  | .closeBrace | .closeBracket | .colon | .comma | .bad => ""

/-- The member that holds the names. -/
def fieldName : String := "event_names"

def describe (syntaxError : String) : Defect → String
  | malformed => syntaxError
  | wrongType found expected =>
    "invalid type: " ++ describeToken found ++ ", expected " ++ expected.describe
  | unknownField name => "unknown field " ++ code name ++ ", expected " ++ code fieldName
  | repeatedField => "duplicate field " ++ code fieldName
  | missingField => "missing field " ++ code fieldName
  | missingElement => "invalid length 0, expected " ++ Expected.table.describe ++ " with 1 element"
  | noNames => fieldName ++ " must not be empty"

/-- A defect in words. That a table is empty is found after the text is read, and has no place. -/
def message (report : JsonReport) (defect : Defect) : String :=
  let description := defect.describe report.syntaxError
  match defect with
  | noNames => description
  | _ => report.locate description

/-- The defect of a token in a place for something else: a value has the wrong type, and
anything else does not belong there. -/
def ofToken (expected : Expected) : Token → Defect
  | .closeBrace | .closeBracket | .colon | .comma | .bad => malformed
  | found => wrongType found expected

end Defect

/-- The strings of an array, up to its end, after its opening bracket or a comma, and the tokens
that follow. -/
def readNames : List Token → Except Defect (List String × List Token)
  | .text name :: .closeBracket :: rest => .ok ([name], rest)
  | .text name :: .comma :: rest =>
    match readNames rest with
    | .ok (names, rest) => .ok (name :: names, rest)
    | .error defect => .error defect
  | .text _ :: _ => .error .malformed
  | t :: _ => .error (.ofToken .name t)
  | [] => .error .malformed

def readArray : List Token → Except Defect (List String × List Token)
  | .openBracket :: .closeBracket :: rest => .ok ([], rest)
  | .openBracket :: rest => readNames rest
  | t :: _ => .error (.ofToken .names t)
  | [] => .error .malformed

/-- The end of an object that already has its member. -/
def readObjectEnd : List Token → Except Defect (List Token)
  | .closeBrace :: rest => .ok rest
  | .comma :: .text key :: _ =>
    .error (if key = Defect.fieldName then .repeatedField else .unknownField key)
  | _ => .error .malformed

def readArrayEnd : List Token → Except Defect (List Token)
  | .closeBracket :: rest => .ok rest
  | _ => .error .malformed

/-- The member of an object after its key. -/
def readMember : List Token → Except Defect (List String × List Token)
  | .colon :: rest => do
    let (names, rest) ← readArray rest
    let rest ← readObjectEnd rest
    return (names, rest)
  | _ => .error .malformed

def readTable : List Token → Except Defect (List String × List Token)
  | .openBrace :: .closeBrace :: _ => .error .missingField
  | .openBrace :: .text key :: rest =>
    if key = Defect.fieldName then readMember rest else .error (.unknownField key)
  | .openBrace :: _ => .error .malformed
  | .openBracket :: .closeBracket :: _ => .error .missingElement
  | .openBracket :: rest => do
    let (names, rest) ← readArray rest
    let rest ← readArrayEnd rest
    return (names, rest)
  | t :: _ => .error (.ofToken .table t)
  | [] => .error .malformed

def ofTokens (tokens : List Token) : Except Defect EventNames :=
  match readTable tokens with
  | .error defect => .error defect
  | .ok (_, _ :: _) => .error .malformed
  | .ok ([], []) => .error .noNames
  | .ok (names, []) => .ok ⟨names⟩

def parse (text : String) : Except Defect EventNames := ofTokens (Token.scan text.toList)

end ReactorTrace.EventNames
