/-
# The forms of a report

A report is written as text, as an indented JSON document or as a binary one.
-/
import VectorQuery.Json.Cbor
import VectorQuery.Json.Printer
import VectorQuery.Report.Document
import VectorQuery.Report.Text

namespace VectorQuery

/-- The form that a report is written in. -/
inductive ReportFormat where
  | text
  | json
  | cbor
  deriving DecidableEq, Repr

namespace ReportFormat

/-- The name of a format. -/
def name : ReportFormat → String
  | .text => "text"
  | .json => "json"
  | .cbor => "cbor"

/-- The format of a name. -/
def ofName? (s : String) : Option ReportFormat := [text, json, cbor].find? (·.name == s)

end ReportFormat

/-- A report in a format; text and JSON end with a line break. -/
def Report.encode (color : Bool) (r : Report) : ReportFormat → Bytes
  | .text => .ofText (r.text color)
  | .json => .ofText (r.toJson.pretty ++ "\n")
  | .cbor => r.toJson.cbor

end VectorQuery
