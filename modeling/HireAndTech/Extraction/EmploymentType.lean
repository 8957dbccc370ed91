import HireAndTech.Catalogue.Normalization

/-!
# Employment types and workplaces

The module {lit}`app.jobs.parsing.employment_type`: the first label of a fixed order whose words
stand in a text.

Main results:

- Definitions {lit}`normalizeEmploymentType` and {lit}`normalizeRemoteType`.
-/

namespace HireAndTech
namespace Extraction

open Text Catalogue

variable (u : Unicode)

/-- `[ _-]?`. -/
def joint : Regex :=
  .optional (.satisfy fun c => c ∈ [' ', '_', '-'])

/-- The patterns of `normalize_employment_type` in their order, each with its label. -/
def employmentPatterns : List (Regex × String) :=
  [(wholeWords u [.seq (.text "intern") (.optional (.text "ship"))], "internship"),
    (wholeWords u [.seq (.text "contract") (.optional (.text "or")), .text "c2c",
      .text "corp-to-corp", .text "w2 contract", .text "freelance"], "contract"),
    (wholeWords u [.seq (.text "part") (.seq joint (.text "time"))], "part-time"),
    (wholeWords u [.seq (.text "full") (.seq joint (.text "time")), .text "permanent",
      .text "direct hire"], "full-time"),
    (wholeWords u [.seq (.text "temp") (.optional (.text "orary"))], "temporary")]

/-- `normalize_employment_type`. -/
def normalizeEmploymentType (text : String) : Option String :=
  let lowered := u.casefold text.toList
  ((employmentPatterns u).find? fun pattern => pattern.1.search lowered).map (·.2)

/-- One of several words stands in a text. -/
def hasWord (words : List String) (text : List Char) : Bool :=
  words.any fun word => word.toList <:+: text

/-- `normalize_remote_type`. -/
def normalizeRemoteType (text : String) (remoteFlag : Option Bool) : Option RemoteType :=
  let lowered := u.casefold text.toList
  let flagged := if remoteFlag = some false then some .onSite else none
  if remoteFlag = some true then some .remote
  else if text = "" then flagged
  else if hasWord ["hybrid"] lowered then some .hybrid
  else if hasWord ["remote", "telecommute", "work from home", "wfh"] lowered then some .remote
  else if hasWord ["on-site", "onsite", "in-office", "in office"] lowered then some .onSite
  else flagged

end Extraction
end HireAndTech
