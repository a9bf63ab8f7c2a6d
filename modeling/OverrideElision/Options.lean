import OverrideElision.NameSet

/-! # Options -/

namespace OverrideElision

/-- What a user may set: the tags that keep a method out of the analysis, for methods that are
reached in other ways than by their name, and the name by which `@suppress` marks a duplicate
definition as intended. -/
structure Options where
  keepMarkers : NameSet := .ofList ["wizaction"]
  duplicateSuppression : String := "duplicate"

end OverrideElision
