import PugTokens.Layout
import PugTokens.Value.Scan

namespace PugTokens

/-! # One token

Wherever an attribute value would be accepted only an attribute value is looked
for; the layout is read between them.
-/

/-- The token at a place, among the kinds that are asked for. -/
def scan (context : Context) (valid : KindSet) (view : View) : Outcome :=
  if valid.meets Kind.value then Value.scan context valid view
  else if valid.meets Kind.layout then Layout.scan context valid view
  else .nothing context

end PugTokens
