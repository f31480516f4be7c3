import BlockScript.Dictionary

/-!
# Categories

Scenarios are sorted into categories named by folders. A request picks the category of its name and all those below it.
-/

namespace BlockScript.Category

/-- A request without the slashes around it. -/
def trimSlashes (request : String) : String :=
  String.ofList ((request.toList.dropWhile (· == '/')).reverse.dropWhile (· == '/')).reverse

/-- Whether a request picks a category: it is the category, or the folder of it. -/
def picks (request category : String) : Bool :=
  category == request || (request.toList ++ ['/']).isPrefixOf category.toList

/-- The name to show for a category; scenarios outside all folders have the empty one. -/
def label (category : String) : String := if category.isEmpty then "(root)" else category

/-- The entries picked by at least one request, or all where nothing is requested. -/
def select (requests : List String) (all : Dictionary α) : Dictionary α :=
  if requests.isEmpty then all
  else all.filterKeys fun category => requests.any fun r => picks (trimSlashes r) category

/-- The requests, without the slashes around them, that pick nothing. -/
def unmatched (requests : List String) (all : Dictionary α) : List String :=
  (requests.map trimSlashes).filter fun r => !all.keys.any (picks r)

end BlockScript.Category
