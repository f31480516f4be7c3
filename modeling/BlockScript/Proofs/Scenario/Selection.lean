import BlockScript.Proofs.Scenario.Discovery
import BlockScript.Proofs.Text.Lines

/-!
# Picking categories

A category is the name of a folder, and a request for it may have slashes around it. What is left without these is compared part by part:
the request asks for the categories whose parts begin with its own parts, so for the folder itself and for all that is in it, but not for
a folder whose name only begins with the same letters (`asks_iff_picks`). The entries that are kept depend on nothing but the set of the
requests, and more of them keep more (`selection_by_components`).

A request of which nothing is left has one part, the empty one. So it asks for the category outside all folders, and beside it for those
whose name begins with a slash, as that of a folder does whose own name begins with a backslash (`slash_picks_folder`).
-/

namespace BlockScript.Category

variable {α : Type u} {request core category : String}

/-! ## Requests without the slashes around them -/

/-- What is left of a request without the slashes around it. -/
structure Stripped (request core : String) : Prop where
  around : ∃ i j, request.toList = List.replicate i '/' ++ core.toList ++ List.replicate j '/'
  head : core.toList.head? ≠ some '/'
  last : core.toList.getLast? ≠ some '/'

/-- Trimming slashes takes them off at both ends. -/
theorem toList_trimSlashes (request : String) :
    (trimSlashes request).toList = (request.toList.dropWhile (· == '/')).rdropWhile (· == '/') := by
  rw [trimSlashes, String.toList_ofList, List.rdropWhile]

/-- That a character is no slash, as stripping asks it. -/
theorem ne_slash_iff (c? : Option Char) : c? ≠ some '/' ↔ ∀ c ∈ c?, (c == '/') = false := by
  cases c? <;> simp

/-- A trimmed request is stripped. -/
theorem stripped_trimSlashes (request : String) : Stripped request (trimSlashes request) := by
  constructor
  · obtain ⟨i, hi⟩ : ∃ i, request.toList.takeWhile (· == '/') = List.replicate i '/' :=
      ⟨_, List.eq_replicate_iff.mpr ⟨rfl, fun c hc => by simpa using List.mem_takeWhile_imp hc⟩⟩
    obtain ⟨j, hj⟩ : ∃ j, (request.toList.dropWhile (· == '/')).rtakeWhile (· == '/') = List.replicate j '/' :=
      ⟨_, List.eq_replicate_iff.mpr ⟨rfl, fun c hc => by simpa using List.mem_rtakeWhile_imp hc⟩⟩
    refine ⟨i, j, ?_⟩
    rw [toList_trimSlashes, ← hi, ← hj, List.append_assoc, List.rdropWhile_append_rtakeWhile, List.takeWhile_append_dropWhile]
  · rw [toList_trimSlashes, ne_slash_iff]
    exact Text.head?_stripped _ _
  · rw [toList_trimSlashes, ne_slash_iff]
    exact Text.getLast?_stripped _ _

/-- There is one way to take the slashes off a request. -/
theorem stripped_iff : Stripped request core ↔ core = trimSlashes request := by
  constructor
  · rintro ⟨⟨i, j, hrequest⟩, hhead, hlast⟩
    have hslashes : ∀ n, ∀ c ∈ List.replicate n '/', (c == '/') = true := fun n c hc => by simp [List.eq_of_mem_replicate hc]
    rw [← String.toList_inj, toList_trimSlashes, hrequest,
      Text.stripped_between (hslashes i) (hslashes j) ((ne_slash_iff _).mp hhead) ((ne_slash_iff _).mp hlast)]
  · rintro rfl
    exact stripped_trimSlashes request

/-! ## Parts of names -/

/-- The pieces of a list begin with those of another one exactly if the list is the other one, or goes on after it with a separator. -/
theorem splitOn_prefix_iff {β : Type v} [BEq β] [LawfulBEq β] {sep : β} {xs ys : List β} :
    xs.splitOn sep <+: ys.splitOn sep ↔ ys = xs ∨ xs ++ [sep] <+: ys := by
  constructor
  · rintro ⟨rest, hrest⟩
    have hjoined : [sep].intercalate (xs.splitOn sep ++ rest) = ys := by rw [hrest, List.intercalate_splitOn]
    by_cases hnil : rest = []
    · rw [hnil, List.append_nil, List.intercalate_splitOn] at hjoined
      exact .inl hjoined.symm
    · rw [Text.intercalate_append (List.splitOn_ne_nil sep xs) hnil, List.intercalate_splitOn] at hjoined
      exact .inr ⟨_, hjoined⟩
  · rintro (rfl | ⟨rest, rfl⟩)
    · exact List.prefix_rfl
    · rw [List.append_assoc, List.singleton_append, List.splitOn_append_cons_self]
      exact List.prefix_append _ _

/-- The parts of a name between its slashes. A name without a slash is one part, also if it is empty. -/
def components (name : String) : List (List Char) := name.toList.splitOn '/'

/-- A request asks for a category: without the slashes around it, its parts are the first parts of the category. -/
def Asks (request category : String) : Prop := ∃ core, Stripped request core ∧ components core <+: components category

/-- A request picks the categories that its components begin. -/
theorem picks_iff : picks core category = true ↔ components core <+: components category := by
  rw [picks, Bool.or_eq_true, beq_iff_eq, List.isPrefixOf_iff_prefix, components, components, splitOn_prefix_iff,
    String.toList_inj]

/-- A request asks for the categories that the components of its core begin. -/
theorem asks_of_stripped (h : Stripped request core) : Asks request category ↔ components core <+: components category := by
  constructor
  · rintro ⟨core', hcore', hparts⟩
    rwa [stripped_iff.mp h, ← stripped_iff.mp hcore']
  · exact fun hparts => ⟨core, h, hparts⟩

/-- A request asks for what its trimmed form picks. -/
theorem asks_iff_picks : Asks request category ↔ picks (trimSlashes request) category = true := by
  rw [asks_of_stripped (stripped_trimSlashes request), picks_iff]

/-- A request of which nothing is left asks for the empty name and for those that begin with a slash. -/
theorem asks_of_stripped_empty (h : Stripped request "") :
    Asks request category ↔ category = "" ∨ category.toList.head? = some '/' := by
  rw [asks_of_stripped h, components, components, splitOn_prefix_iff, String.toList_inj]
  refine or_congr_right ?_
  cases category.toList with
  | nil => simp
  | cons c cs => simp [eq_comm]

/-! ## The entries that are kept -/

variable {requests requests' : List String} {all : Dictionary α}

/-- What is selected was there and is asked for, or nothing was asked for in particular. -/
theorem mem_select_iff {files : α} : (category, files) ∈ (select requests all).entries ↔
    (category, files) ∈ all.entries ∧ (requests = [] ∨ ∃ request ∈ requests, Asks request category) := by
  rw [select]
  split
  · rename_i hempty
    exact (and_iff_left (.inl (List.isEmpty_iff.mp hempty))).symm
  · rename_i hsome
    rw [Dictionary.filterKeys, List.mem_filter, List.any_eq_true, or_iff_right (by simpa using hsome)]
    simp only [asks_iff_picks]

/-- The order of the requests and their repetition make no difference. -/
theorem select_congr (h : ∀ request, request ∈ requests ↔ request ∈ requests') : select requests all = select requests' all := by
  have hempty : requests.isEmpty = requests'.isEmpty := by
    rw [Bool.eq_iff_iff, List.isEmpty_iff, List.isEmpty_iff, List.eq_nil_iff_forall_not_mem, List.eq_nil_iff_forall_not_mem]
    exact forall_congr' fun request => not_congr (h request)
  have htest : ∀ category, (requests.any fun request => picks (trimSlashes request) category) =
      requests'.any fun request => picks (trimSlashes request) category := by
    intro category
    rw [Bool.eq_iff_iff, List.any_eq_true, List.any_eq_true]
    exact exists_congr fun request => and_congr_left' (h request)
  simp only [select, hempty, htest]

/-- More requests select no less. -/
theorem select_sublist (h : requests ≠ []) (hsubset : requests ⊆ requests') :
    (select requests all).entries.Sublist (select requests' all).entries := by
  have h' : requests' ≠ [] := by
    rintro rfl
    exact h (List.subset_nil.mp hsubset)
  rw [select, select, if_neg (by simpa using h), if_neg (by simpa using h')]
  refine List.monotone_filter_right _ fun e he => ?_
  obtain ⟨request, hrequest, hpicks⟩ := List.any_eq_true.mp he
  exact List.any_eq_true.mpr ⟨request, hsubset hrequest, hpicks⟩

/-- What a list of requests picks. The entries that are kept are those, with what they hold, whose category one of the requests asks for.
A request asks for the categories whose parts begin with its own, once the slashes around it are gone; if nothing is left of it, these are
the category with the empty name and those whose name begins with a slash. Which entries are kept does not depend on the order of the
requests or on how often they are made, and none is lost when requests are added. -/
theorem selection_by_components (all : Dictionary α) {requests : List String} (h : requests ≠ []) :
    (∀ category files, (category, files) ∈ (select requests all).entries ↔
      (category, files) ∈ all.entries ∧ ∃ request ∈ requests, Asks request category) ∧
    (∀ request, ∃ core, Stripped request core) ∧
    (∀ request core category, Stripped request core → (Asks request category ↔ components core <+: components category)) ∧
    (∀ request category, Stripped request "" → (Asks request category ↔ category = "" ∨ category.toList.head? = some '/')) ∧
    (∀ requests', (∀ request, request ∈ requests ↔ request ∈ requests') → select requests all = select requests' all) ∧
    ∀ requests', requests ⊆ requests' → (select requests all).entries.Sublist (select requests' all).entries :=
  ⟨fun _ _ => mem_select_iff.trans (and_congr_right' (or_iff_right h)), fun request => ⟨_, stripped_trimSlashes request⟩,
    fun _ _ _ => asks_of_stripped, fun _ _ => asks_of_stripped_empty, fun _ => select_congr, fun _ => select_sublist h⟩

/-- A folder, one below it, and one whose name only begins alike. -/
def shelves : Dictionary Nat := (((∅ : Dictionary Nat).insert "control" 3).insert "control/loops" 2).insert "controls" 1

/-- A request selects a folder in the folder that it names, and none whose name it merely begins. -/
theorem selection_by_components_shelves : ["attic", "/control//"] ≠ [] ∧
    ("control/loops", 2) ∈ (select ["attic", "/control//"] shelves).entries ∧
    ∀ files, ("controls", files) ∉ (select ["attic", "/control//"] shelves).entries := by
  have hrequests : ["attic", "/control//"] ≠ [] := nofun
  obtain ⟨hkept, -, hasks, -⟩ := selection_by_components shelves hrequests
  have hattic : Stripped "attic" "attic" := stripped_iff.mpr (by decide +kernel)
  have hcontrol : Stripped "/control//" "control" := stripped_iff.mpr (by decide +kernel)
  refine ⟨hrequests, ?_, fun files hfiles => ?_⟩
  · exact (hkept _ _).mpr ⟨by decide, "/control//", by decide, (hasks _ _ _ hcontrol).mpr (by decide +kernel)⟩
  · obtain ⟨-, request, hrequest, hasked⟩ := (hkept _ _).mp hfiles
    rcases List.mem_pair.mp hrequest with rfl | rfl
    · exact absurd ((hasks _ _ _ hattic).mp hasked) (by decide +kernel)
    · exact absurd ((hasks _ _ _ hcontrol).mp hasked) (by decide +kernel)

/-- A scenario in a folder whose name begins with a backslash, and one outside all folders. -/
def lab : FileTree := .directory [("\\a", .directory [("y.scene.toml", .file .empty)]), ("x.scene.toml", .file .empty)]

/-- A request of which nothing is left picks more than the category outside all folders. -/
theorem slash_picks_folder : Stripped "/" "" ∧ (select ["/"] (Scenario.discover lab)).keys = ["", "/a"] := by
  have hfound : Scenario.discover lab = Dictionary.group FoundFile.category (lab.allFiles.filter Scenario.isScenario) :=
    Scenario.discover_of_sorted (by decide +kernel)
  refine ⟨stripped_iff.mpr (by decide +kernel), ?_⟩
  rw [hfound]
  decide +kernel

end BlockScript.Category
