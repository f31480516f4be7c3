import BlockScript.Text.Lines
import Mathlib.Data.List.DropRight
import Mathlib.Data.List.Infix

/-!
# Lines and blanks

What trimming leaves has no white space at its ends, and trimming leaves such a text as it is (`bare_trim`, `trim_of_bare`). A line is
tidy if nothing is lost when a text is trimmed, cut into lines and each of them trimmed again. Tidy lines that are joined by line feeds
are cut apart again where they were joined (`lines_intercalate`).
-/

namespace BlockScript.Text

variable {cs pattern line : List Char} {ls : List (List Char)}

/-- Looking for a text finds it wherever it stands. -/
theorem occursIn_iff (pattern cs : List Char) : occursIn pattern cs = true ↔ pattern <:+: cs := by
  induction cs with
  | nil => rw [occursIn, List.isEmpty_iff, List.infix_nil]
  | cons c cs ih => rw [occursIn, Bool.or_eq_true, ih, List.isPrefixOf_iff_prefix, List.infix_cons_iff]

/-! ## Trimming -/

/-- What is left between the characters of a kind does not begin with one of them. -/
theorem head?_stripped (kind : Char → Bool) (cs : List Char) :
    ∀ c ∈ ((cs.dropWhile kind).rdropWhile kind).head?, kind c = false := by
  intro c hc
  obtain ⟨rest, hrest⟩ : (cs.dropWhile kind).rdropWhile kind <+: cs.dropWhile kind := List.rdropWhile_prefix _ _
  have hhead : (cs.dropWhile kind).head? = some c := by
    rw [← hrest, List.head?_append, Option.mem_def.mp hc, Option.some_or]
  have hfirst := List.head?_dropWhile_not kind cs
  rwa [hhead] at hfirst

/-- What is left between the characters of a kind does not end in one of them. -/
theorem getLast?_stripped (kind : Char → Bool) (cs : List Char) :
    ∀ c ∈ ((cs.dropWhile kind).rdropWhile kind).getLast?, kind c = false := by
  intro c hc
  obtain ⟨hne, rfl⟩ := List.mem_getLast?_eq_getLast hc
  exact Bool.eq_false_iff.mpr (List.rdropWhile_last_not kind (cs.dropWhile kind) hne)

/-- The characters of a kind are taken off both ends, and no more than these. -/
theorem stripped_between {kind : Char → Bool} {before after : List Char} (hbefore : ∀ c ∈ before, kind c = true)
    (hafter : ∀ c ∈ after, kind c = true) (hhead : ∀ c ∈ cs.head?, kind c = false) (hlast : ∀ c ∈ cs.getLast?, kind c = false) :
    ((before ++ cs ++ after).dropWhile kind).rdropWhile kind = cs := by
  rw [List.append_assoc, List.dropWhile_append_of_pos hbefore]
  cases cs with
  | nil => rw [List.nil_append, List.dropWhile_eq_nil_iff.mpr hafter, List.rdropWhile_nil]
  | cons c cs =>
    rw [List.cons_append, List.dropWhile_cons_of_neg (by simp [hhead c rfl]), ← List.cons_append, List.rdropWhile,
      List.reverse_append, List.dropWhile_append_of_pos (by simpa using hafter), ← List.rdropWhile, List.rdropWhile_eq_self_iff]
    intro hne
    simp [hlast _ (List.getLast?_eq_getLast_of_ne_nil hne)]

/-- There is no white space at either end of a text. -/
structure Bare (cs : List Char) : Prop where
  head : ∀ c ∈ cs.head?, isSpace c = false
  last : ∀ c ∈ cs.getLast?, isSpace c = false

/-- Trimming takes characters away and adds none. -/
theorem trim_sublist (cs : List Char) : (trim cs).Sublist cs :=
  (List.rdropWhile_prefix isSpace _).sublist.trans (List.dropWhile_suffix isSpace).sublist

/-- What is trimmed is bare at both ends. -/
theorem bare_trim (cs : List Char) : Bare (trim cs) := ⟨head?_stripped isSpace cs, getLast?_stripped isSpace cs⟩

/-- What is bare is trimmed already. -/
theorem trim_of_bare (h : Bare cs) : trim cs = cs := by
  have hstripped := stripped_between (List.forall_mem_nil _) (List.forall_mem_nil _) h.head h.last
  rwa [List.nil_append, List.append_nil] at hstripped

/-! ## Lines -/

/-- A line that is there, that has no white space at its ends, and that is one line. -/
structure Tidy (line : List Char) : Prop extends Bare line where
  ne_nil : line ≠ []
  single : '\n' ∉ line

/-- A line that does not end in white space, and that is one line. -/
structure Settled (line : List Char) : Prop where
  last : ∀ c ∈ line.getLast?, isSpace c = false
  single : '\n' ∉ line

/-- A line is settled if it is bare at its end and has no line break. -/
theorem settled_iff (line : List Char) :
    Settled line ↔ (line.getLast?.all fun c => !isSpace c) = true ∧ '\n' ∉ line := by
  rw [Option.all_eq_true]
  simp only [Bool.not_eq_true']
  exact ⟨fun h => ⟨h.last, h.single⟩, fun h => ⟨h.1, h.2⟩⟩

instance (line : List Char) : Decidable (Settled line) := decidable_of_iff' _ (settled_iff line)

/-- A line with a beginning that is no white space is tidy if it is settled. -/
theorem tidy_iff_settled {c : Char} (hhead : line.head? = some c) (hc : isSpace c = false) : Tidy line ↔ Settled line := by
  constructor
  · exact fun h => ⟨h.last, h.single⟩
  · intro h
    have hbare : Bare line := ⟨fun d hd => (Option.some_inj.mp (hhead.symm.trans hd)) ▸ hc, h.last⟩
    exact ⟨hbare, fun hnil => by simp [hnil] at hhead, h.single⟩

/-- Dropping a carriage return adds nothing. -/
theorem dropReturn_sublist (line : List Char) : (dropReturn line).Sublist line := by
  rw [dropReturn]
  split
  · exact List.dropLast_sublist line
  · exact List.Sublist.refl line

/-- A carriage return is white space, so a line without white space at its end has none to lose. -/
theorem dropReturn_of_bare (h : Bare line) : dropReturn line = line := by
  rw [dropReturn, if_neg]
  intro hlast
  exact absurd (h.last '\r' hlast) (by decide)

/-- Text without a line feed is one line, unless there is none. -/
theorem linesFrom_of_not_mem (h : '\n' ∉ cs) (line : List Char) :
    linesFrom line cs = if (line ++ cs).isEmpty then [] else [line ++ cs] := by
  induction cs generalizing line with
  | nil => rw [linesFrom, List.append_nil]
  | cons c cs ih =>
    obtain ⟨hc, hcs⟩ := not_or.mp (mt List.mem_cons.mpr h)
    rw [linesFrom, ih hcs, List.append_assoc, List.singleton_append]
    exact fun heq => hc heq.symm

/-- The first line feed ends the first line. -/
theorem linesFrom_append (h : '\n' ∉ cs) (line rest : List Char) :
    linesFrom line (cs ++ '\n' :: rest) = dropReturn (line ++ cs) :: linesFrom [] rest := by
  induction cs generalizing line with
  | nil => rw [List.nil_append, linesFrom, List.append_nil]
  | cons c cs ih =>
    obtain ⟨hc, hcs⟩ := not_or.mp (mt List.mem_cons.mpr h)
    rw [List.cons_append, linesFrom, ih hcs, List.append_assoc, List.singleton_append]
    exact fun heq => hc heq.symm

/-- No line holds a line feed. -/
theorem not_mem_linesFrom (hline : '\n' ∉ line) (cs : List Char) : ∀ l ∈ linesFrom line cs, '\n' ∉ l := by
  fun_induction linesFrom line cs with
  | case1 line hempty => exact List.forall_mem_nil _
  | case2 line hline' => simpa using hline
  | case3 line rest ih =>
    refine List.forall_mem_cons.mpr ⟨fun h => hline ((dropReturn_sublist line).subset h), ih List.not_mem_nil⟩
  | case4 line c rest hc ih =>
    refine ih fun h => ?_
    rcases List.mem_append.mp h with h | h
    · exact hline h
    · exact hc (List.mem_singleton.mp h).symm

theorem not_mem_lines (cs : List Char) : ∀ l ∈ lines cs, '\n' ∉ l := not_mem_linesFrom List.not_mem_nil cs

/-! ## Joining -/

theorem intercalate_append {α : Type u} {sep : List α} {ls ms : List (List α)} (hls : ls ≠ []) (hms : ms ≠ []) :
    sep.intercalate (ls ++ ms) = sep.intercalate ls ++ sep ++ sep.intercalate ms := by
  induction ls with
  | nil => exact absurd rfl hls
  | cons l ls ih =>
    by_cases hnil : ls = []
    · rw [hnil, List.singleton_append, List.intercalate_cons_of_ne_nil hms, List.intercalate_singleton]
    · have hne : ls ++ ms ≠ [] := List.append_ne_nil_of_left_ne_nil hnil ms
      rw [List.cons_append, List.intercalate_cons_of_ne_nil hne, ih hnil, List.intercalate_cons_of_ne_nil hnil]
      simp only [List.append_assoc]

/-- Parts that are not empty are joined to nothing only if there are none. -/
theorem intercalate_eq_nil (h : ∀ l ∈ ls, l ≠ []) (hnil : ['\n'].intercalate ls = []) : ls = [] := by
  match ls, h, hnil with
  | [], _, _ => rfl
  | [l], h, hnil => exact absurd (List.intercalate_singleton.symm.trans hnil) (h l List.mem_cons_self)
  | l :: l' :: ls, _, hnil => simp [List.intercalate_cons_cons] at hnil

/-- Tidy lines are joined to a bare text. -/
theorem bare_intercalate (h : ∀ l ∈ ls, Tidy l) : Bare (['\n'].intercalate ls) := by
  induction ls with
  | nil => exact ⟨nofun, nofun⟩
  | cons l ls ih =>
    obtain ⟨hl, hls⟩ := List.forall_mem_cons.mp h
    cases ls with
    | nil => exact List.intercalate_singleton.symm ▸ hl.toBare
    | cons l' ls =>
      rw [List.intercalate_cons_cons, List.append_assoc]
      obtain ⟨c, hc⟩ := Option.ne_none_iff_exists'.mp (mt List.head?_eq_none_iff.mp hl.ne_nil)
      have hrest : ['\n'].intercalate (l' :: ls) ≠ [] := by
        intro hnil
        nomatch intercalate_eq_nil (fun l hl => (hls l hl).ne_nil) hnil
      obtain ⟨d, hd⟩ := Option.ne_none_iff_exists'.mp (mt List.getLast?_eq_none_iff.mp hrest)
      constructor
      · rw [List.head?_append, hc, Option.some_or, ← hc]
        exact hl.head
      · rw [List.getLast?_append, List.getLast?_append, hd, Option.some_or, Option.some_or, ← hd]
        exact (ih hls).last

/-- Tidy lines that are joined are cut apart where they were joined. -/
theorem lines_intercalate (h : ∀ l ∈ ls, Tidy l) : lines (['\n'].intercalate ls) = ls := by
  induction ls with
  | nil => rfl
  | cons l ls ih =>
    obtain ⟨hl, hls⟩ := List.forall_mem_cons.mp h
    cases ls with
    | nil => rw [List.intercalate_singleton, lines, linesFrom_of_not_mem hl.single, List.nil_append, if_neg (by simp [hl.ne_nil])]
    | cons l' ls =>
      rw [List.intercalate_cons_cons, List.append_assoc, List.singleton_append, lines, linesFrom_append hl.single, List.nil_append,
        dropReturn_of_bare hl.toBare]
      exact congrArg (l :: ·) (ih hls)

end BlockScript.Text
