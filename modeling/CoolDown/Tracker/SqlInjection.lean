import CoolDown.Library.SqlText
import CoolDown.Tracker.TrackerDBManager

/-!
# Statements with a peer's strings in them

`search_percentage_raw` and `update_file_owner_info` put their statements together from strings that
have come with a request, a quote on either side. The other statements bind theirs with `use`.

## The model

A `Statement` is one of the two, with what goes into it. It is `Safe` where the server reads the strings
as literals and the rest as if they were empty. `template` is the same text as tokens.

## What is proved

* `Statement.render_template`: the template says what the code writes.
* `Statement.safe_iff`: a statement is safe just when all its strings are faithful.
* `Search.safe_of_isPlain`, `safe_of_plain`: what the model of the server takes for granted.
* `Statement.injected`: a file that everybody has.
-/

namespace CoolDown.Tracker

open Library Wire SqlText

/-- A statement with strings from outside in it. -/
inductive Statement where
  /-- The one of `search_percentage_raw`. -/
  | search (q : Search)
  /-- The one of `update_file_owner_info`. -/
  | update (info : FileOwnerInfo)

namespace Statement

/-- Its text. -/
def text : Statement → Bytes
  | search q => q.text
  | update info => updateText info

/-- The strings in it, in their order. -/
def strings : Statement → List Bytes
  | search q => q.fileid :: q.clientids
  | update info => [info.fileid, info.clientid]

/-- The statement with nothing in these places. -/
def blank : Statement → Statement
  | search q => search { q with fileid := [], clientids := q.clientids.map fun _ => [] }
  | update info => update { info with fileid := [], clientid := [] }

/-- The strings are read as literals, and outside of them nothing depends on what is in them. -/
structure Safe (s : Statement) : Prop where
  strings : (tokens s.text).map literals = some s.strings
  outside : (tokens s.text).map others = (tokens s.blank.text).map others

end Statement

/-! ### The statements as tokens -/

/-- A text without literals in front of other tokens. -/
def before (text : Bytes) (ts : List Token) : List Token := text.map Token.other ++ ts

@[simp] theorem render_before (text : Bytes) (ts : List Token) : render (before text ts) = text ++ render ts := by
  induction text with
  | nil => rfl
  | cons c text ih => exact congrArg (c :: ·) ih

@[simp] theorem literals_before (text : Bytes) (ts : List Token) : literals (before text ts) = literals ts := by
  induction text with
  | nil => rfl
  | cons c text ih => exact ih

@[simp] theorem others_before (text : Bytes) (ts : List Token) : others (before text ts) = text ++ others ts := by
  induction text with
  | nil => rfl
  | cons c text ih => exact congrArg (c :: ·) ih

theorem separated_before {text : Bytes} {ts : List Token} (htext : quote ∉ text) (hts : Separated ts) :
    Separated (before text ts) := by
  induction text with
  | nil => exact hts
  | cons c text ih =>
    rw [List.mem_cons, not_or] at htext
    exact ⟨Ne.symm htext.1, ih htext.2⟩

/-- The digits of a number are not quotes. -/
theorem quote_notMem_repr (n : ℕ) : '\'' ∉ n.repr.toList := by
  intro h
  rw [Nat.toList_repr] at h
  exact absurd (Nat.isDigit_of_mem_toDigits (by decide) (by decide) h) (by decide)

theorem quote_notMem_toString (n : Int32) : quote ∉ utf8 (toString n) := by
  intro h
  have hmem : '\'' ∈ (toString n.toInt).toList := mem_toList_of_mem_utf8 h (by decide)
  rw [Int.toString_eq_repr, Int.repr_eq_if] at hmem
  split_ifs at hmem
  · exact quote_notMem_repr _ hmem
  · rw [String.toList_append, List.mem_append] at hmem
    exact hmem.elim (by decide) (quote_notMem_repr _)

/-- The conditions of `excludeText`. -/
def excludeTemplate : List Bytes → List Token
  | [] => []
  | clientid :: clientids =>
    before (utf8 "AND FILEOWNERINFO.CLIENTID != ") (.literal clientid :: excludeTemplate clientids)

/-- The statement of a search. -/
def Search.template (q : Search) : List Token :=
  before (utf8 "SELECT CLIENTINFO.CLIENTID,IP,MESSAGEPORT,PERCENTAGE FROM CLIENTINFO INNER JOIN FILEOWNERINFO ") <|
  before (utf8 "WHERE FILEOWNERINFO.FILEID=") <|
  .literal q.fileid ::
  (before (utf8 " AND CLIENTINFO.CLIENTID=FILEOWNERINFO.CLIENTID ") <|
  before (utf8 "AND CLIENTINFO.ISONLINE=1 AND FILEOWNERINFO.PERCENTAGE ") <|
  before q.type.typeString <| before (utf8 " ") <| before (utf8 (toString q.percentage)) <| before (utf8 " ") <|
  excludeTemplate q.clientids)

/-- The statement of an update. -/
def updateTemplate (info : FileOwnerInfo) : List Token :=
  before (utf8 "INSERT INTO FILEOWNERINFO (FILEID, CLIENTID, PERCENTAGE) VALUES( ") <|
  .literal info.fileid ::
  (before (utf8 ", ") <|
  .literal info.clientid ::
  (before (utf8 ", ") <| before (utf8 (toString info.percentage)) <|
  before (utf8 ") ON DUPLICATE KEY UPDATE PERCENTAGE=VALUES(PERCENTAGE)") []))

theorem render_excludeTemplate (clientids : List Bytes) : render (excludeTemplate clientids) = excludeText clientids := by
  induction clientids with
  | nil => rfl
  | cons clientid clientids ih =>
    have hquote : utf8 "AND FILEOWNERINFO.CLIENTID != '" = utf8 "AND FILEOWNERINFO.CLIENTID != " ++ [quote] := rfl
    have hend : utf8 "'" = [quote] := rfl
    rw [excludeTemplate, render_before, render, ih, excludeText, excludeText, List.map_cons, List.flatten_cons, hquote, hend]
    simp only [List.append_assoc, List.cons_append, List.nil_append]

theorem Search.render_template (q : Search) : render q.template = q.text := by
  have hquote : utf8 "WHERE FILEOWNERINFO.FILEID='" = utf8 "WHERE FILEOWNERINFO.FILEID=" ++ [quote] := rfl
  have hend : utf8 "' AND CLIENTINFO.CLIENTID=FILEOWNERINFO.CLIENTID " =
      quote :: utf8 " AND CLIENTINFO.CLIENTID=FILEOWNERINFO.CLIENTID " := rfl
  rw [text, hquote, hend]
  simp only [template, render_before, render, render_excludeTemplate, List.append_assoc, List.cons_append, List.nil_append]

theorem render_updateTemplate (info : FileOwnerInfo) : render (updateTemplate info) = updateText info := by
  have hquote : utf8 "INSERT INTO FILEOWNERINFO (FILEID, CLIENTID, PERCENTAGE) VALUES( '" =
      utf8 "INSERT INTO FILEOWNERINFO (FILEID, CLIENTID, PERCENTAGE) VALUES( " ++ [quote] := rfl
  have hmiddle : utf8 "', '" = quote :: (utf8 ", " ++ [quote]) := rfl
  have hend : utf8 "', " = quote :: utf8 ", " := rfl
  rw [updateText, hquote, hmiddle, hend]
  simp only [updateTemplate, render_before, render, List.append_assoc, List.cons_append, List.nil_append, List.append_nil]

/-- What follows an excluded client is not a quote. -/
theorem separated_excludeTemplate (clientids : List Bytes) :
    (render (excludeTemplate clientids)).head? ≠ some quote ∧ Separated (excludeTemplate clientids) := by
  induction clientids with
  | nil => exact ⟨nofun, trivial⟩
  | cons clientid clientids ih =>
    constructor
    · show some (65 : UInt8) ≠ some quote
      decide
    · exact separated_before (by decide) ih

theorem Search.separated_template (q : Search) : Separated q.template := by
  have htype : quote ∉ q.type.typeString := by
    cases q.type <;> decide
  refine separated_before (by decide) (separated_before (by decide) ⟨?_, ?_⟩)
  · show some (32 : UInt8) ≠ some quote
    decide
  · refine separated_before (by decide) (separated_before (by decide) (separated_before htype ?_))
    refine separated_before (by decide) (separated_before (quote_notMem_toString _) (separated_before (by decide) ?_))
    exact (separated_excludeTemplate q.clientids).2

theorem separated_updateTemplate (info : FileOwnerInfo) : Separated (updateTemplate info) := by
  refine separated_before (by decide) ⟨?_, separated_before (by decide) ⟨?_, ?_⟩⟩
  · show some (44 : UInt8) ≠ some quote
    decide
  · show some (44 : UInt8) ≠ some quote
    decide
  · exact separated_before (by decide) (separated_before (quote_notMem_toString _) (separated_before (by decide) trivial))

namespace Statement

/-- The statement as it is meant. -/
def template : Statement → List Token
  | search q => q.template
  | update info => updateTemplate info

theorem render_template (s : Statement) : render s.template = s.text :=
  match s with
  | search q => q.render_template
  | update info => render_updateTemplate info

theorem separated_template (s : Statement) : Separated s.template :=
  match s with
  | search q => q.separated_template
  | update info => separated_updateTemplate info

theorem literals_excludeTemplate (clientids : List Bytes) : literals (excludeTemplate clientids) = clientids := by
  induction clientids with
  | nil => rfl
  | cons clientid clientids ih => rw [excludeTemplate, literals_before, literals_literal, ih]

theorem others_excludeTemplate (clientids : List Bytes) :
    others (excludeTemplate (clientids.map fun _ => [])) = others (excludeTemplate clientids) := by
  induction clientids with
  | nil => rfl
  | cons clientid clientids ih =>
    rw [List.map_cons, excludeTemplate, excludeTemplate, others_before, others_before, others_literal, others_literal, ih]

/-- Its literals are the strings. -/
theorem literals_template (s : Statement) : literals s.template = s.strings := by
  cases s with
  | search q =>
    simp only [template, Search.template, literals_before, literals_literal, literals_excludeTemplate, strings]
  | update info =>
    simp only [template, updateTemplate, literals_before, literals_literal, literals_nil, strings]

/-- What is outside of them is there without the strings. -/
theorem others_blank (s : Statement) : others s.blank.template = others s.template := by
  cases s with
  | search q =>
    simp only [blank, template, Search.template, others_before, others_literal, others_excludeTemplate]
  | update info => simp only [blank, template, updateTemplate, others_before, others_literal]

/-- The statement without the strings is read as it is meant. -/
theorem tokens_blank (s : Statement) : tokens s.blank.text = some s.blank.template := by
  have hnil : ∀ v ∈ s.blank.strings, v = [] := by
    cases s with
    | search q => simp [blank, strings]
    | update info => simp [blank, strings]
  rw [← render_template]
  refine tokens_render s.blank.separated_template fun v hv => ?_
  rw [literals_template] at hv
  rw [hnil v hv]
  exact .nil

/-- A statement is safe when it is read as it is meant. -/
theorem safe_iff_reads (s : Statement) :
    s.Safe ↔
      ∃ us, tokens (render s.template) = some us ∧ literals us = literals s.template ∧ others us = others s.template := by
  rw [render_template, literals_template]
  constructor
  · rintro ⟨hstrings, houtside⟩
    obtain ⟨us, hus, hliterals⟩ := Option.map_eq_some_iff.mp hstrings
    rw [hus, tokens_blank, Option.map_some, Option.map_some, Option.some.injEq, others_blank] at houtside
    exact ⟨us, hus, hliterals, houtside⟩
  · rintro ⟨us, hus, hliterals, hothers⟩
    constructor
    · rw [hus, Option.map_some, hliterals]
    · rw [hus, tokens_blank, Option.map_some, Option.map_some, others_blank, hothers]

/-- Strings that stand for themselves do no harm. -/
theorem safe_of_faithful {s : Statement} (h : ∀ v ∈ s.strings, Faithful v) : s.Safe := by
  rw [safe_iff_reads, reads_iff s.separated_template, literals_template]
  exact h

/-- **No injection**: a statement is safe just when every string in it stands for itself between quotes. -/
theorem safe_iff (s : Statement) : s.Safe ↔ ∀ v ∈ s.strings, Faithful v := by
  refine ⟨fun h => ?_, safe_of_faithful⟩
  rw [safe_iff_reads, reads_iff s.separated_template, literals_template] at h
  exact h

/-- A quote in the file id. -/
def everyFile : Statement := search ⟨.greater, utf8 "' OR ''='", 0, []⟩

/-- **An injection**: the file id is read as two empty literals, with an `OR` between them. -/
theorem injected : ¬ ∀ s : Statement, s.Safe := by
  intro h
  have hread : (tokens everyFile.text).map literals = some [[], [], []] := by decide +kernel
  have hstrings := (h everyFile).strings
  rw [hread] at hstrings
  exact absurd hstrings (by decide)

end Statement

/-- A plain string stands for itself. -/
theorem Plain.faithful {v : Bytes} (h : Plain v) : Faithful v := faithful_of_forall h

/-- The server that is modelled reads a plain search as it is meant. -/
theorem Search.safe_of_isPlain {q : Search} (h : q.IsPlain) : (Statement.search q).Safe :=
  Statement.safe_of_faithful <| List.forall_mem_cons.mpr ⟨h.1.faithful, fun clientid hclient => (h.2 clientid hclient).faithful⟩

/-- So it is with an update. -/
theorem safe_of_plain {info : FileOwnerInfo} (hfile : Plain info.fileid) (hclient : Plain info.clientid) :
    (Statement.update info).Safe :=
  Statement.safe_of_faithful <| List.forall_mem_cons.mpr ⟨hfile.faithful, List.forall_mem_singleton.mpr hclient.faithful⟩

end CoolDown.Tracker
