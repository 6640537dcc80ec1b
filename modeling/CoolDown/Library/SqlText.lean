import Mathlib.Algebra.Order.Group.Nat
import Mathlib.Algebra.Ring.Nat
import Mathlib.Data.List.Basic
import Mathlib.Tactic.Common

/-!
# Statements with string literals in them

The text of an SQL statement, read byte by byte: what is between quotes is a literal, and
everything else stands outside.

## The model

A literal begins and ends with a quote. Inside of it two quotes stand for one, and a
backslash takes the byte after it along: some pairs stand for a control byte, `\%` and `\_`
for themselves, and any other for its second byte. A text that ends inside of a literal
cannot be read.

`render` is the way back that a program takes which puts quotes around its strings and
nothing else. A string is `Faithful` where this is right: it has no quote, and a backslash
only before a byte with which it stands for itself.

## What is proved

* `tokens_render`: faithful strings are read as they were put in.
* `faithful_of_tokens`: others are not. Every quote or backslash that does something costs a
  byte, so that what is read is shorter than what was written.
* `reads_iff`: the two together.
-/

namespace Library

namespace SqlText

/-- The quote. -/
def quote : UInt8 := 39

/-- The backslash. -/
def backslash : UInt8 := 92

/-- What a statement consists of. -/
inductive Token where
  /-- A byte outside of the literals. -/
  | other (c : UInt8)
  /-- A literal, with its value. -/
  | literal (value : List UInt8)
  deriving DecidableEq, Repr

/-- `\%` and `\_` keep their backslash. -/
def IsPattern (c : UInt8) : Prop := c = 37 ∨ c = 95

instance (c : UInt8) : Decidable (IsPattern c) := inferInstanceAs (Decidable (_ ∨ _))

/-- What a byte stands for after a backslash. -/
def escaped (c : UInt8) : List UInt8 :=
  if IsPattern c then [backslash, c]
  else if c = 48 then [0]
  else if c = 98 then [8]
  else if c = 110 then [10]
  else if c = 114 then [13]
  else if c = 116 then [9]
  else if c = 90 then [26]
  else [c]

/-- Where a reader is. -/
inductive Place where
  | outside
  /-- In a literal that has begun so. -/
  | inside (value : List UInt8)
  /-- After a quote in a literal: its end, unless another one follows. -/
  | atQuote (value : List UInt8)
  /-- After a backslash in a literal. -/
  | atBackslash (value : List UInt8)

/-- The next byte: the tokens that are complete with it, and where the reader is then. -/
def Place.step : Place → UInt8 → List Token × Place
  | .outside, c => if c = quote then ([], .inside []) else ([.other c], .outside)
  | .inside value, c =>
    if c = quote then ([], .atQuote value)
    else if c = backslash then ([], .atBackslash value)
    else ([], .inside (value ++ [c]))
  | .atQuote value, c =>
    if c = quote then ([], .inside (value ++ [quote])) else ([.literal value, .other c], .outside)
  | .atBackslash value, c => ([], .inside (value ++ escaped c))

/-- The end of the text, which a literal must not go over. -/
def Place.stop : Place → Option (List Token)
  | .outside => some []
  | .inside _ => none
  | .atQuote value => some [.literal value]
  | .atBackslash _ => none

/-- Reads a text from a place on. -/
def scan (place : Place) : List UInt8 → Option (List Token)
  | [] => place.stop
  | c :: text => (scan (place.step c).2 text).map fun ts => (place.step c).1 ++ ts

/-- The tokens of a statement. -/
def tokens (text : List UInt8) : Option (List Token) := scan .outside text

/-- The value of a literal. -/
def Token.value : Token → Option (List UInt8)
  | .other _ => none
  | .literal value => some value

/-- A byte outside of the literals. -/
def Token.byte : Token → Option UInt8
  | .other c => some c
  | .literal _ => none

/-- The values of the literals, in their order. -/
def literals (ts : List Token) : List (List UInt8) := ts.filterMap Token.value

/-- The tokens outside of the literals. -/
def others (ts : List Token) : List UInt8 := ts.filterMap Token.byte

@[simp] theorem literals_nil : literals [] = [] := rfl

@[simp] theorem literals_other (c : UInt8) (ts : List Token) : literals (.other c :: ts) = literals ts := rfl

@[simp] theorem literals_literal (value : List UInt8) (ts : List Token) :
    literals (.literal value :: ts) = value :: literals ts := rfl

@[simp] theorem others_other (c : UInt8) (ts : List Token) : others (.other c :: ts) = c :: others ts := rfl

@[simp] theorem others_literal (value : List UInt8) (ts : List Token) : others (.literal value :: ts) = others ts := rfl

/-- The text that has each string between two quotes, as it is. -/
def render : List Token → List UInt8
  | [] => []
  | .other c :: ts => c :: render ts
  | .literal value :: ts => quote :: value ++ quote :: render ts

/-- The string stands for itself between quotes. -/
inductive Faithful : List UInt8 → Prop where
  | nil : Faithful []
  | plain {c : UInt8} {value : List UInt8} : c ≠ quote → c ≠ backslash → Faithful value → Faithful (c :: value)
  | pattern {c : UInt8} {value : List UInt8} : IsPattern c → Faithful value → Faithful (backslash :: c :: value)

/-- No quote stands outside of the literals, and none right after one. -/
def Separated : List Token → Prop
  | [] => True
  | .other c :: ts => c ≠ quote ∧ Separated ts
  | .literal _ :: ts => (render ts).head? ≠ some quote ∧ Separated ts

/-! ### Faithful strings -/

theorem Faithful.append {v w : List UInt8} (hv : Faithful v) (hw : Faithful w) : Faithful (v ++ w) := by
  induction hv with
  | nil => exact hw
  | plain hquote hbackslash _ ih => exact .plain hquote hbackslash ih
  | pattern hc _ ih => exact .pattern hc ih

/-- A string without quotes and backslashes is faithful. -/
theorem faithful_of_forall {v : List UInt8} (h : ∀ c ∈ v, c ≠ quote ∧ c ≠ backslash) : Faithful v := by
  induction v with
  | nil => exact .nil
  | cons c v ih =>
    obtain ⟨hc, hv⟩ := List.forall_mem_cons.mp h
    exact .plain hc.1 hc.2 (ih hv)

/-- Only a pattern is as long as it was before. -/
theorem length_escaped (c : UInt8) : (escaped c).length = if IsPattern c then 2 else 1 := by
  unfold escaped
  split_ifs <;> rfl

/-! ### What faithful strings are read as -/

/-- A byte that completes nothing. -/
theorem scan_cons {place place' : Place} {c : UInt8} (h : place.step c = ([], place')) (text : List UInt8) :
    scan place (c :: text) = scan place' text := by
  rw [scan, h]
  exact congrFun Option.map_id_fun' _

/-- Inside of a literal a faithful string goes through as it is. -/
theorem scan_append {v : List UInt8} (hv : Faithful v) (value text : List UInt8) :
    scan (.inside value) (v ++ text) = scan (.inside (value ++ v)) text := by
  induction hv generalizing value with
  | nil => rw [List.nil_append, List.append_nil]
  | @plain c v hquote hbackslash _ ih =>
    have hstep : (Place.inside value).step c = ([], .inside (value ++ [c])) := by
      rw [Place.step, if_neg hquote, if_neg hbackslash]
    rw [List.cons_append, scan_cons hstep, ih, List.append_assoc, List.singleton_append]
  | @pattern c v hc _ ih =>
    have hbackslash : (Place.inside value).step backslash = ([], .atBackslash value) := rfl
    have hescaped : (Place.atBackslash value).step c = ([], .inside (value ++ [backslash, c])) := by
      rw [Place.step, escaped, if_pos hc]
    rw [List.cons_append, List.cons_append, scan_cons hbackslash, scan_cons hescaped, ih, List.append_assoc,
      List.cons_append, List.singleton_append]

/-- A literal ends at a quote that no other follows. -/
theorem scan_atQuote {text : List UInt8} (h : text.head? ≠ some quote) (value : List UInt8) :
    scan (.atQuote value) text = (scan .outside text).map fun ts => .literal value :: ts := by
  cases text with
  | nil => rfl
  | cons c text =>
    have hc : c ≠ quote := fun heq => h (congrArg some heq)
    rw [scan, scan, Place.step, Place.step, if_neg hc, if_neg hc, Option.map_map]
    rfl

/-- **Faithful strings are read as they were put in.** -/
theorem tokens_render {ts : List Token} (hsep : Separated ts) (h : ∀ v ∈ literals ts, Faithful v) :
    tokens (render ts) = some ts := by
  unfold tokens
  induction ts with
  | nil => rfl
  | cons t ts ih =>
    cases t with
    | other c =>
      rw [render, scan, Place.step, if_neg hsep.1, ih hsep.2 h]
      rfl
    | literal value =>
      obtain ⟨hvalue, hts⟩ := List.forall_mem_cons.mp h
      have hbegin : Place.outside.step quote = ([], .inside []) := rfl
      have hend : (Place.inside value).step quote = ([], .atQuote value) := rfl
      rw [render, List.cons_append, scan_cons hbegin, scan_append hvalue, List.nil_append, scan_cons hend,
        scan_atQuote hsep.1, ih hsep.2 hts, Option.map_some]

/-! ### What is read is not longer than the text -/

/-- The number of bytes of a token, where a string is between quotes as it is. -/
def Token.size : Token → ℕ
  | .other _ => 1
  | .literal value => value.length + 2

/-- The number of bytes of all the tokens. -/
def size (ts : List Token) : ℕ := (ts.map Token.size).sum

@[simp] theorem size_nil : size [] = 0 := rfl

@[simp] theorem size_cons (t : Token) (ts : List Token) : size (t :: ts) = t.size + size ts := rfl

@[simp] theorem size_append (ts us : List Token) : size (ts ++ us) = size ts + size us := by
  rw [size, List.map_append, List.sum_append, size, size]

theorem length_render (ts : List Token) : (render ts).length = size ts := by
  induction ts with
  | nil => rfl
  | cons t ts ih =>
    cases t with
    | other c => simp only [render, List.length_cons, size_cons, Token.size, ih]; omega
    | literal value =>
      simp only [render, List.cons_append, List.length_cons, List.length_append, size_cons, Token.size, ih]
      omega

/-- It is determined by the literals and the number of the others. -/
theorem size_eq (ts : List Token) : size ts = (others ts).length + ((literals ts).map fun v => v.length + 2).sum := by
  induction ts with
  | nil => rfl
  | cons t ts ih =>
    cases t with
    | other c =>
      rw [size_cons, ih, others_other, literals_other, List.length_cons, Token.size]
      omega
    | literal value =>
      rw [size_cons, ih, others_literal, literals_literal, List.map_cons, List.sum_cons, Token.size]
      omega

namespace Place

/-- The bytes of a literal that has begun. -/
def size : Place → ℕ
  | outside => 0
  | inside value => value.length + 1
  | atQuote value => value.length + 2
  | atBackslash value => value.length + 2

/-- What has been read of it is faithful. -/
def Sound : Place → Prop
  | outside => True
  | inside value => Faithful value
  | atQuote value => Faithful value
  | atBackslash value => Faithful value

/-- A byte makes up for no more than itself. -/
theorem step_size (place : Place) (c : UInt8) : SqlText.size (place.step c).1 + (place.step c).2.size ≤ place.size + 1 := by
  cases place with
  | outside =>
    simp only [step]
    split_ifs <;> simp [size, Token.size]
  | inside value =>
    simp only [step]
    split_ifs <;> simp [size]
  | atQuote value =>
    simp only [step]
    split_ifs <;> simp [size, Token.size]
  | atBackslash value =>
    have hescaped : (escaped c).length ≤ 2 := by
      rw [length_escaped]
      split_ifs <;> decide
    simp only [step, size_nil, size, List.length_append]
    omega

/-- One that makes up for itself leaves what has been read faithful. -/
theorem step_sound {place : Place} {c : UInt8}
    (h : place.size + 1 ≤ SqlText.size (place.step c).1 + (place.step c).2.size) (hplace : place.Sound) :
    (place.step c).2.Sound ∧ ∀ v ∈ literals (place.step c).1, Faithful v := by
  cases place with
  | outside =>
    simp only [step]
    split_ifs
    · exact ⟨.nil, by simp [literals]⟩
    · exact ⟨trivial, by simp [literals, Token.value]⟩
  | inside value =>
    simp only [step]
    split_ifs with hquote hbackslash
    · exact ⟨hplace, by simp [literals]⟩
    · exact ⟨hplace, by simp [literals]⟩
    · exact ⟨hplace.append (.plain hquote hbackslash .nil), by simp [literals]⟩
  | atQuote value =>
    simp only [step] at h ⊢
    split_ifs at h ⊢ with hquote
    · -- two quotes for one
      simp [size] at h
    · exact ⟨trivial, fun v hv => List.mem_singleton.mp hv ▸ hplace⟩
  | atBackslash value =>
    have hc : IsPattern c := by
      by_contra hc
      simp [step, size, length_escaped, hc] at h
    simp only [step, escaped, if_pos hc]
    exact ⟨hplace.append (.pattern hc .nil), by simp [literals]⟩

theorem stop_size {place : Place} {ts : List Token} (h : place.stop = some ts) : SqlText.size ts = place.size := by
  cases place <;> cases h <;> rfl

theorem stop_sound {place : Place} {ts : List Token} (h : place.stop = some ts) (hplace : place.Sound) :
    ∀ v ∈ literals ts, Faithful v := by
  cases place with
  | outside => cases h; exact fun v hv => absurd hv List.not_mem_nil
  | inside value => cases h
  | atQuote value => cases h; exact fun v hv => List.mem_singleton.mp hv ▸ hplace
  | atBackslash value => cases h

end Place

theorem scan_cons_eq_some {place : Place} {c : UInt8} {text : List UInt8} {ts : List Token} :
    scan place (c :: text) = some ts ↔
      ∃ us, scan (place.step c).2 text = some us ∧ (place.step c).1 ++ us = ts :=
  Option.map_eq_some_iff

/-- What is read takes no more bytes than there were. -/
theorem size_le {place : Place} {text : List UInt8} {ts : List Token} (h : scan place text = some ts) :
    size ts ≤ place.size + text.length := by
  induction text generalizing place ts with
  | nil => exact (Place.stop_size h).le
  | cons c text ih =>
    obtain ⟨us, hus, rfl⟩ := scan_cons_eq_some.mp h
    have hstep := place.step_size c
    have hrest := ih hus
    rw [size_append, List.length_cons]
    omega

/-- Where it takes all of them, it is faithful. -/
theorem faithful_of_size {place : Place} {text : List UInt8} {ts : List Token} (h : scan place text = some ts)
    (hsize : place.size + text.length ≤ size ts) (hplace : place.Sound) : ∀ v ∈ literals ts, Faithful v := by
  induction text generalizing place ts with
  | nil => exact Place.stop_sound h hplace
  | cons c text ih =>
    obtain ⟨us, hus, rfl⟩ := scan_cons_eq_some.mp h
    -- neither the byte nor the rest can have lost any
    have hstep := place.step_size c
    have hrest := size_le hus
    rw [size_append, List.length_cons] at hsize
    obtain ⟨hsound, hfirst⟩ := @Place.step_sound place c (by omega) hplace
    intro v hv
    rw [literals, List.filterMap_append, List.mem_append] at hv
    exact hv.elim (hfirst v) (ih hus (by omega) hsound v)

/-- **Only faithful strings are read as they were put in**: no reading of the text has the same others and, with
quotes around them, the same strings. -/
theorem faithful_of_tokens {ts us : List Token} (h : tokens (render ts) = some us) (hliterals : literals us = literals ts)
    (hothers : others us = others ts) : ∀ v ∈ literals ts, Faithful v := by
  have hsize : size us = (render ts).length := by
    rw [length_render, size_eq us, size_eq ts, hliterals, hothers]
  rw [← hliterals]
  exact faithful_of_size h (by rw [hsize, Place.size, Nat.zero_add]) trivial

/-- **A text is read as it was put together** where the strings in it are faithful, and only there. -/
theorem reads_iff {ts : List Token} (hsep : Separated ts) :
    (∃ us, tokens (render ts) = some us ∧ literals us = literals ts ∧ others us = others ts) ↔
      ∀ v ∈ literals ts, Faithful v := by
  constructor
  · rintro ⟨us, hus, hliterals, hothers⟩
    exact faithful_of_tokens hus hliterals hothers
  · intro h
    exact ⟨ts, tokens_render hsep h, rfl, rfl⟩

end SqlText

end Library
