import Mathlib

/-! Comma separated values by the rules of RFC 4180: a field with a comma, a quote or a line
break stands in quotes, quotes inside it are doubled, and a record ends with CRLF, which the last
one may leave out. -/
namespace Csv

abbrev Field := List Char

abbrev Record := List Field

/-- The characters that a field without quotes cannot have. -/
def special (c : Char) : Bool := c = ',' || c = '"' || c = '\r' || c = '\n'

/-- Where a parser stands: before a field, in one without quotes, in one with quotes, behind a
quote of such a one, or behind a carriage return. -/
inductive Mode where
  | field | plain | quoted | closed | cr

/-- What a parser still reads: the rest of the field, the fields after it, the records after
that. -/
structure Rest where
  field : Field
  fields : List Field
  records : List Record

namespace Rest

def empty : Rest := ⟨[], [], []⟩

def all (r : Rest) : List Record := (r.field :: r.fields) :: r.records

def push (c : Char) (r : Rest) : Rest := { r with field := c :: r.field }

/-- Before a comma. -/
def next (r : Rest) : Rest := ⟨[], r.field :: r.fields, r.records⟩

/-- Before a line break. -/
def line (r : Rest) : Rest := ⟨[], [], r.all⟩

end Rest

def parseFrom : Mode → List Char → Option Rest
  -- a text may end after a field or a line, not inside quotes or a line break
  | .quoted, [] => none
  | .cr, [] => none
  | .field, [] => some .empty
  | .plain, [] => some .empty
  | .closed, [] => some .empty
  -- a quote inside quotes closes them, or is the first of a doubled one
  | .quoted, c :: cs =>
    if c = '"' then parseFrom .closed cs else (parseFrom .quoted cs).map (.push c)
  | .cr, c :: cs =>
    if c = '\n' then if cs = [] then some .empty else (parseFrom .field cs).map .line
    else none
  -- quotes may open only at the start of a field
  | .field, c :: cs =>
    if c = ',' then (parseFrom .field cs).map .next
    else if c = '\r' then parseFrom .cr cs
    else if c = '\n' then none
    else if c = '"' then parseFrom .quoted cs
    else (parseFrom .plain cs).map (.push c)
  | .plain, c :: cs =>
    if c = ',' then (parseFrom .field cs).map .next
    else if c = '\r' then parseFrom .cr cs
    else if c = '\n' then none
    else if c = '"' then none
    else (parseFrom .plain cs).map (.push c)
  -- after the closing quote: the doubled one, or the end of the field
  | .closed, c :: cs =>
    if c = ',' then (parseFrom .field cs).map .next
    else if c = '\r' then parseFrom .cr cs
    else if c = '"' then (parseFrom .quoted cs).map (.push c)
    else none

/-- The records of a text, if it has the format. -/
def parse (text : List Char) : Option (List Record) :=
  if text = [] then some [] else (parseFrom .field text).map Rest.all

/-! ### Writing -/

def escape (f : Field) : List Char := f.flatMap (fun c => if c = '"' then ['"', '"'] else [c])

/-- A field, in quotes where it needs them. -/
def writeField (f : Field) : List Char := if f.any special then '"' :: escape f ++ ['"'] else f

def joined (fields : List (List Char)) : List Char := List.intercalate [','] fields

def lineBreak : List Char := ['\r', '\n']

def write (rows : List Record) : List Char :=
  rows.flatMap (fun r => joined (r.map writeField) ++ lineBreak)

/-- The records as they are, whatever they contain. -/
def raw (rows : List Record) : List Char := rows.flatMap (fun r => joined r ++ lineBreak)

theorem joined_cons_cons (f g : List Char) (fs : List (List Char)) :
    joined (f :: g :: fs) = f ++ ',' :: joined (g :: fs) := by
  simp [joined, List.intercalate]

theorem joined_singleton (f : List Char) : joined [f] = f := by simp [joined, List.intercalate]

section Parse

/-- `rest` ends a field. -/
def Ends (rest : List Char) : Prop := ∃ cs, rest = ',' :: cs ∨ rest = '\r' :: cs

theorem parseFrom_ends {rest : List Char} (h : Ends rest) :
    parseFrom .field rest = parseFrom .plain rest ∧
    parseFrom .closed rest = parseFrom .plain rest := by
  obtain ⟨cs, rfl | rfl⟩ := h
  · exact ⟨by simp [parseFrom], by simp [parseFrom]⟩
  · exact ⟨by simp [parseFrom], by simp [parseFrom]⟩

theorem map_push (c : Char) (f : Field) (o : Option Rest) :
    (o.map (fun r => { r with field := f ++ r.field })).map (.push c) =
      o.map (fun r => { r with field := c :: f ++ r.field }) := by
  cases o <;> rfl

theorem map_nil (o : Option Rest) : o.map (fun r => { r with field := [] ++ r.field }) = o := by
  cases o <;> rfl

theorem not_special {c : Char} (h : special c = false) :
    c ≠ ',' ∧ c ≠ '"' ∧ c ≠ '\r' ∧ c ≠ '\n' := by
  simpa [special, and_assoc] using h

/-- A field without special characters is read as it is. -/
theorem parseFrom_plain {f : Field} (hf : f.any special = false) (rest : List Char) :
    parseFrom .plain (f ++ rest) =
      (parseFrom .plain rest).map (fun r => { r with field := f ++ r.field }) := by
  induction f with
  | nil => exact (map_nil _).symm
  | cons c f ih =>
    rw [List.any_cons, Bool.or_eq_false_iff] at hf
    obtain ⟨hcomma, hquote, hcr, hlf⟩ := not_special hf.1
    rw [List.cons_append, parseFrom, if_neg hcomma, if_neg hcr, if_neg hlf, if_neg hquote,
      ih hf.2, map_push]

/-- What stands between quotes is read with doubled quotes as one. -/
theorem parseFrom_quoted (f : Field) (rest : List Char) :
    parseFrom .quoted (escape f ++ '"' :: rest) =
      (parseFrom .closed rest).map (fun r => { r with field := f ++ r.field }) := by
  induction f with
  | nil =>
    rw [map_nil]
    simp [escape, parseFrom]
  | cons c f ih =>
    have hescape : escape (c :: f) = (if c = '"' then ['"', '"'] else [c]) ++ escape f :=
      List.flatMap_cons
    rw [hescape, List.append_assoc]
    by_cases hquote : c = '"'
    · rw [if_pos hquote, hquote]
      simp only [List.cons_append, List.nil_append, parseFrom, if_true]
      rw [if_neg (by decide), if_neg (by decide), ih, map_push]
      rfl
    · rw [if_neg hquote, List.singleton_append, parseFrom, if_neg hquote, ih, map_push]

theorem parseFrom_writeField (f : Field) {rest : List Char} (h : Ends rest) :
    parseFrom .field (writeField f ++ rest) =
      (parseFrom .plain rest).map (fun r => { r with field := f ++ r.field }) := by
  obtain ⟨hfield, hclosed⟩ := parseFrom_ends h
  unfold writeField
  split_ifs with hspecial
  · have htext : '"' :: escape f ++ ['"'] ++ rest = '"' :: (escape f ++ '"' :: rest) := by simp
    rw [htext, parseFrom, if_neg (by decide), if_neg (by decide), if_neg (by decide), if_pos rfl,
      parseFrom_quoted, hclosed]
  · rw [Bool.not_eq_true] at hspecial
    cases f with
    | nil => rw [List.nil_append, map_nil, hfield]
    | cons c f =>
      have hc := (Bool.or_eq_false_iff.mp (List.any_cons ▸ hspecial)).1
      obtain ⟨hcomma, hquote, hcr, hlf⟩ := not_special hc
      rw [← parseFrom_plain hspecial, List.cons_append, parseFrom, parseFrom, if_neg hquote,
        if_neg hquote]

/-- A line break ends the record at hand. -/
theorem parseFrom_lineBreak (rest : List Char) : parseFrom .plain (lineBreak ++ rest) =
    (parse rest).map (fun rs => ⟨[], [], rs⟩) := by
  have hcr : parseFrom .plain (lineBreak ++ rest) = parseFrom .cr ('\n' :: rest) := by
    simp [lineBreak, parseFrom]
  rw [hcr, parseFrom, if_pos rfl, parse]
  split_ifs with hrest
  · rfl
  · rw [Option.map_map]
    rfl

theorem parseFrom_record (f : Field) (fs : List Field) (rest : List Char) :
    parseFrom .field (joined ((f :: fs).map writeField) ++ (lineBreak ++ rest)) =
      (parse rest).map (fun rs => ⟨f, fs, rs⟩) := by
  -- over the fields that follow; the last one ends at the line break
  induction fs generalizing f with
  | nil =>
    have hends : Ends (lineBreak ++ rest) := ⟨'\n' :: rest, Or.inr rfl⟩
    rw [List.map_singleton, joined_singleton, parseFrom_writeField f hends, parseFrom_lineBreak,
      Option.map_map]
    congr 1
    funext rs
    simp
  | cons g gs ih =>
    rw [List.map_cons, List.map_cons, joined_cons_cons, List.append_assoc, List.cons_append,
      parseFrom_writeField f ⟨_, Or.inl rfl⟩, parseFrom, if_pos rfl]
    have ih := ih g
    rw [List.map_cons] at ih
    rw [ih, Option.map_map, Option.map_map]
    congr 1
    funext rs
    simp [Rest.next]

/-- What is written is read back. -/
theorem parse_write {rows : List Record} (h : ∀ r ∈ rows, r ≠ []) :
    parse (write rows) = some rows := by
  induction rows with
  | nil => rfl
  | cons r rows ih =>
    obtain ⟨hr, hrows⟩ := List.forall_mem_cons.mp h
    have hcons : write (r :: rows) = joined (r.map writeField) ++ (lineBreak ++ write rows) := by
      rw [write, List.flatMap_cons, List.append_assoc]
      rfl
    obtain ⟨f, fs, rfl⟩ := List.exists_cons_of_ne_nil hr
    have hne : joined ((f :: fs).map writeField) ++ (lineBreak ++ write rows) ≠ [] := by
      simp [lineBreak]
    rw [hcons, parse, if_neg hne, parseFrom_record, ih hrows]
    rfl

theorem write_eq_raw {rows : List Record} (h : ∀ r ∈ rows, ∀ f ∈ r, f.any special = false) :
    write rows = raw rows := by
  refine List.flatMap_congr (fun r hr => ?_)
  have hfields : r.map writeField = r := by
    calc r.map writeField = r.map id :=
          List.map_congr_left (fun f hf => if_neg (by rw [h r hr f hf]; decide))
      _ = r := List.map_id r
  rw [hfields]

end Parse

/-! ### Text that needs quotes -/

/-- The characters a field takes at least, its separator among them. -/
def fieldCost (f : Field) : ℕ := f.length + (if f.any special then 2 else 0) + 1

def recordCost (r : Record) : ℕ := (r.map fieldCost).sum + 1

def cost (rows : List Record) : ℕ := (rows.map recordCost).sum

section Cost

def Rest.cost (r : Rest) : ℕ := Csv.cost r.all

/-- The cost when the field at hand is in quotes. -/
def Rest.quotedCost (r : Rest) : ℕ :=
  r.field.length + 3 + ((r.fields.map fieldCost).sum + 1 + Csv.cost r.records)

theorem Rest.cost_eq (r : Rest) :
    r.cost = fieldCost r.field + ((r.fields.map fieldCost).sum + 1 + Csv.cost r.records) := by
  simp only [Rest.cost, Csv.cost, Rest.all, recordCost, List.map_cons, List.sum_cons]
  omega

theorem Rest.cost_le (r : Rest) : r.cost ≤ r.quotedCost := by
  rw [Rest.cost_eq, Rest.quotedCost, fieldCost]
  split_ifs <;> omega

@[simp] theorem Rest.cost_empty : Rest.empty.cost = 2 := rfl

@[simp] theorem Rest.quotedCost_empty : Rest.empty.quotedCost = 4 := rfl

@[simp] theorem Rest.cost_next (r : Rest) : r.next.cost = r.cost + 1 := by
  simp only [Rest.cost_eq, Rest.next, List.map_cons, List.sum_cons]
  have : fieldCost [] = 1 := rfl
  omega

@[simp] theorem Rest.quotedCost_next (r : Rest) : r.next.quotedCost = r.cost + 3 := by
  simp only [Rest.cost_eq, Rest.quotedCost, Rest.next, List.map_cons, List.sum_cons,
    List.length_nil]
  omega

@[simp] theorem Rest.cost_line (r : Rest) : r.line.cost = r.cost + 2 := by
  have hempty : fieldCost [] = 1 := rfl
  rw [Rest.cost_eq, Rest.line]
  simp only [List.map_nil, List.sum_nil, hempty, Rest.cost]
  omega

@[simp] theorem Rest.quotedCost_push (c : Char) (r : Rest) :
    (r.push c).quotedCost = r.quotedCost + 1 := by
  simp only [Rest.quotedCost, Rest.push, List.length_cons]
  omega

theorem Rest.cost_push {c : Char} (hc : special c = false) (r : Rest) :
    (r.push c).cost = r.cost + 1 := by
  simp only [Rest.cost_eq, Rest.push, fieldCost, List.any_cons, hc, Bool.false_or,
    List.length_cons]
  omega

/-- What was read before counts too: a carriage return, an opening quote, two quotes. -/
def Mode.Bound (mode : Mode) (r : Rest) (n : ℕ) : Prop :=
  match mode with
  | .field | .plain => r.cost ≤ n
  | .cr => r.cost ≤ n + 1 ∧ r.field = [] ∧ r.fields = []
  | .quoted => r.quotedCost ≤ n + 1
  | .closed => r.quotedCost ≤ n + 2

/-- A text that ends with a line break is at least as long as its records cost. -/
theorem bound_parseFrom {mode : Mode} {cs : List Char} {r : Rest}
    (h : parseFrom mode (cs ++ lineBreak) = some r) : mode.Bound r (cs.length + 2) := by
  induction cs generalizing mode r with
  | nil =>
    cases mode <;> simp [lineBreak, parseFrom] at h <;> subst h <;> simp [Mode.Bound]
  | cons c cs ih =>
    rw [List.cons_append] at h
    rw [List.length_cons]
    -- a plain field ends at a comma, at a line break, or goes on
    have hplain : ∀ r, parseFrom .plain (c :: (cs ++ lineBreak)) = some r →
        r.cost ≤ cs.length + 1 + 2 := by
      intro r h
      rw [parseFrom] at h
      split_ifs at h with hcomma hcr hlf hquote
      · obtain ⟨r', hr', rfl⟩ := Option.map_eq_some_iff.mp h
        have hfield := ih hr'
        simp only [Mode.Bound, Rest.cost_next] at hfield ⊢
        omega
      · exact (ih h).1
      · obtain ⟨r', hr', rfl⟩ := Option.map_eq_some_iff.mp h
        have hc : special c = false := by simp [special, hcomma, hcr, hlf, hquote]
        have hrest := ih hr'
        simp only [Mode.Bound, r'.cost_push hc] at hrest ⊢
        omega
    cases mode with
    | quoted =>
      rw [parseFrom] at h
      split_ifs at h
      · exact (ih h : r.quotedCost ≤ cs.length + 2 + 2).trans (by omega)
      · obtain ⟨r', hr', rfl⟩ := Option.map_eq_some_iff.mp h
        have hrest := ih hr'
        simp only [Mode.Bound, Rest.quotedCost_push] at hrest ⊢
        omega
    | cr =>
      rw [parseFrom, if_neg (by simp [lineBreak] : ¬ cs ++ lineBreak = [])] at h
      split_ifs at h
      obtain ⟨r', hr', rfl⟩ := Option.map_eq_some_iff.mp h
      have hrest := ih hr'
      simp only [Mode.Bound, Rest.cost_line] at hrest ⊢
      exact ⟨by omega, rfl, rfl⟩
    | field =>
      by_cases hquote : c = '"'
      · rw [hquote, parseFrom, if_neg (by decide), if_neg (by decide), if_neg (by decide),
          if_pos rfl] at h
        have hquoted := ih h
        -- an opening quote: what follows is bounded by its quoted cost
        have hle := r.cost_le
        simp only [Mode.Bound] at hquoted ⊢
        omega
      · have heq : parseFrom .field (c :: (cs ++ lineBreak)) =
            parseFrom .plain (c :: (cs ++ lineBreak)) := by
          rw [parseFrom, parseFrom, if_neg hquote, if_neg hquote]
        exact hplain r (heq ▸ h)
    | plain => exact hplain r h
    | closed =>
      rw [parseFrom] at h
      split_ifs at h
      · obtain ⟨r', hr', rfl⟩ := Option.map_eq_some_iff.mp h
        have hrest := ih hr'
        simp only [Mode.Bound, Rest.quotedCost_next] at hrest ⊢
        omega
      -- a carriage return after the closing quote: nothing is left of the record
      · obtain ⟨hcost, hfield, hfields⟩ := ih h
        simp only [Rest.cost_eq, fieldCost, hfield, hfields] at hcost
        simp only [Mode.Bound, Rest.quotedCost, hfield, hfields]
        simp at hcost ⊢
        omega
      · obtain ⟨r', hr', rfl⟩ := Option.map_eq_some_iff.mp h
        have hrest := ih hr'
        simp only [Mode.Bound, Rest.quotedCost_push] at hrest ⊢
        omega

theorem cost_le_length {text : List Char} {rows : List Record}
    (h : parse (text ++ lineBreak) = some rows) : cost rows ≤ (text ++ lineBreak).length := by
  rw [parse, if_neg (by simp [lineBreak])] at h
  obtain ⟨r, hr, rfl⟩ := Option.map_eq_some_iff.mp h
  rw [List.length_append]
  exact bound_parseFrom hr

theorem length_joined {r : Record} (h : r ≠ []) :
    (joined r).length + 1 = (r.map (fun f => f.length + 1)).sum := by
  obtain ⟨f, fs, rfl⟩ := List.exists_cons_of_ne_nil h
  clear h
  induction fs generalizing f with
  | nil => simp [joined_singleton]
  | cons g gs ih =>
    rw [joined_cons_cons, List.map_cons, List.sum_cons, ← ih g]
    simp only [List.length_append, List.length_cons]
    omega

/-- A record without its quotes is as short as it can be exactly when it needs none. -/
theorem length_le_recordCost {r : Record} (h : r ≠ []) :
    (joined r ++ lineBreak).length ≤ recordCost r ∧
    (recordCost r ≤ (joined r ++ lineBreak).length → ∀ f ∈ r, f.any special = false) := by
  have hjoined := length_joined h
  have hlength : (joined r ++ lineBreak).length = (r.map (fun f => f.length + 1)).sum + 1 := by
    rw [List.length_append, ← hjoined]
    rfl
  rw [hlength, recordCost]
  clear h hjoined hlength
  induction r with
  | nil => exact ⟨le_rfl, fun _ f hf => absurd hf List.not_mem_nil⟩
  | cons f fs ih =>
    simp only [List.map_cons, List.sum_cons, List.forall_mem_cons, fieldCost]
    split_ifs with hspecial
    · exact ⟨by omega, fun hle => by omega⟩
    · exact ⟨by omega, fun hle => ⟨by simpa using hspecial, ih.2 (by omega)⟩⟩

theorem length_raw_le {rows : List Record} (h : ∀ r ∈ rows, r ≠ []) :
    (raw rows).length ≤ cost rows ∧
    (cost rows ≤ (raw rows).length → ∀ r ∈ rows, ∀ f ∈ r, f.any special = false) := by
  induction rows with
  | nil => exact ⟨le_rfl, fun _ r hr => absurd hr List.not_mem_nil⟩
  | cons r rows ih =>
    obtain ⟨hr, hrows⟩ := List.forall_mem_cons.mp h
    obtain ⟨hle, hclean⟩ := length_le_recordCost hr
    obtain ⟨hle', hclean'⟩ := ih hrows
    simp only [raw, cost, List.flatMap_cons, List.length_append, List.map_cons, List.sum_cons,
      List.forall_mem_cons] at hle hle' hclean hclean' ⊢
    exact ⟨by omega, fun hcost => ⟨hclean (by omega), hclean' (by omega)⟩⟩

theorem cost_perm {rows rows' : List Record} (h : rows.Perm rows') : cost rows = cost rows' :=
  (h.map recordCost).sum_eq

/-- Records written as they are come back, in whatever order, exactly when no field of them is
special. -/
theorem parse_raw_iff {rows : List Record} (h : ∀ r ∈ rows, r ≠ []) :
    (∃ rows', parse (raw rows) = some rows' ∧ rows'.Perm rows) ↔
      ∀ r ∈ rows, ∀ f ∈ r, f.any special = false := by
  constructor
  · rintro ⟨rows', hparse, hperm⟩
    apply (length_raw_le h).2
    rw [← cost_perm hperm]
    by_cases hempty : rows = []
    · subst hempty
      obtain rfl := List.perm_nil.mp hperm
      exact le_rfl
    · obtain ⟨rows₀, r, rfl⟩ := (List.eq_nil_or_concat' rows).resolve_left hempty
      have htext : raw (rows₀ ++ [r]) = (raw rows₀ ++ joined r) ++ lineBreak := by
        simp [raw]
      rw [htext] at hparse ⊢
      exact cost_le_length hparse
  · intro hclean
    exact ⟨rows, write_eq_raw hclean ▸ parse_write h, List.Perm.refl rows⟩

end Cost

end Csv
