import Panelist.Lines
import Panelist.Script
import Panelist.Delivery

/-! `stableStringify` of `web/src/sim/platform.ts`, which writes the rows of a delivery the way
the service's `json.dumps` does, and for which rows it does. -/
namespace Panelist.Port
open Serial Script

/-! ### The serializer of the port -/

/-- `FLOAT_FIELDS`. -/
def floatFields : List String := ["weighted_score", "spread"]

section Stringify
variable (other : ℚ → List Char)

/-- `pythonFloat`. -/
def pythonFloat (n : Number) : List Char :=
  if isInteger n then numberText other n ++ ['.', '0'] else numberText other n

/-- `JSON.stringify` of a number. -/
def stringifyNumber (n : Number) : List Char :=
  if n.toRat.isSome then numberText other n else "null".toList

/-- Whether the numbers in the field `key` are written as floats. -/
def floatMode (asFloat : Bool) (key : String) : Bool :=
  asFloat || floatFields.contains key || key = "scores"

def member (f : String × List Char) : List Char := Script.quote f.1 ++ ':' :: f.2

/-- `Object.keys(obj).sort()`, with the text of each value. -/
def sortKeys (fields : List (String × List Char)) : List (String × List Char) :=
  fields.insertionSort (fun a b => before a.1 b.1)

mutual

def stableStringify (asFloat : Bool) : Value → List Char
  -- as the value of a field, where the template prints it; no array holds one
  | .undefined => ['u', 'n', 'd', 'e', 'f', 'i', 'n', 'e', 'd']
  | .null => "null".toList
  | .bool b => if b then "true".toList else "false".toList
  | .number n => if asFloat then pythonFloat other n else stringifyNumber other n
  | .string s => Script.quote s
  | .array items => '[' :: joinWith ',' (stringifyItems asFloat items) ++ [']']
  | .object fields =>
    '{' :: joinWith ',' ((sortKeys (stringifyFields asFloat fields)).map member) ++ ['}']

def stringifyItems (asFloat : Bool) : List Value → List (List Char)
  | [] => []
  | v :: vs => stableStringify asFloat v :: stringifyItems asFloat vs

def stringifyFields (asFloat : Bool) : List (String × Value) → List (String × List Char)
  | [] => []
  | (k, v) :: fs => (k, stableStringify (floatMode asFloat k) v) :: stringifyFields asFloat fs

end

end Stringify

structure Response where
  model : String
  text : String

/-- A row of a delivery; the port models no consensus rounds. -/
structure DeliveryRow where
  taskId : String
  externalRef : String
  taskType : String
  requiredTags : List String
  prompt : String
  responses : List Response
  rubricId : String
  rubricName : String
  rubricVersion : Number
  expertId : String
  expertTier : Tier
  scores : List (String × Value)
  weightedScore : Number
  rationale : String
  timeSpentSeconds : Number

def DeliveryRow.value (r : DeliveryRow) : Value :=
  .object [("task_id", .string r.taskId),
    ("external_ref", .string r.externalRef),
    ("task_type", .string r.taskType),
    ("required_tags", .array (r.requiredTags.map .string)),
    ("prompt", .string r.prompt),
    ("responses", .array (r.responses.map (fun x =>
      .object [("model", .string x.model), ("text", .string x.text)]))),
    ("rubric", .object [("id", .string r.rubricId), ("name", .string r.rubricName),
      ("version", .number r.rubricVersion)]),
    ("expert_id", .string r.expertId),
    ("expert_tier", .string r.expertTier.value),
    ("scores", .object r.scores),
    ("weighted_score", .number r.weightedScore),
    ("rationale", .string r.rationale),
    ("time_spent_seconds", .number r.timeSpentSeconds),
    ("consensus", .null)]

/-- `Platform.jsonl`. -/
def jsonl (other : ℚ → List Char) (rows : List DeliveryRow) : List Char :=
  let lines := rows.map (fun r => stableStringify other false r.value)
  if lines.isEmpty then [] else joinWith '\n' lines ++ ['\n']

/-! ### The row as the service holds it -/

/-- A whole number that neither side writes with an exponent. -/
abbrev Whole := {n : ℕ // n < 10 ^ 15}

/-- A whole float of that size, of either sign. -/
inductive WholeFloat where
  | int (n : ℤ) (h : |n| < 10 ^ 15)
  | negZero

namespace WholeFloat

def json : WholeFloat → Json
  | .int n _ => .float n
  | .negZero => .negZero

def number : WholeFloat → Number
  | .int n _ => .round n
  | .negZero => .negZero

end WholeFloat

/-- `float.__repr__`, which writes a whole number with `.0`. -/
structure FloatRepr where
  text : ℚ → List Char
  whole : ∀ n : ℤ, |n| < 10 ^ 15 → text n = (toString n).toList ++ ['.', '0']

/-- A row with whole numbers: the version and the seconds are an `int` in the service, the
scores and the weighted score are a `float`. -/
structure WholeRow where
  taskId : String
  externalRef : String
  taskType : String
  requiredTags : List String
  prompt : String
  responses : List Response
  rubricId : String
  rubricName : String
  rubricVersion : Whole
  expertId : String
  expertTier : Tier
  scores : List (String × WholeFloat)
  weightedScore : WholeFloat
  rationale : String
  timeSpentSeconds : Whole

def Response.json (r : Response) : Json := .obj [("model", .str r.model), ("text", .str r.text)]

namespace WholeRow

/-- The row in the port. -/
def port (r : WholeRow) : DeliveryRow where
  taskId := r.taskId
  externalRef := r.externalRef
  taskType := r.taskType
  requiredTags := r.requiredTags
  prompt := r.prompt
  responses := r.responses
  rubricId := r.rubricId
  rubricName := r.rubricName
  rubricVersion := .round r.rubricVersion.1
  expertId := r.expertId
  expertTier := r.expertTier
  scores := r.scores.map (fun s => (s.1, .number s.2.number))
  weightedScore := r.weightedScore.number
  rationale := r.rationale
  timeSpentSeconds := .round r.timeSpentSeconds.1

/-- The row in the service. -/
def service (r : WholeRow) : Json :=
  .obj [("task_id", .str r.taskId),
    ("external_ref", .str r.externalRef),
    ("task_type", .str r.taskType),
    ("required_tags", .arr (r.requiredTags.map .str)),
    ("prompt", .str r.prompt),
    ("responses", .arr (r.responses.map Response.json)),
    ("rubric", .obj [("id", .str r.rubricId), ("name", .str r.rubricName),
      ("version", .int r.rubricVersion.1)]),
    ("expert_id", .str r.expertId),
    ("expert_tier", .str r.expertTier.value),
    ("scores", .obj (r.scores.map (fun s => (s.1, s.2.json)))),
    ("weighted_score", r.weightedScore.json),
    ("rationale", .str r.rationale),
    ("time_spent_seconds", .int r.timeSpentSeconds.1),
    ("consensus", .null)]

/-- The text of a row that its author or its writers chose. -/
def texts (r : WholeRow) : List String :=
  [r.taskId, r.externalRef, r.taskType, r.prompt, r.rubricId, r.rubricName, r.expertId,
    r.rationale] ++ r.requiredTags ++ r.responses.flatMap (fun x => [x.model, x.text]) ++
    r.scores.map Prod.fst

end WholeRow

/-! ### Values that both sides hold -/

mutual

/-- A value of the service as a script has it: there is one kind of number. -/
def ofJson : Json → Value
  | .null => .null
  | .bool b => .bool b
  | .int n => .number (.round n)
  | .float q => .number (.round q)
  | .negZero => .number .negZero
  | .str s => .string s
  | .arr items => .array (ofItems items)
  | .obj fields => .object (ofFields fields)

def ofItems : List Json → List Value
  | [] => []
  | j :: js => ofJson j :: ofItems js

def ofFields : List (String × Json) → List (String × Value)
  | [] => []
  | (k, j) :: fs => (k, ofJson j) :: ofFields fs

end

mutual

/-- Whole numbers throughout, floats exactly where the port writes floats. -/
def Moded (asFloat : Bool) : Json → Prop
  | .int n => asFloat = false ∧ ∃ k : Whole, n = k.1
  | .float q => asFloat = true ∧ ∃ k : ℤ, q = k ∧ |k| < 10 ^ 15
  | .negZero => asFloat = true
  | .arr items => ModedItems asFloat items
  | .obj fields => ModedFields asFloat fields
  | _ => True

def ModedItems (asFloat : Bool) : List Json → Prop
  | [] => True
  | j :: js => Moded asFloat j ∧ ModedItems asFloat js

def ModedFields (asFloat : Bool) : List (String × Json) → Prop
  | [] => True
  | (k, j) :: fs => Moded (floatMode asFloat k) j ∧ ModedFields asFloat fs

end

/-- ASCII without DEL. -/
def Plain (s : String) : Prop := ∀ c ∈ s.toList, c.toNat < 127

mutual

/-- All text and all keys are plain. -/
def PlainJson : Json → Prop
  | .str s => Plain s
  | .arr items => PlainItems items
  | .obj fields => PlainFields fields
  | _ => True

def PlainItems : List Json → Prop
  | [] => True
  | j :: js => PlainJson j ∧ PlainItems js

def PlainFields : List (String × Json) → Prop
  | [] => True
  | (k, j) :: fs => Plain k ∧ PlainJson j ∧ PlainFields fs

end

mutual

/-- How many negative zeros there are. -/
def negZeros : Json → ℕ
  | .negZero => 1
  | .arr items => negZerosItems items
  | .obj fields => negZerosFields fields
  | _ => 0

def negZerosItems : List Json → ℕ
  | [] => 0
  | j :: js => negZeros j + negZerosItems js

def negZerosFields : List (String × Json) → ℕ
  | [] => 0
  | (_, j) :: fs => negZeros j + negZerosFields fs

end

/-! ### Where the two agree -/

section Agree
variable (other : ℚ → List Char) (repr : FloatRepr)

theorem escapeChar_eq {c : Char} (h : c.toNat < 127) :
    Script.escapeChar c = Serial.escapeChar c := by
  unfold Script.escapeChar Serial.escapeChar
  split_ifs <;> first | rfl | omega

theorem quote_eq {s : String} (h : Plain s) : Script.quote s = Serial.quote s := by
  unfold Script.quote Serial.quote
  rw [List.flatMap_congr (fun c hc => escapeChar_eq (h c hc))]

theorem codeUnits_eq {c : Char} (h : c.toNat < 127) : codeUnits c = [c.toNat] :=
  if_pos (by omega)

theorem units_of_plain {s : String} (h : Plain s) :
    s.toList.flatMap codeUnits = s.toList.map Char.toNat := by
  rw [List.flatMap_congr (fun c hc => codeUnits_eq (h c hc)), List.map_eq_flatMap]

/-- Plain keys are in the same order by code units as by code points. -/
theorem before_iff {a b : String} (ha : Plain a) (hb : Plain b) :
    before a b ↔ a.toList ≤ b.toList := by
  have hmono (x y : Char) (h : x < y) : x.toNat < y.toNat := h
  have hiff (l l' : List Char) : l.map Char.toNat < l'.map Char.toNat ↔ l < l' := by
    constructor
    · intro h
      by_contra hle
      rcases (not_lt.mp hle).lt_or_eq with hlt | rfl
      · exact lt_asymm h (List.map_lt hmono hlt)
      · exact lt_irrefl _ h
    · exact fun h => List.map_lt hmono h
  unfold before
  rw [units_of_plain ha, units_of_plain hb, ← not_lt, ← not_lt, hiff]

theorem sortKeys_eq {fields : List (String × List Char)} (h : ∀ f ∈ fields, Plain f.1) :
    sortKeys fields = sortFields fields := by
  have hmap := List.map_insertionSort (r := fun a b : String × List Char => before a.1 b.1)
    (s := fun a b => a.1.toList ≤ b.1.toList) id fields
    (fun a ha b hb => before_iff (h a ha) (h b hb))
  rwa [List.map_id, List.map_id] at hmap

theorem numberText_int {n : ℤ} (h : |n| < 10 ^ 15) :
    numberText other (.round n) = (toString n).toList := by
  have habs : |(n : ℚ)| < 10 ^ 21 := by
    have hn : |(n : ℚ)| < 10 ^ 15 := by exact_mod_cast h
    linarith
  rw [Binary64.Value.round_intCast (by omega), Binary64.Value.ofInt, numberText,
    if_pos ⟨Rat.den_intCast n, habs⟩, Rat.num_intCast]

theorem stringifyNumber_int {n : ℤ} (h : |n| < 10 ^ 15) :
    stringifyNumber other (.round n) = (toString n).toList := by
  have hsome : (Binary64.Value.round n).toRat.isSome = true := by
    rw [Binary64.Value.toRat_round (by omega)]
    rfl
  rw [stringifyNumber, if_pos hsome, numberText_int other h]

theorem pythonFloat_int {n : ℤ} (h : |n| < 10 ^ 15) :
    pythonFloat other (.round n) = (toString n).toList ++ ['.', '0'] := by
  have hint : isInteger (.round n) = true := by
    rw [isInteger, Binary64.Value.toRat_round (by omega)]
    simp
  rw [pythonFloat, if_pos hint, numberText_int other h]

theorem Whole.abs_lt (n : Whole) : |(n.1 : ℤ)| < 10 ^ 15 := by
  have h := n.2
  rw [abs_of_nonneg (Int.natCast_nonneg _)]
  exact_mod_cast h

mutual

/-- Plain values without a negative zero are written alike. -/
theorem stringify_eq (asFloat : Bool) : ∀ j : Json, Moded asFloat j → PlainJson j →
    negZeros j = 0 → stableStringify other asFloat (ofJson j) = dumps repr.text j
  | .null, _, _, _ => by rw [ofJson, stableStringify, dumps]
  | .bool b, _, _, _ => by rw [ofJson, stableStringify, dumps]
  | .int n, hm, _, _ => by
    rw [Moded] at hm
    obtain ⟨rfl, k, rfl⟩ := hm
    rw [ofJson, stableStringify, dumps, if_neg Bool.false_ne_true]
    exact stringifyNumber_int other k.abs_lt
  | .float q, hm, _, _ => by
    rw [Moded] at hm
    obtain ⟨rfl, k, rfl, hk⟩ := hm
    rw [ofJson, stableStringify, dumps, if_pos rfl, repr.whole k hk, pythonFloat_int other hk]
  | .negZero, _, _, hz => absurd hz (by simp [negZeros])
  | .str s, _, hp, _ => by
    rw [PlainJson] at hp
    rw [ofJson, stableStringify, dumps, quote_eq hp]
  | .arr items, hm, hp, hz => by
    rw [ofJson, stableStringify, dumps, stringifyItems_eq asFloat items hm hp hz]
  | .obj fields, hm, hp, hz => by
    -- keys of plain text are sorted alike by code units and by code points
    obtain ⟨hfields, hkeys⟩ := stringifyFields_eq asFloat fields hm hp hz
    have hmember : ((sortFields (dumpsFields repr.text fields)).map member) =
        (sortFields (dumpsFields repr.text fields)).map Serial.member := by
      refine List.map_congr_left (fun f hf => ?_)
      rw [member, Serial.member, quote_eq (hkeys f ((List.mem_insertionSort _).mp hf))]
    rw [ofJson, stableStringify, dumps, hfields, sortKeys_eq hkeys, hmember]

theorem stringifyItems_eq (asFloat : Bool) : ∀ items : List Json, ModedItems asFloat items →
    PlainItems items → negZerosItems items = 0 →
    stringifyItems other asFloat (ofItems items) = dumpsItems repr.text items
  | [], _, _, _ => rfl
  | j :: js, hm, hp, hz => by
    obtain ⟨hz, hzs⟩ := Nat.add_eq_zero_iff.mp hz
    rw [ofItems, stringifyItems, dumpsItems, stringify_eq asFloat j hm.1 hp.1 hz,
      stringifyItems_eq asFloat js hm.2 hp.2 hzs]

theorem stringifyFields_eq (asFloat : Bool) : ∀ fields : List (String × Json),
    ModedFields asFloat fields → PlainFields fields → negZerosFields fields = 0 →
    stringifyFields other asFloat (ofFields fields) = dumpsFields repr.text fields ∧
      ∀ f ∈ dumpsFields repr.text fields, Plain f.1
  | [], _, _, _ => ⟨rfl, fun f hf => absurd hf List.not_mem_nil⟩
  | (k, j) :: fs, hm, hp, hz => by
    obtain ⟨hz, hzs⟩ := Nat.add_eq_zero_iff.mp hz
    obtain ⟨hfs, hkeys⟩ := stringifyFields_eq asFloat fs hm.2 hp.2.2 hzs
    rw [ofFields, stringifyFields, dumpsFields, stringify_eq _ j hm.1 hp.2.1 hz, hfs]
    exact ⟨rfl, List.forall_mem_cons.mpr ⟨hp.1, hkeys⟩⟩

end

end Agree

/-! ### Where they differ -/

section Differ
variable (other : ℚ → List Char) (repr : FloatRepr)

/-- All of a text is ASCII without DEL. -/
def PlainText (text : List Char) : Prop := ∀ c ∈ text, c.toNat < 127

@[simp] theorem plainText_nil : PlainText [] := fun _ hc => absurd hc List.not_mem_nil

@[simp] theorem plainText_cons {c : Char} {l : List Char} :
    PlainText (c :: l) ↔ c.toNat < 127 ∧ PlainText l := List.forall_mem_cons

theorem PlainText.append {a b : List Char} (ha : PlainText a) (hb : PlainText b) :
    PlainText (a ++ b) := by
  intro c hc
  exact (List.mem_append.mp hc).elim (ha c) (hb c)

theorem PlainText.flatMap {α : Type} {l : List α} {f : α → List Char}
    (h : ∀ x ∈ l, PlainText (f x)) :
    PlainText (l.flatMap f) := by
  intro c hc
  obtain ⟨x, hx, hc⟩ := List.mem_flatMap.mp hc
  exact h x hx c hc

/-! The service writes ASCII without DEL, whatever the text. -/

theorem plain_digitChar {n : ℕ} (h : n < 16) : (Nat.digitChar n).toNat < 127 := by
  revert n
  decide

theorem plain_digits {b n : ℕ} (hb : 1 < b) (hb' : b ≤ 16) : PlainText (Nat.toDigits b n) := by
  intro c hc
  obtain ⟨d, hd, rfl⟩ := exists_digitChar hb hc
  exact plain_digitChar (hd.trans_le hb')

theorem plain_unicodeEscape (n : ℕ) : PlainText (unicodeEscape n) := by
  intro c hc
  rw [unicodeEscape, List.leftpad, List.mem_cons, List.mem_cons, List.mem_append,
    List.mem_replicate] at hc
  rcases hc with rfl | rfl | ⟨_, rfl⟩ | hc
  · decide
  · decide
  · decide
  · exact plain_digits (by decide) le_rfl c hc

theorem plain_escapeChar (c : Char) : PlainText (Serial.escapeChar c) := by
  unfold Serial.escapeChar
  split_ifs with h₁ h₂ h₃ h₄ h₅ h₆ h₇ h₈ h₉
  · simp
  · simp
  · simp
  · simp
  · simp
  · simp
  · simp
  · rw [plainText_cons]
    exact ⟨by omega, plainText_nil⟩
  · exact plain_unicodeEscape _
  · exact (plain_unicodeEscape _).append (plain_unicodeEscape _)

theorem plain_quote (s : String) : PlainText (Serial.quote s) := by
  have hbody : PlainText (s.toList.flatMap Serial.escapeChar) :=
    .flatMap (fun c _ => plain_escapeChar c)
  have hmark : PlainText ['"'] := by simp
  exact (hmark.append hbody).append hmark

theorem plain_joinWith {items : List (List Char)} (h : ∀ x ∈ items, PlainText x) :
    PlainText (joinWith ',' items) := by
  induction items with
  | nil => exact plainText_nil
  | cons x xs ih =>
    obtain ⟨hx, hxs⟩ := List.forall_mem_cons.mp h
    cases xs with
    | nil => exact hx
    | cons y ys =>
      rw [joinWith]
      · apply hx.append
        rw [← List.singleton_append]
        exact PlainText.append (by simp) (ih hxs)
      · exact List.cons_ne_nil y ys

theorem plain_int (n : ℤ) : PlainText (toString n).toList := by
  have hnat (m : ℕ) : PlainText (toString m).toList := by
    rw [Nat.toString_eq_ofList_toDigits, String.toList_ofList]
    exact plain_digits (by decide) (by decide)
  cases n with
  | ofNat m => exact hnat m
  | negSucc m =>
    show PlainText ("-" ++ toString (m + 1)).toList
    rw [String.toList_append]
    exact PlainText.append (by simp) (hnat (m + 1))

mutual

theorem plain_dumps (asFloat : Bool) : ∀ j : Json, Moded asFloat j → PlainText (dumps repr.text j)
  | .null, _ => by rw [dumps]; simp
  | .bool true, _ => by rw [dumps]; simp
  | .bool false, _ => by rw [dumps]; simp
  | .int n, _ => by
    rw [dumps]
    exact plain_int n
  | .float q, hm => by
    rw [Moded] at hm
    obtain ⟨_, k, rfl, hk⟩ := hm
    rw [dumps, repr.whole k hk]
    exact (plain_int k).append (by simp)
  | .negZero, _ => by rw [dumps]; simp
  | .str s, _ => by
    rw [dumps]
    exact plain_quote s
  | .arr items, hm => by
    -- brackets, commas and colons are plain, and so is what they enclose
    have hitems := plain_joinWith (plain_dumpsItems asFloat items hm)
    have hopen : PlainText ['['] := by simp
    rw [dumps, ← List.singleton_append]
    exact hopen.append (hitems.append (by simp))
  | .obj fields, hm => by
    have hfields : ∀ x ∈ (sortFields (dumpsFields repr.text fields)).map Serial.member,
        PlainText x := by
      intro x hx
      obtain ⟨f, hf, rfl⟩ := List.mem_map.mp hx
      have hvalue := plain_dumpsFields asFloat fields hm f ((List.mem_insertionSort _).mp hf)
      have hcolon : PlainText [':'] := by simp
      rw [Serial.member, ← List.singleton_append]
      exact (plain_quote f.1).append (hcolon.append hvalue)
    have hopen : PlainText ['\x7b'] := by simp
    rw [dumps, ← List.singleton_append]
    exact hopen.append ((plain_joinWith hfields).append (by simp))

theorem plain_dumpsItems (asFloat : Bool) : ∀ items : List Json, ModedItems asFloat items →
    ∀ x ∈ dumpsItems repr.text items, PlainText x
  | [], _ => fun x hx => absurd hx List.not_mem_nil
  | j :: js, hm => by
    rw [dumpsItems, List.forall_mem_cons]
    exact ⟨plain_dumps asFloat j hm.1, plain_dumpsItems asFloat js hm.2⟩

theorem plain_dumpsFields (asFloat : Bool) : ∀ fields : List (String × Json),
    ModedFields asFloat fields → ∀ f ∈ dumpsFields repr.text fields, PlainText f.2
  | [], _ => fun f hf => absurd hf List.not_mem_nil
  | (k, j) :: fs, hm => by
    rw [dumpsFields, List.forall_mem_cons]
    exact ⟨plain_dumps _ j hm.1, plain_dumpsFields asFloat fs hm.2⟩

end

/-! The port writes every other character as it is. -/

theorem plain_of_quote {s : String} (h : PlainText (Script.quote s)) : Plain s := by
  intro c hc
  by_contra hlarge
  have hself : Script.escapeChar c = [c] := by
    have hne (d : Char) (hd : d.toNat < 127) : c ≠ d := by
      rintro rfl
      exact hlarge hd
    unfold Script.escapeChar
    rw [if_neg (hne _ (by decide)), if_neg (hne _ (by decide)), if_neg (hne _ (by decide)),
      if_neg (hne _ (by decide)), if_neg (hne _ (by decide)), if_neg (by omega), if_neg (by omega),
      if_neg (by omega)]
  have hmem : c ∈ s.toList.flatMap Script.escapeChar :=
    List.mem_flatMap.mpr ⟨c, hc, by rw [hself]; exact List.mem_singleton_self c⟩
  exact hlarge (h c (List.mem_append_left _ (List.mem_cons_of_mem _ hmem)))

theorem plain_of_joinWith {items : List (List Char)} (h : PlainText (joinWith ',' items)) :
    ∀ x ∈ items, PlainText x := by
  induction items with
  | nil => exact fun x hx => absurd hx List.not_mem_nil
  | cons x xs ih =>
    rw [List.forall_mem_cons]
    cases xs with
    | nil => exact ⟨h, fun y hy => absurd hy List.not_mem_nil⟩
    | cons y ys =>
      rw [joinWith] at h
      · exact ⟨fun c hc => h c (List.mem_append_left _ hc),
          ih (fun c hc => h c (List.mem_append_right _ (List.mem_cons_of_mem _ hc)))⟩
      · exact List.cons_ne_nil y ys

mutual

theorem plain_of_stringify (asFloat : Bool) : ∀ j : Json,
    PlainText (stableStringify other asFloat (ofJson j)) → PlainJson j
  | .null, _ => trivial
  | .bool _, _ => trivial
  | .int _, _ => trivial
  | .float _, _ => trivial
  | .negZero, _ => trivial
  | .str s, h => by
    rw [ofJson, stableStringify] at h
    rw [PlainJson]
    exact plain_of_quote h
  | .arr items, h => by
    rw [ofJson, stableStringify] at h
    rw [PlainJson]
    exact plain_of_items asFloat items (plain_of_joinWith
      (fun c hc => h c (List.mem_append_left _ (List.mem_cons_of_mem _ hc))))
  | .obj fields, h => by
    rw [ofJson, stableStringify] at h
    rw [PlainJson]
    -- sorting loses no member
    have hall := plain_of_joinWith
      (fun c hc => h c (List.mem_append_left _ (List.mem_cons_of_mem _ hc)))
    refine plain_of_fields asFloat fields (fun f hf => ?_)
    have hmem :
        member f ∈ (sortKeys (stringifyFields other asFloat (ofFields fields))).map member :=
      List.mem_map_of_mem ((List.mem_insertionSort _).mpr hf)
    exact hall _ hmem

theorem plain_of_items (asFloat : Bool) : ∀ items : List Json,
    (∀ x ∈ stringifyItems other asFloat (ofItems items), PlainText x) → PlainItems items
  | [], _ => trivial
  | j :: js, h => by
    rw [ofItems, stringifyItems, List.forall_mem_cons] at h
    exact ⟨plain_of_stringify asFloat j h.1, plain_of_items asFloat js h.2⟩

theorem plain_of_fields (asFloat : Bool) : ∀ fields : List (String × Json),
    (∀ f ∈ stringifyFields other asFloat (ofFields fields), PlainText (member f)) →
      PlainFields fields
  | [], _ => trivial
  | (k, j) :: fs, h => by
    rw [ofFields, stringifyFields, List.forall_mem_cons] at h
    have hkey : Plain k := plain_of_quote (fun c hc => h.1 c (List.mem_append_left _ hc))
    have hvalue := plain_of_stringify (floatMode asFloat k) j
      (fun c hc => h.1 c (List.mem_append_right _ (List.mem_cons_of_mem _ hc)))
    exact ⟨hkey, hvalue, plain_of_fields asFloat fs h.2⟩

end

/-! The port leaves the sign of a negative zero out. -/

theorem count_member (c : Char) (k : String) (v : List Char) :
    (Serial.member (k, v)).count c = (Serial.quote k ++ [':']).count c + v.count c := by
  rw [Serial.member, ← List.count_append, List.append_assoc, List.singleton_append]

theorem count_bracketed {c o e : Char} (ho : c ≠ o) (he : c ≠ e) (text : List Char) :
    (o :: text ++ [e]).count c = text.count c := by
  rw [List.cons_append, List.count_cons_of_ne ho.symm, List.count_append, List.count_singleton,
    if_neg (by simpa using he.symm), Nat.add_zero]

theorem count_stringify_obj {asFloat : Bool} {fields : List (String × Value)} :
    (stableStringify other asFloat (.object fields)).count '-' =
      ((stringifyFields other asFloat fields).map (fun f => (member f).count '-')).sum := by
  have hsorted : (sortKeys (stringifyFields other asFloat fields)).Perm
      (stringifyFields other asFloat fields) := List.perm_insertionSort _ _
  rw [stableStringify, count_bracketed (by decide) (by decide), count_joinWith (by decide),
    List.map_map]
  exact (hsorted.map _).sum_eq

mutual

/-- Written plainly, the two texts have the same signs but for those of the negative zeros. -/
theorem count_dashes (asFloat : Bool) : ∀ j : Json, Moded asFloat j → PlainJson j →
    (dumps repr.text j).count '-' =
      (stableStringify other asFloat (ofJson j)).count '-' + negZeros j
  | .null, hm, hp => by rw [stringify_eq other repr asFloat _ hm hp rfl]; rfl
  | .bool b, hm, hp => by rw [stringify_eq other repr asFloat _ hm hp rfl]; rfl
  | .int n, hm, hp => by rw [stringify_eq other repr asFloat _ hm hp rfl]; rfl
  | .float q, hm, hp => by rw [stringify_eq other repr asFloat _ hm hp rfl]; rfl
  -- the one value on which the texts differ
  | .negZero, hm, _ => by
    rw [Moded] at hm
    subst hm
    rw [ofJson, stableStringify, dumps, if_pos rfl, negZeros]
    rfl
  | .str s, hm, hp => by rw [stringify_eq other repr asFloat _ hm hp rfl]; rfl
  | .arr items, hm, hp => by
    rw [ofJson, stableStringify, dumps, negZeros, count_bracketed (by decide) (by decide),
      count_bracketed (by decide) (by decide), count_joinWith (by decide),
      count_joinWith (by decide)]
    exact count_dashesItems asFloat items hm hp
  | .obj fields, hm, hp => by
    rw [count_dumps_obj ⟨by decide, by decide, by decide⟩, ofJson, count_stringify_obj, negZeros]
    exact count_dashesFields asFloat fields hm hp

theorem count_dashesItems (asFloat : Bool) : ∀ items : List Json, ModedItems asFloat items →
    PlainItems items → ((dumpsItems repr.text items).map (List.count '-')).sum =
      ((stringifyItems other asFloat (ofItems items)).map (List.count '-')).sum +
        negZerosItems items
  | [], _, _ => rfl
  | j :: js, hm, hp => by
    have hj := count_dashes asFloat j hm.1 hp.1
    have hjs := count_dashesItems asFloat js hm.2 hp.2
    rw [dumpsItems, ofItems, stringifyItems, negZerosItems, List.map_cons, List.map_cons,
      List.sum_cons, List.sum_cons]
    omega

theorem count_dashesFields (asFloat : Bool) : ∀ fields : List (String × Json),
    ModedFields asFloat fields → PlainFields fields →
    (fields.map (fun f => (Serial.member (f.1, dumps repr.text f.2)).count '-')).sum =
      ((stringifyFields other asFloat (ofFields fields)).map
        (fun f => (member f).count '-')).sum + negZerosFields fields
  | [], _, _ => rfl
  | (k, j) :: fs, hm, hp => by
    have hj := count_dashes (floatMode asFloat k) j hm.1 hp.2.1
    have hfs := count_dashesFields asFloat fs hm.2 hp.2.2
    have hmember (v : List Char) : (member (k, v)).count '-' =
        (Serial.quote k ++ [':']).count '-' + v.count '-' := by
      rw [← count_member, member, Serial.member, quote_eq hp.1]
    rw [ofFields, stringifyFields, negZerosFields, List.map_cons, List.map_cons, List.sum_cons,
      List.sum_cons, count_member, hmember]
    dsimp only
    omega

end

/-- The two texts are the same exactly when all text in the value is plain and no number in it is
a negative zero. -/
theorem stringify_eq_iff {asFloat : Bool} {j : Json} (hm : Moded asFloat j) :
    stableStringify other asFloat (ofJson j) = dumps repr.text j ↔
      PlainJson j ∧ negZeros j = 0 := by
  constructor
  · intro h
    have hplain : PlainJson j := by
      apply plain_of_stringify other asFloat j
      rw [h]
      exact plain_dumps repr asFloat j hm
    have hcount := count_dashes other repr asFloat j hm hplain
    rw [h] at hcount
    exact ⟨hplain, by omega⟩
  · rintro ⟨hplain, hzero⟩
    exact stringify_eq other repr asFloat j hm hplain hzero

end Differ

/-! ### Rows and bodies -/

theorem modedItems_iff {asFloat : Bool} {items : List Json} :
    ModedItems asFloat items ↔ ∀ j ∈ items, Moded asFloat j := by
  induction items with
  | nil => simp [ModedItems]
  | cons j js ih => rw [ModedItems, ih, List.forall_mem_cons]

theorem modedFields_iff {asFloat : Bool} {fields : List (String × Json)} :
    ModedFields asFloat fields ↔ ∀ f ∈ fields, Moded (floatMode asFloat f.1) f.2 := by
  induction fields with
  | nil => simp [ModedFields]
  | cons f fs ih => rw [ModedFields, ih, List.forall_mem_cons]

theorem plainItems_iff {items : List Json} : PlainItems items ↔ ∀ j ∈ items, PlainJson j := by
  induction items with
  | nil => simp [PlainItems]
  | cons j js ih => rw [PlainItems, ih, List.forall_mem_cons]

theorem plainFields_iff {fields : List (String × Json)} :
    PlainFields fields ↔ ∀ f ∈ fields, Plain f.1 ∧ PlainJson f.2 := by
  induction fields with
  | nil => simp [PlainFields]
  | cons f fs ih => rw [PlainFields, ih, List.forall_mem_cons, and_assoc]

theorem ofItems_eq (items : List Json) : ofItems items = items.map ofJson := by
  induction items with
  | nil => rfl
  | cons j js ih => rw [ofItems, ih, List.map_cons]

theorem ofFields_eq (fields : List (String × Json)) :
    ofFields fields = fields.map (fun f => (f.1, ofJson f.2)) := by
  induction fields with
  | nil => rfl
  | cons f fs ih => rw [ofFields, ih, List.map_cons]

namespace WholeRow

/-- All text of the row is ASCII without DEL. -/
def AllPlain (r : WholeRow) : Prop := ∀ s ∈ r.texts, Plain s

/-- No score of the row and not its weighted score is the negative zero. -/
def NoNegZero (r : WholeRow) : Prop :=
  (∀ s ∈ r.scores, s.2 ≠ .negZero) ∧ r.weightedScore ≠ .negZero

/-- The port's row is the service's row, with one kind of number. -/
theorem ofJson_service (r : WholeRow) : ofJson r.service = r.port.value := by
  unfold service DeliveryRow.value port
  simp only [ofJson, ofFields_eq, ofItems_eq, List.map_cons, List.map_nil, List.map_map]
  have htags : List.map (ofJson ∘ Json.str) r.requiredTags = r.requiredTags.map .string :=
    List.map_congr_left (fun _ _ => by rw [Function.comp_apply, ofJson])
  have hresponses : List.map (ofJson ∘ Response.json) r.responses = r.responses.map (fun x =>
      .object [("model", .string x.model), ("text", .string x.text)]) :=
    List.map_congr_left (fun x _ => by
      simp only [Function.comp_apply, Response.json, ofJson, ofFields_eq, List.map_cons,
        List.map_nil])
  have hfloat (x : WholeFloat) : ofJson x.json = .number x.number := by
    cases x <;> rw [WholeFloat.json, ofJson, WholeFloat.number]
  have hscores : List.map ((fun f : String × Json => (f.1, ofJson f.2)) ∘
      fun s : String × WholeFloat => (s.1, s.2.json)) r.scores =
      r.scores.map (fun s => (s.1, .number s.2.number)) :=
    List.map_congr_left (fun s _ => by rw [Function.comp_apply, hfloat])
  rw [htags, hresponses, hscores, hfloat]
  rfl

/-- The service's floats stand in the fields that the port writes as floats. -/
theorem moded_service (r : WholeRow) : Moded false r.service := by
  -- scores and the weighted score are the fields that are written as floats
  have hfloat (x : WholeFloat) : Moded true x.json := by
    cases x with
    | int n h => exact ⟨rfl, n, rfl, h⟩
    | negZero => rfl
  have hscores : ∀ f ∈ r.scores.map (fun s => (s.1, s.2.json)), Moded (floatMode true f.1) f.2 := by
    intro f hf
    obtain ⟨s, _, rfl⟩ := List.mem_map.mp hf
    exact hfloat s.2
  have hresponses : ∀ j ∈ r.responses.map Response.json, Moded false j := by
    intro j hj
    obtain ⟨x, _, rfl⟩ := List.mem_map.mp hj
    simp [Response.json, Moded, modedFields_iff]
  have htags : ∀ j ∈ r.requiredTags.map Json.str, Moded false j := by
    intro j hj
    obtain ⟨x, _, rfl⟩ := List.mem_map.mp hj
    trivial
  have hrubric : Moded false (.obj [("id", .str r.rubricId), ("name", .str r.rubricName),
      ("version", .int r.rubricVersion.1)]) := by
    simp [Moded, modedFields_iff, floatMode, floatFields]
  have hversion : Moded false (.int r.timeSpentSeconds.1) := ⟨rfl, r.timeSpentSeconds, rfl⟩
  have hweighted : Moded true r.weightedScore.json := hfloat r.weightedScore
  -- field by field, in the order of the row
  rw [← modedItems_iff] at htags hresponses
  rw [← modedFields_iff] at hscores
  unfold service
  rw [Moded, modedFields_iff]
  simp only [List.forall_mem_cons]
  exact ⟨trivial, trivial, trivial, htags, trivial, hresponses, hrubric, trivial, trivial, hscores,
    hweighted, trivial, hversion, trivial, fun f hf => absurd hf List.not_mem_nil⟩

theorem plainJson_service (r : WholeRow) : PlainJson r.service ↔ r.AllPlain := by
  have htier : Plain r.expertTier.value := by
    cases r.expertTier <;> simp [Plain, Tier.value]
  have hresponse (x : Response) : PlainJson x.json ↔ Plain x.model ∧ Plain x.text := by
    simp [Response.json, PlainJson, plainFields_iff, Plain]
  have hfloat (x : WholeFloat) : PlainJson x.json := by
    cases x <;> trivial
  have hkeys : ∀ k ∈ ["task_id", "external_ref", "task_type", "required_tags", "prompt",
      "responses", "rubric", "id", "name", "version", "expert_id", "expert_tier", "scores",
      "weighted_score", "rationale", "time_spent_seconds", "consensus"], Plain k := by
    simp [Plain]
  unfold service AllPlain texts
  simp only [PlainJson, plainFields_iff, plainItems_iff, List.forall_mem_cons,
    List.forall_mem_append, List.forall_mem_map, List.mem_flatMap, hresponse, htier] at hkeys ⊢
  -- the member names are plain, and what is left are the texts of the row
  obtain ⟨k₁, k₂, k₃, k₄, k₅, k₆, k₇, k₈, k₉, k₁₀, k₁₁, k₁₂, k₁₃, k₁₄, k₁₅, k₁₆, k₁₇, _⟩ := hkeys
  have hresponses : (∀ s, (∃ x ∈ r.responses, s ∈ [x.model, x.text]) → Plain s) ↔
      ∀ x ∈ r.responses, Plain x.model ∧ Plain x.text := by
    constructor
    · exact fun h x hx => ⟨h _ ⟨x, hx, by simp⟩, h _ ⟨x, hx, by simp⟩⟩
    · rintro h s ⟨x, hx, hs⟩
      rcases List.mem_pair.mp hs with rfl | rfl
      · exact (h x hx).1
      · exact (h x hx).2
  rw [hresponses]
  constructor
  · rintro ⟨⟨_, hid⟩, ⟨_, href⟩, ⟨_, htype⟩, ⟨_, htags⟩, ⟨_, hprompt⟩, ⟨_, hresp⟩,
      ⟨_, ⟨_, hrid⟩, ⟨_, hrname⟩, _⟩, ⟨_, hexpert⟩, _, ⟨_, hscores⟩, _, ⟨_, hrationale⟩, _⟩
    exact ⟨⟨⟨⟨hid, href, htype, hprompt, hrid, hrname, hexpert, hrationale,
      fun s hs => absurd hs List.not_mem_nil⟩, htags⟩, hresp⟩, fun s hs => (hscores s hs).1⟩
  · rintro ⟨⟨⟨⟨hid, href, htype, hprompt, hrid, hrname, hexpert, hrationale, _⟩, htags⟩, hresp⟩,
      hscores⟩
    exact ⟨⟨k₁, hid⟩, ⟨k₂, href⟩, ⟨k₃, htype⟩, ⟨k₄, htags⟩, ⟨k₅, hprompt⟩, ⟨k₆, hresp⟩,
      ⟨k₇, ⟨k₈, hrid⟩, ⟨k₉, hrname⟩, ⟨k₁₀, trivial⟩, fun f hf => absurd hf List.not_mem_nil⟩,
      ⟨k₁₁, hexpert⟩, ⟨k₁₂, trivial⟩, ⟨k₁₃, fun s hs => ⟨hscores s hs, hfloat s.2⟩⟩,
      ⟨k₁₄, hfloat r.weightedScore⟩,
      ⟨k₁₅, hrationale⟩, ⟨k₁₆, trivial⟩, ⟨k₁₇, trivial⟩, fun f hf => absurd hf List.not_mem_nil⟩

theorem negZeros_service (r : WholeRow) : negZeros r.service = 0 ↔ r.NoNegZero := by
  have hfloat (x : WholeFloat) : negZeros x.json = 0 ↔ x ≠ .negZero := by
    cases x <;> simp [WholeFloat.json, negZeros]
  have htags (tags : List String) : negZerosItems (tags.map Json.str) = 0 := by
    induction tags with
    | nil => rfl
    | cons t ts ih => rw [List.map_cons, negZerosItems, ih]; rfl
  have hresponses (xs : List Response) : negZerosItems (xs.map Response.json) = 0 := by
    induction xs with
    | nil => rfl
    | cons x xs ih => rw [List.map_cons, negZerosItems, ih]; rfl
  have hscores (scores : List (String × WholeFloat)) :
      negZerosFields (scores.map (fun s => (s.1, s.2.json))) = 0 ↔
        ∀ s ∈ scores, s.2 ≠ .negZero := by
    induction scores with
    | nil => simp [negZerosFields]
    | cons s ss ih =>
      rw [List.map_cons, negZerosFields, Nat.add_eq_zero_iff, ih, hfloat, List.forall_mem_cons]
  unfold service NoNegZero
  simp only [negZeros, negZerosFields, htags, hresponses, Nat.add_eq_zero_iff, hscores, hfloat,
    true_and, and_true]

end WholeRow

theorem joinWith_ended {sep : Char} {lines : List (List Char)} (h : lines ≠ []) :
    joinWith sep lines ++ [sep] = lines.flatMap (· ++ [sep]) := by
  induction lines with
  | nil => exact absurd rfl h
  | cons x xs ih =>
    cases xs with
    | nil => simp [joinWith]
    | cons y ys =>
      rw [joinWith, List.append_assoc, List.cons_append, ih (List.cons_ne_nil y ys)]
      · simp
      · exact List.cons_ne_nil y ys

/-- The port's body is its lines, each ended by a newline. -/
theorem jsonl_eq (other : ℚ → List Char) (rows : List DeliveryRow) :
    jsonl other rows = rows.flatMap (fun r => stableStringify other false r.value ++ ['\n']) := by
  unfold jsonl
  cases rows with
  | nil => rfl
  | cons r rs =>
    dsimp only
    rw [List.map_cons, List.isEmpty_cons, if_neg Bool.false_ne_true,
      joinWith_ended (List.cons_ne_nil _ _), List.flatMap_cons, List.flatMap_cons, List.flatMap_map]

/-- Texts that have `n` of a character more for each element have the same number only if there is
no `n`. -/
theorem eq_zero_of_count_flatMap {α : Type} {c : Char} {f g : α → List Char} {n : α → ℕ}
    {xs : List α} (h : ∀ x ∈ xs, (f x).count c = (g x).count c + n x)
    (heq : (xs.flatMap f).count c = (xs.flatMap g).count c) : ∀ x ∈ xs, n x = 0 := by
  have hsum : (xs.flatMap f).count c = (xs.flatMap g).count c + (xs.map n).sum := by
    clear heq
    induction xs with
    | nil => rfl
    | cons x xs ih =>
      obtain ⟨hx, hxs⟩ := List.forall_mem_cons.mp h
      rw [List.flatMap_cons, List.flatMap_cons, List.count_append, List.count_append, hx, ih hxs,
        List.map_cons, List.sum_cons]
      omega
  have hzero : (xs.map n).sum = 0 := by omega
  exact fun x hx => List.sum_eq_zero_iff.mp hzero _ (List.mem_map_of_mem hx)

/-- The body `build_jsonl` writes for such rows. -/
def serviceBody (repr : FloatRepr) (rows : List WholeRow) : List Char :=
  rows.flatMap (fun r => dumps repr.text r.service ++ ['\n'])

/-- A row, and a body of rows, is byte for byte the service's exactly when all its text is
ASCII without DEL and no score in it is the negative zero. -/
theorem port_row_eq_iff (other : ℚ → List Char) (repr : FloatRepr) :
    (∀ r : WholeRow, (String.ofList (stableStringify other false r.port.value)).toUTF8 =
      (String.ofList (dumps repr.text r.service)).toUTF8 ↔ r.AllPlain ∧ r.NoNegZero) ∧
    (∀ rows : List WholeRow, (String.ofList (jsonl other (rows.map WholeRow.port))).toUTF8 =
      (String.ofList (serviceBody repr rows)).toUTF8 ↔ ∀ r ∈ rows, r.AllPlain ∧ r.NoNegZero) := by
  have hrow (r : WholeRow) : stableStringify other false r.port.value = dumps repr.text r.service ↔
      r.AllPlain ∧ r.NoNegZero := by
    rw [← r.ofJson_service, stringify_eq_iff other repr r.moded_service, r.plainJson_service,
      r.negZeros_service]
  refine ⟨fun r => toUTF8_eq_iff.trans (hrow r), fun rows => toUTF8_eq_iff.trans ?_⟩
  rw [jsonl_eq, serviceBody, List.flatMap_map]
  constructor
  · intro h
    -- the service writes nothing else, so the port did not either
    have hall : ∀ r ∈ rows, PlainJson r.service := by
      intro r hr
      have hplain : PlainText (rows.flatMap (fun r => stableStringify other false r.port.value ++
          ['\n'])) := by
        rw [h]
        exact .flatMap (fun r _ => (plain_dumps repr false r.service r.moded_service).append
          (by simp))
      apply plain_of_stringify other false r.service
      rw [r.ofJson_service]
      exact fun c hc => hplain c (List.mem_flatMap.mpr ⟨r, hr, List.mem_append_left _ hc⟩)
    -- a sign more in one row is not made up for in another
    have hsigns : ∀ r ∈ rows, negZeros r.service = 0 := by
      refine eq_zero_of_count_flatMap (fun r hr => ?_) (congrArg (List.count '-') h.symm)
      have hcount := count_dashes other repr false r.service r.moded_service (hall r hr)
      rw [r.ofJson_service] at hcount
      rw [List.count_append, List.count_append, hcount, Nat.add_right_comm]
    intro r hr
    rw [← r.plainJson_service, ← r.negZeros_service]
    exact ⟨hall r hr, hsigns r hr⟩
  · intro h
    exact List.flatMap_congr (fun r hr => by rw [(hrow r).mpr (h r hr)])

/-- A row whose author writes `rationale` and whose other text is plain. -/
def rowWith (rationale : String) : WholeRow where
  taskId := "t"
  externalRef := "sim-0001"
  taskType := "single"
  requiredTags := ["python"]
  prompt := "Prompt"
  responses := [⟨"model-a", "Answer"⟩]
  rubricId := "r"
  rubricName := "response-quality"
  rubricVersion := ⟨1, by decide⟩
  expertId := "e"
  expertTier := .senior
  scores := [("accuracy", .int 4 (by decide))]
  weightedScore := .int 4 (by decide)
  rationale := rationale
  timeSpentSeconds := ⟨60, by decide⟩

/-- A float writer that knows whole numbers. -/
def wholeFloats : FloatRepr where
  text q := (toString q.num).toList ++ ['.', '0']
  whole n _ := by rw [Rat.num_intCast]

/-- An accented letter: the service writes `\u00e9`, the port the letter. -/
theorem accented_row_differs : ¬ ∀ other, ∀ repr : FloatRepr, ∀ r : WholeRow,
    (String.ofList (stableStringify other false r.port.value)).toUTF8 =
      (String.ofList (dumps repr.text r.service)).toUTF8 := by
  intro h
  have heq := toUTF8_eq_iff.mp (h (fun _ => []) wholeFloats (rowWith "Touché."))
  rw [← (rowWith "Touché.").ofJson_service,
    stringify_eq_iff (fun _ => []) wholeFloats (WholeRow.moded_service _),
    WholeRow.plainJson_service] at heq
  exact absurd (heq.1 "Touché." (by simp [rowWith, WholeRow.texts]) 'é' (by decide)) (by decide)

end Panelist.Port
