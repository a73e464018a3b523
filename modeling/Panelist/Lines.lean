import Panelist.Json

/-! JSON Lines: a dumped value is one line whatever text it holds, and the newline bytes of a
UTF-8 text are its newline characters. -/
namespace Serial

section Dumps
variable {c : Char}

/-- A base-16 digit is neither a newline nor a separator of paths. -/
theorem digitChar_ne_of_lt {n : ℕ} (h : n < 16) :
    Nat.digitChar n ≠ '\n' ∧ Nat.digitChar n ≠ '/' := by
  revert n
  decide

theorem hex_digit_ne {n : ℕ} (h : c ∈ Nat.toDigits 16 n) : c ≠ '\n' ∧ c ≠ '/' := by
  obtain ⟨d, hd, rfl⟩ := exists_digitChar (by decide) h
  exact digitChar_ne_of_lt hd

theorem padded_ne {c : Char} {k n : ℕ} (h : c ∈ (Nat.toDigits 16 n).leftpad k '0') :
    c ≠ '\n' ∧ c ≠ '/' := by
  rw [List.leftpad, List.mem_append, List.mem_replicate] at h
  rcases h with ⟨_, h⟩ | h
  · rw [h]
    decide
  · exact hex_digit_ne h

/-- A decimal digit is none of the characters around it. -/
theorem digit_ne {n : ℕ} (h : c ∈ (toString n).toList) : c ≠ '\n' ∧ c ≠ '/' ∧ c ≠ '-' := by
  rw [Nat.toString_eq_ofList_toDigits, String.toList_ofList] at h
  have hd : c.isDigit = true := Nat.isDigit_of_mem_toDigits (by decide) (by decide) h
  refine ⟨?_, ?_, ?_⟩
  · rintro rfl
    exact absurd hd (by decide)
  · rintro rfl
    exact absurd hd (by decide)
  · rintro rfl
    exact absurd hd (by decide)

theorem newline_unicodeEscape (n : ℕ) : '\n' ∉ unicodeEscape n := by
  simp only [unicodeEscape, List.mem_cons, not_or]
  exact ⟨by decide, by decide, fun h => (padded_ne h).1 rfl⟩

/-- A newline in a text is written as an escape. -/
theorem newline_escapeChar (c : Char) : '\n' ∉ escapeChar c := by
  unfold escapeChar
  split_ifs with h₁ h₂ h₃ h₄ h₅ h₆ h₇ h₈ h₉
  · decide
  · decide
  · decide
  · decide
  · decide
  · decide
  · decide
  · rw [List.mem_singleton]
    exact Ne.symm h₃
  · exact newline_unicodeEscape _
  · simp only [List.mem_append, not_or]
    exact ⟨newline_unicodeEscape _, newline_unicodeEscape _⟩

theorem newline_quote (s : String) : '\n' ∉ quote s := by
  simp only [quote, List.mem_cons, List.mem_append, List.mem_flatMap, not_or, not_exists, not_and]
  exact ⟨⟨by decide, fun c _ => newline_escapeChar c⟩, by decide⟩

theorem newline_joinWith (sep : Char) (hsep : sep ≠ '\n') {items : List (List Char)}
    (h : ∀ x ∈ items, '\n' ∉ x) : '\n' ∉ joinWith sep items := by
  induction items with
  | nil => simp [joinWith]
  | cons x xs ih =>
    cases xs with
    | nil => exact h x (List.mem_singleton_self x)
    | cons y ys =>
      rw [joinWith, List.mem_append, List.mem_cons, not_or, not_or]
      · exact ⟨h x List.mem_cons_self, hsep.symm,
          ih (fun z hz => h z (List.mem_cons_of_mem x hz))⟩
      · exact List.cons_ne_nil y ys

theorem newline_int (n : ℤ) : '\n' ∉ (toString n).toList := by
  cases n with
  | ofNat n =>
    show '\n' ∉ (toString n).toList
    exact fun h => (digit_ne h).1 rfl
  | negSucc n =>
    show '\n' ∉ ("-" ++ toString (n + 1)).toList
    rw [String.toList_append, List.mem_append, not_or]
    exact ⟨by decide, fun h => (digit_ne h).1 rfl⟩

theorem newline_decimals (places : ℕ) (r : ℚ) : '\n' ∉ decimals places r := by
  induction places generalizing r with
  | zero => exact List.not_mem_nil
  | succ places ih =>
    rw [decimals, List.mem_append, not_or]
    refine ⟨newline_int _, ?_⟩
    split_ifs
    · exact List.not_mem_nil
    · exact ih _

theorem newline_decimalRepr (q : ℚ) : '\n' ∉ decimalRepr q := by
  rw [decimalRepr, List.mem_append, List.mem_cons, not_or, not_or]
  exact ⟨newline_int _, by decide, newline_decimals _ _⟩

variable {floatRepr : ℚ → List Char}

mutual

/-- A dumped value has no newline, whatever text it holds. -/
theorem newline_dumps (hfloat : ∀ q, '\n' ∉ floatRepr q) : ∀ j : Json, '\n' ∉ dumps floatRepr j
  | .null => by rw [dumps]; decide
  | .bool true => by rw [dumps]; decide
  | .bool false => by rw [dumps]; decide
  | .int n => by rw [dumps]; exact newline_int n
  | .float q => by rw [dumps]; exact hfloat q
  | .negZero => by rw [dumps]; decide
  | .str s => by rw [dumps]; exact newline_quote s
  | .arr items => by
    have hitems := newline_joinWith ',' (by decide) (newline_dumpsItems hfloat items)
    simp only [dumps, List.mem_cons, List.mem_append, not_or]
    exact ⟨⟨by decide, hitems⟩, by decide⟩
  | .obj fields => by
    -- the names are quoted as well
    have hfields : ∀ x ∈ (sortFields (dumpsFields floatRepr fields)).map member, '\n' ∉ x := by
      intro x hx
      obtain ⟨f, hf, rfl⟩ := List.mem_map.mp hx
      have hvalue := newline_dumpsFields hfloat fields f ((List.mem_insertionSort _).mp hf)
      simp only [member, List.mem_append, List.mem_cons, not_or]
      exact ⟨newline_quote f.1, by decide, hvalue⟩
    have hjoined := newline_joinWith ',' (by decide) hfields
    simp only [dumps, List.mem_cons, List.mem_append, not_or]
    exact ⟨⟨by decide, hjoined⟩, by decide⟩

theorem newline_dumpsItems (hfloat : ∀ q, '\n' ∉ floatRepr q) :
    ∀ items : List Json, ∀ x ∈ dumpsItems floatRepr items, '\n' ∉ x
  | [] => by simp [dumpsItems]
  | j :: js => by
    rw [dumpsItems, List.forall_mem_cons]
    exact ⟨newline_dumps hfloat j, newline_dumpsItems hfloat js⟩

theorem newline_dumpsFields (hfloat : ∀ q, '\n' ∉ floatRepr q) :
    ∀ fields : List (String × Json), ∀ f ∈ dumpsFields floatRepr fields, '\n' ∉ f.2
  | [] => by simp [dumpsFields]
  | (k, j) :: fs => by
    rw [dumpsFields, List.forall_mem_cons]
    exact ⟨newline_dumps hfloat j, newline_dumpsFields hfloat fs⟩

end

/-! ### The characters of an object -/

theorem count_joinWith {sep : Char} (hc : c ≠ sep) (items : List (List Char)) :
    (joinWith sep items).count c = (items.map (List.count c)).sum := by
  induction items with
  | nil => rfl
  | cons x xs ih =>
    cases xs with
    | nil => simp [joinWith]
    | cons y ys =>
      rw [joinWith, List.count_append, List.count_cons_of_ne hc.symm, ih]
      · rfl
      · exact List.cons_ne_nil y ys

theorem dumpsFields_eq_map (fields : List (String × Json)) :
    dumpsFields floatRepr fields = fields.map (fun f => (f.1, dumps floatRepr f.2)) := by
  induction fields with
  | nil => rfl
  | cons f fs ih =>
    obtain ⟨k, j⟩ := f
    rw [dumpsFields, ih, List.map_cons]

/-- A character that is no punctuation of objects occurs where the members have it. -/
theorem count_dumps_obj (hc : c ≠ '\x7b' ∧ c ≠ ',' ∧ c ≠ '\x7d') (fields : List (String × Json)) :
    (dumps floatRepr (.obj fields)).count c =
      (fields.map (fun f => (member (f.1, dumps floatRepr f.2)).count c)).sum := by
  have hsorted : (sortFields (dumpsFields floatRepr fields)).Perm (dumpsFields floatRepr fields) :=
    List.perm_insertionSort _ _
  obtain ⟨hopen, hcomma, hclose⟩ := hc
  calc (dumps floatRepr (.obj fields)).count c
      = (joinWith ',' ((sortFields (dumpsFields floatRepr fields)).map member)).count c := by
        rw [dumps, List.cons_append, List.count_cons_of_ne hopen.symm, List.count_append,
          List.count_singleton, if_neg (by simpa using hclose.symm), Nat.add_zero]
    _ = (((dumpsFields floatRepr fields).map member).map (List.count c)).sum := by
        rw [count_joinWith hcomma]
        exact ((hsorted.map _).map _).sum_eq
    _ = (fields.map (fun f => (member (f.1, dumps floatRepr f.2)).count c)).sum := by
        rw [dumpsFields_eq_map, List.map_map, List.map_map]
        rfl

/-- Objects that differ in the value of one member, and have one text, have values of the same
characters there. -/
theorem count_of_dumps_eq (hc : c ≠ '\x7b' ∧ c ≠ ',' ∧ c ≠ '\x7d')
    {before rest : List (String × Json)}
    {k : String} {j j' : Json} (h : dumps floatRepr (.obj (before ++ (k, j) :: rest)) =
      dumps floatRepr (.obj (before ++ (k, j') :: rest))) :
    (dumps floatRepr j).count c = (dumps floatRepr j').count c := by
  have hmember (v : List Char) :
      (member (k, v)).count c = (quote k ++ [':']).count c + v.count c := by
    rw [member, ← List.count_append, List.append_assoc, List.singleton_append]
  have hcount := congrArg (List.count c) h
  rw [count_dumps_obj hc, count_dumps_obj hc] at hcount
  simp only [List.map_append, List.map_cons, List.sum_append, List.sum_cons, hmember] at hcount
  omega

end Dumps

/-- Parts without a separator are cut at it in one way only. -/
theorem cut_unique {α : Type} {c : α} {a a' b b' : List α} (ha : c ∉ a) (ha' : c ∉ a')
    (h : a ++ c :: b = a' ++ c :: b') : a = a' ∧ b = b' := by
  induction a generalizing a' with
  | nil =>
    cases a' with
    | nil => exact ⟨rfl, (List.cons.inj h).2⟩
    | cons x xs => exact absurd (List.mem_cons.mpr (Or.inl (List.cons.inj h).1)) ha'
  | cons x xs ih =>
    cases a' with
    | nil => exact absurd (List.mem_cons.mpr (Or.inl (List.cons.inj h).1.symm)) ha
    | cons y ys =>
      obtain ⟨hxy, htail⟩ := List.cons.inj h
      obtain ⟨hxs, hb⟩ := ih (fun hc => ha (List.mem_cons_of_mem x hc))
        (fun hc => ha' (List.mem_cons_of_mem y hc)) htail
      exact ⟨by rw [hxy, hxs], hb⟩

/-- Names without a slash, behind directories, are where the last slash cuts. -/
theorem cut_last_unique {α : Type} {c : α} {a a' b b' : List α} (hb : c ∉ b) (hb' : c ∉ b')
    (h : a ++ c :: b = a' ++ c :: b') : b = b' := by
  have hrev := congrArg List.reverse h
  simp only [List.reverse_append, List.reverse_cons, List.append_assoc,
    List.singleton_append] at hrev
  have hcut := cut_unique (fun hm => hb (List.mem_reverse.mp hm))
    (fun hm => hb' (List.mem_reverse.mp hm)) hrev
  exact List.reverse_injective hcut.1

/-! ### Bytes -/

/-- Lines, each ended by a newline. -/
def terminated (lines : List (List Char)) : List Char := lines.flatMap (· ++ ['\n'])

theorem count_terminated {lines : List (List Char)} (h : ∀ x ∈ lines, '\n' ∉ x) :
    (terminated lines).count '\n' = lines.length := by
  induction lines with
  | nil => rfl
  | cons x xs ih =>
    have hx : x.count '\n' = 0 := List.count_eq_zero.mpr (h x List.mem_cons_self)
    have hxs := ih (fun y hy => h y (List.mem_cons_of_mem x hy))
    rw [terminated, List.flatMap_cons, List.count_append, List.count_append, hx]
    rw [terminated] at hxs
    rw [hxs, List.length_cons]
    simp only [List.count_singleton_self]
    omega

/-- A body determines its lines. -/
theorem terminated_inj {xs ys : List (List Char)} (hx : ∀ x ∈ xs, '\n' ∉ x)
    (hy : ∀ y ∈ ys, '\n' ∉ y) (h : terminated xs = terminated ys) : xs = ys := by
  induction xs generalizing ys with
  | nil =>
    cases ys with
    | nil => rfl
    | cons y ys => simp [terminated] at h
  | cons x xs ih =>
    cases ys with
    | nil => simp [terminated] at h
    | cons y ys =>
      have hcut : x ++ '\n' :: terminated xs = y ++ '\n' :: terminated ys := by
        simpa only [terminated, List.flatMap_cons, List.append_assoc, List.singleton_append] using h
      obtain ⟨rfl, hrest⟩ := cut_unique (hx x List.mem_cons_self) (hy y List.mem_cons_self) hcut
      rw [ih (fun z hz => hx z (List.mem_cons_of_mem x hz))
        (fun z hz => hy z (List.mem_cons_of_mem x hz)) hrest]

/-- `body.count(b"\n")`. -/
def countNewlines (body : ByteArray) : ℕ := body.data.toList.count 10

theorem byte_ne_newline {n : ℕ} (h : 10 < n) (hn : n < 256) : UInt8.ofNat n ≠ 10 := by
  intro he
  have hval := congrArg UInt8.toNat he
  rw [UInt8.toNat_ofNat'] at hval
  have hten : n % 2 ^ 8 = 10 := hval
  omega

/-- A character has the newline byte in its encoding if it is the newline itself. -/
theorem count_utf8EncodeChar (c : Char) :
    (String.utf8EncodeChar c).count 10 = [c].count '\n' := by
  by_cases hc : c = '\n'
  · rw [hc]
    decide
  · have hlist : [c].count '\n' = 0 :=
      List.count_eq_zero.mpr (by rw [List.mem_singleton]; exact Ne.symm hc)
    rw [hlist]
    have hval : c.val.toNat ≠ 10 := fun h => hc (Char.ext (UInt32.toNat_inj.mp h))
    apply List.count_eq_zero.mpr
    intro hmem
    -- one byte for ASCII; every byte of a longer encoding has its top bit set
    unfold String.utf8EncodeChar at hmem
    dsimp only at hmem
    split_ifs at hmem with h₁ h₂ h₃ <;>
      simp only [List.mem_cons, List.not_mem_nil, or_false] at hmem
    · by_cases hlow : 10 < c.val.toNat
      · exact byte_ne_newline hlow (by omega) hmem.symm
      · have hbyte := congrArg UInt8.toNat hmem
        rw [UInt8.toNat_ofNat'] at hbyte
        have hten : 10 = c.val.toNat % 2 ^ 8 := hbyte
        omega
    · rcases hmem with h | h
      · exact byte_ne_newline (by omega) (by omega) h.symm
      · exact byte_ne_newline (by omega) (by omega) h.symm
    · rcases hmem with h | h | h
      · exact byte_ne_newline (by omega) (by omega) h.symm
      · exact byte_ne_newline (by omega) (by omega) h.symm
      · exact byte_ne_newline (by omega) (by omega) h.symm
    · rcases hmem with h | h | h | h
      · exact byte_ne_newline (by omega) (by omega) h.symm
      · exact byte_ne_newline (by omega) (by omega) h.symm
      · exact byte_ne_newline (by omega) (by omega) h.symm
      · exact byte_ne_newline (by omega) (by omega) h.symm

theorem count_flatMap_utf8EncodeChar (text : List Char) :
    (text.flatMap String.utf8EncodeChar).count 10 = text.count '\n' := by
  induction text with
  | nil => rfl
  | cons c cs ih =>
    calc ((c :: cs).flatMap String.utf8EncodeChar).count 10
        = (String.utf8EncodeChar c).count 10 + (cs.flatMap String.utf8EncodeChar).count 10 := by
          rw [List.flatMap_cons, List.count_append]
      _ = [c].count '\n' + cs.count '\n' := by rw [count_utf8EncodeChar, ih]
      _ = (c :: cs).count '\n' := by rw [← List.count_append, List.singleton_append]

/-- The bytes of a text are those of its characters. -/
theorem toList_toUTF8 (text : List Char) :
    (String.ofList text).toUTF8.data.toList = text.flatMap String.utf8EncodeChar := by
  have hbytes : (String.ofList text).toUTF8 = (text.flatMap String.utf8EncodeChar).toByteArray := by
    rw [String.toUTF8_eq_toByteArray, ← String.utf8Encode_toList, String.toList_ofList]
    rfl
  rw [hbytes, List.toList_data_toByteArray]

/-- The newline bytes of a text are its newlines. -/
theorem countNewlines_toUTF8 (text : List Char) :
    countNewlines (String.ofList text).toUTF8 = text.count '\n' := by
  rw [countNewlines, toList_toUTF8]
  exact count_flatMap_utf8EncodeChar text

theorem toUTF8_eq_iff {a b : List Char} :
    (String.ofList a).toUTF8 = (String.ofList b).toUTF8 ↔ a = b := by
  rw [String.toUTF8_eq_toByteArray, String.toUTF8_eq_toByteArray, String.toByteArray_inj]
  exact ⟨String.ofList_injective, congrArg String.ofList⟩

end Serial
