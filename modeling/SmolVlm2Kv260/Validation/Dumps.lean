import SmolVlm2Kv260.Text.Decimal
import SmolVlm2Kv260.Text.Quoted
import SmolVlm2Kv260.Validation.Py

/-!
# Writing a JSON text

`json.dumps` of Python with `indent=2` and `ensure_ascii=False`.  The strings between the
quotes of the text are the keys and the strings of the value, in their order, and behind each
key stands what is written for its value.
-/

set_option autoImplicit false

namespace Py

open Text

/-! ### The text -/

/-- The escapes of `py_encode_basestring`. -/
def escapeChar (c : Char) : List Char :=
  if c = '\\' then ['\\', '\\']
  else if c = '"' then ['\\', '"']
  else if c = '\n' then ['\\', 'n']
  else if c = '\r' then ['\\', 'r']
  else if c = '\t' then ['\\', 't']
  else if c.toNat = 8 then ['\\', 'b']
  else if c.toNat = 12 then ['\\', 'f']
  else if c.toNat < 32 then
    ['\\', 'u', '0', '0', Nat.digitChar (c.toNat / 16), Nat.digitChar (c.toNat % 16)]
  else [c]

/-- A string, in quotes. -/
def encodeString (s : String) : List Char := '"' :: (s.toList.flatMap escapeChar ++ ['"'])

/-- A line break and the indentation of the next line. -/
def newlineIndent (level : ℕ) : List Char := '\n' :: List.replicate (2 * level) ' '

namespace Json

variable {F : Type} [PyFloat F]

mutual

/-- `json.dumps`, at a level of indentation. -/
def dumps (level : ℕ) : Json F → List Char
  | none => "null".toList
  | bool b => if b then "true".toList else "false".toList
  | int n => (toString n).toList
  | float x => (PyFloat.repr x).toList
  | str s => encodeString s
  | list [] => "[]".toList
  | list (v :: items) =>
      '[' :: (newlineIndent (level + 1) ++ dumps (level + 1) v ++ dumpsItems (level + 1) items
        ++ newlineIndent level ++ [']'])
  | dict [] => "{}".toList
  | dict ((key, v) :: items) =>
      '{' :: (newlineIndent (level + 1) ++ encodeString key ++ ':' :: ' ' :: dumps (level + 1) v
        ++ dumpsFields (level + 1) items ++ newlineIndent level ++ ['}'])

/-- The items of a list after the first. -/
def dumpsItems (level : ℕ) : List (Json F) → List Char
  | [] => []
  | v :: items => ',' :: (newlineIndent level ++ dumps level v ++ dumpsItems level items)

/-- The items of a dictionary after the first. -/
def dumpsFields (level : ℕ) : List (String × Json F) → List Char
  | [] => []
  | (key, v) :: items =>
      ',' :: (newlineIndent level ++ encodeString key ++ ':' :: ' ' :: dumps level v
        ++ dumpsFields level items)

end

mutual

/-- The strings of a value in their order, each key with its value. -/
def strings : Json F → List (String × Option (Json F))
  | str s => [(s, Option.none)]
  | list items => stringsItems items
  | dict items => stringsFields items
  | _ => []

def stringsItems : List (Json F) → List (String × Option (Json F))
  | [] => []
  | v :: items => strings v ++ stringsItems items

def stringsFields : List (String × Json F) → List (String × Option (Json F))
  | [] => []
  | (key, v) :: items => (key, some v) :: (strings v ++ stringsFields items)

end

/-! ### The strings of a text -/

/-- A string that is written as it is. -/
def PlainString (s : String) : Prop := ∀ c ∈ s.toList, c ≠ '"' ∧ c ≠ '\\' ∧ 32 ≤ c.toNat

instance (s : String) : Decidable (PlainString s) := List.decidableBAll _ s.toList

/-- What stands behind a string: for a key, what is written for its value. -/
def Shows (text : List Char) : Option (Json F) → Prop
  | Option.none => True
  | some v => ∃ level rest, text = ':' :: ' ' :: (dumps level v ++ rest) ∧ Separated rest

theorem escapeChar_of_plain {c : Char} (hquote : c ≠ '"') (hback : c ≠ '\\')
    (hc : 32 ≤ c.toNat) :
  escapeChar c = [c]
  := by
  have hn : c ≠ '\n' := by
    rintro rfl
    exact absurd hc (by decide)
  have hr : c ≠ '\r' := by
    rintro rfl
    exact absurd hc (by decide)
  have ht : c ≠ '\t' := by
    rintro rfl
    exact absurd hc (by decide)
  rw [escapeChar, if_neg hback, if_neg hquote, if_neg hn, if_neg hr, if_neg ht,
    if_neg (by omega), if_neg (by omega), if_neg (by omega)]

theorem flatMap_escapeChar {cs : List Char}
    (h : ∀ c ∈ cs, c ≠ '"' ∧ c ≠ '\\' ∧ 32 ≤ c.toNat) :
  cs.flatMap escapeChar = cs
  := by
  induction cs with
  | nil => rfl
  | cons c cs ih =>
      obtain ⟨⟨hquote, hback, hc⟩, hcs⟩ := List.forall_mem_cons.mp h
      rw [List.flatMap_cons, escapeChar_of_plain hquote hback hc, ih hcs, List.singleton_append]

theorem encodeString_of_plain {s : String} (h : PlainString s) :
  encodeString s = '"' :: (s.toList ++ ['"'])
  := by
  rw [encodeString, flatMap_escapeChar h]

theorem quote_notMem_of_plain {s : String} (h : PlainString s) :
  '"' ∉ s.toList
  := fun hmem => (h _ hmem).1 rfl

/-- A plain string is one of the strings of a text. -/
theorem quoted_string {s : String} {v : Option (Json F)} {text : List Char}
    {es : List (String × Option (Json F))} (hs : PlainString s) (hsep : Separated text)
    (hv : Shows text v) (h : Quoted Shows text es) :
  Quoted Shows (encodeString s ++ text) ((s, v) :: es)
  := by
  rw [encodeString_of_plain hs, List.cons_append, List.append_assoc, List.singleton_append]
  apply Quoted.string (quote_notMem_of_plain hs) hsep hv h

theorem quote_notMem_newlineIndent (level : ℕ) :
  '"' ∉ newlineIndent level
  := by
  rw [newlineIndent, List.mem_cons, List.mem_replicate]
  rintro (h | ⟨-, h⟩)
  · exact absurd h (by decide)
  · exact absurd h (by decide)

theorem separated_newlineIndent (level : ℕ) (text : List Char) :
  Separated (newlineIndent level ++ text)
  := by
  rintro c ⟨⟩
  decide

theorem separated_comma (text : List Char) :
  Separated (',' :: text)
  := by
  rintro c ⟨⟩
  decide

theorem quote_notMem_int (n : ℤ) :
  '"' ∉ (toString n).toList
  := by
  intro h
  exact absurd (isDecimal_of_mem_toString h) (by decide)

theorem separated_dumpsItems (level : ℕ) (items : List (Json F)) {text : List Char}
    (h : Separated text) :
  Separated (dumpsItems level items ++ text)
  := by
  cases items with
  | nil => exact h
  | cons v items =>
      rw [dumpsItems, List.cons_append]
      apply separated_comma

theorem separated_dumpsFields (level : ℕ) (items : List (String × Json F)) {text : List Char}
    (h : Separated text) :
  Separated (dumpsFields level items ++ text)
  := by
  cases items with
  | nil => exact h
  | cons item items =>
      rw [dumpsFields, List.cons_append]
      apply separated_comma

/-- A key with what is written for its value. -/
theorem quoted_key {key : String} {v : Json F} {level : ℕ} {text : List Char}
    {es : List (String × Option (Json F))} (hkey : PlainString key) (hsep : Separated text)
    (h : Quoted Shows (dumps level v ++ text) es) :
  Quoted Shows (encodeString key ++ ':' :: ' ' :: (dumps level v ++ text))
    ((key, some v) :: es)
  := by
  apply quoted_string hkey
  · rintro c ⟨⟩
    decide
  · use level, text
  · apply Quoted.char (by decide)
    apply Quoted.char (by decide) h

mutual

/-- In the text of a value with plain strings these are the strings between the quotes. -/
theorem quoted_dumps (hfloat : ∀ x : F, '"' ∉ (PyFloat.repr x).toList) (level : ℕ) (v : Json F)
    (hv : ∀ e ∈ strings v, PlainString e.1) {text : List Char}
    {es : List (String × Option (Json F))} (hsep : Separated text) (h : Quoted Shows text es) :
  Quoted Shows (dumps level v ++ text) (strings v ++ es)
  := by
  match v with
  | none =>
      rw [dumps]
      apply h.append (by decide)
  | bool true =>
      rw [dumps]
      apply h.append (by decide)
  | bool false =>
      rw [dumps]
      apply h.append (by decide)
  | int n =>
      rw [dumps]
      apply h.append (quote_notMem_int n)
  | float x =>
      rw [dumps]
      apply h.append (hfloat x)
  | str s =>
      rw [dumps, strings]
      apply quoted_string (hv (s, Option.none) List.mem_cons_self) hsep
        (v := Option.none) trivial h
  | list [] =>
      rw [dumps]
      apply h.append (by decide)
  | dict [] =>
      rw [dumps]
      apply h.append (by decide)
  | list (v :: items) =>
      rw [strings, stringsItems] at hv ⊢
      obtain ⟨hfirst, hitems⟩ := List.forall_mem_append.mp hv
      have hclose := Quoted.char (by decide : ']' ≠ '"') h
      have hend := hclose.append (quote_notMem_newlineIndent level)
      have hendsep := separated_newlineIndent level (']' :: text)
      have hrest := quoted_dumpsItems hfloat (level + 1) items hitems hendsep hend
      have hv := quoted_dumps hfloat (level + 1) v hfirst (separated_dumpsItems _ _ hendsep) hrest
      have hopen := hv.append (quote_notMem_newlineIndent (level + 1))
      have htext := Quoted.char (by decide : '[' ≠ '"') hopen
      rw [dumps]
      simpa only [List.append_assoc, List.cons_append, List.nil_append] using htext
  | dict ((key, v) :: items) =>
      rw [strings, stringsFields] at hv ⊢
      obtain ⟨hkey, hv⟩ := List.forall_mem_cons.mp hv
      obtain ⟨hfirst, hitems⟩ := List.forall_mem_append.mp hv
      have hclose := Quoted.char (by decide : '}' ≠ '"') h
      have hend := hclose.append (quote_notMem_newlineIndent level)
      have hendsep := separated_newlineIndent level ('}' :: text)
      have hrest := quoted_dumpsFields hfloat (level + 1) items hitems hendsep hend
      have hrestsep := separated_dumpsFields (level + 1) items hendsep
      have hv := quoted_dumps hfloat (level + 1) v hfirst hrestsep hrest
      have hopen := (quoted_key hkey hrestsep hv).append
        (quote_notMem_newlineIndent (level + 1))
      have htext := Quoted.char (by decide : '{' ≠ '"') hopen
      rw [dumps]
      simpa only [List.append_assoc, List.cons_append, List.nil_append] using htext

theorem quoted_dumpsItems (hfloat : ∀ x : F, '"' ∉ (PyFloat.repr x).toList) (level : ℕ)
    (items : List (Json F)) (hv : ∀ e ∈ stringsItems items, PlainString e.1)
    {text : List Char} {es : List (String × Option (Json F))} (hsep : Separated text)
    (h : Quoted Shows text es) :
  Quoted Shows (dumpsItems level items ++ text) (stringsItems items ++ es)
  := by
  match items with
  | [] =>
      rw [dumpsItems, stringsItems]
      apply h
  | v :: items =>
      rw [stringsItems] at hv ⊢
      obtain ⟨hfirst, hitems⟩ := List.forall_mem_append.mp hv
      have hrest := quoted_dumpsItems hfloat level items hitems hsep h
      have hv := quoted_dumps hfloat level v hfirst (separated_dumpsItems level items hsep) hrest
      have hopen := hv.append (quote_notMem_newlineIndent level)
      have htext := Quoted.char (by decide : ',' ≠ '"') hopen
      rw [dumpsItems]
      simpa only [List.append_assoc, List.cons_append, List.nil_append] using htext

theorem quoted_dumpsFields (hfloat : ∀ x : F, '"' ∉ (PyFloat.repr x).toList) (level : ℕ)
    (items : List (String × Json F)) (hv : ∀ e ∈ stringsFields items, PlainString e.1)
    {text : List Char} {es : List (String × Option (Json F))} (hsep : Separated text)
    (h : Quoted Shows text es) :
  Quoted Shows (dumpsFields level items ++ text) (stringsFields items ++ es)
  := by
  match items with
  | [] =>
      rw [dumpsFields, stringsFields]
      apply h
  | (key, v) :: items =>
      rw [stringsFields] at hv ⊢
      obtain ⟨hkey, hv⟩ := List.forall_mem_cons.mp hv
      obtain ⟨hfirst, hitems⟩ := List.forall_mem_append.mp hv
      have hrest := quoted_dumpsFields hfloat level items hitems hsep h
      have hrestsep := separated_dumpsFields level items hsep
      have hv := quoted_dumps hfloat level v hfirst hrestsep hrest
      have hopen := (quoted_key hkey hrestsep hv).append (quote_notMem_newlineIndent level)
      have htext := Quoted.char (by decide : ',' ≠ '"') hopen
      rw [dumpsFields]
      simpa only [List.append_assoc, List.cons_append, List.nil_append] using htext

end

end Json

end Py
